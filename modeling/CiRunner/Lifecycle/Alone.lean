import CiRunner.Lifecycle.Runs
import CiRunner.Threads.Sequential

/-! One program of the lifecycle on its own: the rules for its locks and its statements,
where the store works. -/

namespace CiRunner.Lifecycle

open Threads Tables CiRunner.State Text

variable {cfg : Settings} {i : Nat} {id : String} {allowed : Call → Choice → Prop}

/-! ### Rules for the calls -/

/-- The lock is held, and the row of the request is as given. -/
structure Holding (i : Nat) (id : String) (r : RunnerState) (s : State) : Prop where
  lock : s.locks id = some i
  row : s.rows.find (sanitizeID id) = some r
  key : sanitizeID id ≠ ""

structure StoreWorks (allowed : Call → Choice → Prop) : Prop where
  read : ∀ id x, allowed (.readState id) x → x.fails = false
  write : ∀ w st x, allowed (.writeState w st) x → x.fails = false

section Rules

variable {α : Type} {Q : α → State → Prop} {s : State} {r st : RunnerState} {w : Writer}

theorem ends_lock {k : Unit → Prog Reply α} (hlock : s.locks id = none)
    (hk : (machine cfg).Ends i allowed Q (k ())
      { s with locks := Function.update s.locks id (some i) }) :
    (machine cfg).Ends i allowed Q (ask (.lock id) >>= k) s := by
  apply Machine.ends_ask.mpr
  intro x _
  refine ⟨(), { s with locks := Function.update s.locks id (some i) }, ?_, hk⟩
  show serve cfg i (.lock id) x s = _
  simp only [serve, hlock, if_true]

theorem ends_unlock {k : Unit → Prog Reply α} (hheld : s.locks id = some i)
    (hk : (machine cfg).Ends i allowed Q (k ())
      { s with locks := Function.update s.locks id none }) :
    (machine cfg).Ends i allowed Q (ask (.unlock id) >>= k) s := by
  apply Machine.ends_ask.mpr
  intro x _
  refine ⟨(), { s with locks := released s.locks id i }, rfl, ?_⟩
  rw [released, if_pos hheld]
  exact hk

theorem ends_withLock {p : Prog Reply α} (hlock : s.locks id = none)
    (hp : (machine cfg).Ends i allowed
      (fun a u => u.locks id = some i ∧ Q a { u with locks := Function.update u.locks id none }) p
      { s with locks := Function.update s.locks id (some i) }) :
    (machine cfg).Ends i allowed Q (withLock id p) s := by
  refine ends_lock hlock (hp.bind ?_)
  rintro a u ⟨hheld, hq⟩
  exact ends_unlock hheld (Machine.ends_done.mpr hq)

theorem ends_readState (hw : StoreWorks allowed) {k : Option RunnerState → Prog Reply α}
    (hs : Holding i id r s) (hk : (machine cfg).Ends i allowed Q (k (some r)) s) :
    (machine cfg).Ends i allowed Q (ask (.readState id) >>= k) s := by
  apply Machine.ends_call.mpr
  intro x hx
  refine ⟨some r, s, ?_, hk⟩
  show some (if x.fails then none else s.rows.find (sanitizeID id), s) = _
  simp [hw.read id x hx, hs.row]

theorem ends_now {k : Time → Prog Reply α} (hk : ∀ now, (machine cfg).Ends i allowed Q (k now) s) :
    (machine cfg).Ends i allowed Q (ask .now >>= k) s := by
  apply Machine.ends_call.mpr
  intro x _
  exact ⟨x.now, s, rfl, hk x.now⟩

theorem Holding.rows_writeState (hs : Holding i id r s) (hid : sanitizeID st.id = sanitizeID id)
    (hversion : st.version = r.version) (now : Time) :
    s.rows.writeState st now = some (s.rows.put (st.written r now)) := by
  unfold Requests.writeState
  rw [hid, if_neg hs.key, hs.row]
  exact if_pos hversion.symm

theorem Holding.writeState (hs : Holding i id r s) (hid : sanitizeID st.id = sanitizeID id)
    (hversion : st.version = r.version) (now : Time) :
    (s.writeState i w st now).1 = some (st.written r now) ∧
    Holding i id (st.written r now) (s.writeState i w st now).2 := by
  have hrows := hs.rows_writeState hid hversion now
  have hkey : (st.written r now).id = sanitizeID id :=
    (RunnerState.id_written st r now).trans (Table.key_of_find hs.row)
  have hfind : (s.rows.put (st.written r now)).find (sanitizeID id) = some (st.written r now) := by
    have h := Table.find_put_self (t := s.rows) (v := st.written r now) (u := r)
      (by rw [hkey]; exact hs.row)
    rwa [hkey] at h
  refine ⟨?_, ⟨?_, ?_, hs.key⟩⟩
  · simp [State.writeState, hrows, hid, hfind]
  · rw [(locks_writeState s i w st now).1]
    exact hs.lock
  · simp [State.writeState, hrows, hfind]

theorem ends_writeState (hw : StoreWorks allowed) {k : Option RunnerState → Prog Reply α}
    (hs : Holding i id r s) (hid : sanitizeID st.id = sanitizeID id)
    (hversion : st.version = r.version)
    (hk : ∀ now t, Holding i id (st.written r now) t →
      (machine cfg).Ends i allowed Q (k (some (st.written r now))) t) :
    (machine cfg).Ends i allowed Q (ask (.writeState w st) >>= k) s := by
  apply Machine.ends_call.mpr
  intro x hx
  obtain ⟨hreply, hheld⟩ := hs.writeState (w := w) hid hversion x.now
  refine ⟨some (st.written r x.now), _, ?_, hk x.now _ hheld⟩
  show some (if x.fails then (none, s.settle i w) else s.writeState i w st x.now) = _
  rw [hw.write w st x hx, if_neg Bool.false_ne_true, ← hreply]

end Rules

/-! ### Results of jobs -/

theorem retainWorkflowJobResult_eq (r : RunnerState) (job : WorkflowJob) (now : Time) :
    ∃ result, (retainWorkflowJobResult r job now).1 = { r with jobResult := result } := by
  unfold retainWorkflowJobResult
  split
  · exact ⟨r.jobResult, rfl⟩
  · exact ⟨_, rfl⟩

end CiRunner.Lifecycle
