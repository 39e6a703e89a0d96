import CiRunner.Lifecycle.Cores
import CiRunner.Lifecycle.Knowledge

/-! The rules by which the programs of the lifecycle are taken through the outline.
All but the frame of a start are plain: whatever such a part does, the thread keeps
the rows it has read and the attempt it is on. -/

namespace CiRunner.Lifecycle

open Threads CiRunner.State

/-- A write that does not begin or end an attempt. -/
def Writer.plain (w : Writer) : Prop := w ≠ .creating ∧ w.decides = false

/-- A call that does not begin or end an attempt. -/
def Call.plain : Call → Prop
  | .startBegin _ | .startDone _ | .unlockCreation _ => False
  | .writeState w _ => w.plain
  | _ => True

structure Keeps (κ κ' : Know) : Prop where
  rows : ∀ b ∈ κ.rows, b ∈ κ'.rows
  stopped : ∀ y ∈ κ.stopped, y ∈ κ'.stopped
  attempt : κ'.attempt = κ.attempt
  served : κ.served = true → κ'.served = true
  undecided : κ'.undecided = κ.undecided

variable {cfg : Settings} {R : Reading cfg} {κ κ' κ'' : Know} {α β : Type}

theorem Keeps.refl (κ : Know) : Keeps κ κ := ⟨fun _ h => h, fun _ h => h, rfl, fun h => h, rfl⟩

theorem Keeps.trans (h : Keeps κ κ') (h' : Keeps κ' κ'') : Keeps κ κ'' where
  rows b hb := h'.rows b (h.rows b hb)
  stopped y hy := h'.stopped y (h.stopped y hy)
  attempt := h'.attempt.trans h.attempt
  served hs := h'.served (h.served hs)
  undecided := h'.undecided.trans h.undecided

theorem keeps_refused (w : Writer) : Keeps κ (κ.wrote w none) :=
  ⟨fun _ h => h, fun _ h => h, rfl, fun h => h, rfl⟩

theorem nextAttempt_eq {w : Writer} (hw : w ≠ .creating) : κ.nextAttempt w = κ.attempt := by
  cases w with
  | creating => exact absurd rfl hw
  | _ => rfl

theorem keeps_wrote {w : Writer} (hw : w.plain) (reply : Option RunnerState) :
    Keeps κ (κ.wrote w reply) := by
  cases reply with
  | none => exact keeps_refused w
  | some r =>
    refine ⟨fun _ h => List.mem_cons_of_mem _ h, fun _ h => h, nextAttempt_eq hw.1, fun h => ?_, ?_⟩
    · cases w with
      | creating => exact absurd rfl hw.1
      | snapshot => rfl
      | _ => exact h
    · simp [Know.wrote, Know.nextUndecided, hw.1, hw.2]

theorem keeps_learn {c : Call} (hc : c.plain) (a : Reply c) : Keeps κ (learn κ c a) := by
  cases c with
  | writeState w st => exact keeps_wrote hc a
  | startBegin | startDone | unlockCreation => exact absurd hc id
  | readState id =>
    cases a with
    | none => exact .refl κ
    | some r => exact ⟨fun _ h => List.mem_cons_of_mem _ h, fun _ h => h, rfl, fun h => h, rfl⟩
  | reserve => cases a <;> exact ⟨fun _ h => h, fun _ h => h, rfl, fun h => h, rfl⟩
  | sandboxConfig id =>
    cases a with
    | error err => exact .refl κ
    | ok config => exact ⟨fun _ h => h, fun _ h => h, rfl, fun h => by simp [learn, h], rfl⟩
  | stopSandbox sandboxID =>
    cases a with
    | none => exact ⟨fun _ h => h, fun _ h => List.mem_cons_of_mem _ h, rfl, fun h => h, rfl⟩
    | some err =>
      simp only [learn]
      split
      · exact ⟨fun _ h => h, fun _ h => List.mem_cons_of_mem _ h, rfl, fun h => h, rfl⟩
      · exact .refl κ
  | lock | unlock | lockCreation =>
    exact ⟨fun _ h => h, fun _ h => h, rfl, fun h => h, rfl⟩
  | _ => exact .refl κ

/-- The outline for the plain parts of programs. -/
def Reading.part (R : Reading cfg) : Outline (machine cfg) Know :=
  { R.outline with may := fun κ c => may cfg κ c ∧ c.plain }

theorem follows_of_part {Q : Know → α → Prop} :
    ∀ {κ : Know} {p : Prog Reply α}, R.part.Follows Q κ p → R.outline.Follows Q κ p
  | _, .done _, h => Outline.follows_done.mpr (Outline.follows_done.mp h)
  | _, .call _ _, h =>
    have ⟨hm, hk⟩ := Outline.follows_call.mp h
    Outline.follows_call.mpr ⟨hm.1, fun a ha => follows_of_part (hk a ha)⟩

theorem follows_keeps {Q : Know → α → Prop} :
    ∀ {κ : Know} {p : Prog Reply α}, R.part.Follows Q κ p →
      R.part.Follows (fun κ' a => Q κ' a ∧ Keeps κ κ') κ p
  | κ, .done _, h => Outline.follows_done.mpr ⟨Outline.follows_done.mp h, .refl κ⟩
  | _, .call _ _, h =>
    have ⟨hm, hk⟩ := Outline.follows_call.mp h
    Outline.follows_call.mpr ⟨hm, fun a ha => (follows_keeps (hk a ha)).mono
      fun _ _ hq => ⟨hq.1, (keeps_learn hm.2 a).trans hq.2⟩⟩

theorem follows_seq {Q : Know → α → Prop} {Q' : Know → β → Prop} {p : Prog Reply α}
    {f : α → Prog Reply β} (hp : R.part.Follows Q κ p)
    (hf : ∀ κ' a, Q κ' a → Keeps κ κ' → R.part.Follows Q' κ' (f a)) :
    R.part.Follows Q' κ (p >>= f) :=
  (follows_keeps hp).bind fun κ' a h => hf κ' a h.1 h.2

theorem follows_then {Q : Know → α → Prop} {Q' : Know → β → Prop} {p : Prog Reply α}
    {f : α → Prog Reply β} (hp : R.part.Follows Q κ p)
    (hf : ∀ κ' a, Q κ' a → Keeps κ κ' → R.outline.Follows Q' κ' (f a)) :
    R.outline.Follows Q' κ (p >>= f) :=
  (follows_of_part (follows_keeps hp)).bind fun κ' a h => hf κ' a h.1 h.2

/-! ### Calls without an obligation -/

/-- A call that anyone may make and that teaches nothing. -/
def Call.quiet : Call → Bool
  | .now | .listActiveStates | .listMismatchedCompletedStates | .listFailedWorkflowJobStates
  | .claimCandidate _ | .claimUpdate _ _ _ _ | .checkProfile | .remote _ | .checkSponsorship _
  | .resolveTemplate | .createJITConfig | .startSandbox _ _ | .recoverSandbox _ | .watchExit _ _
  | .getWorkflowJob .. | .runnerBusy => true
  | _ => false

theorem may_quiet {c : Call} (hc : c.quiet = true) : R.part.may κ c := by
  cases c with
  | now | listActiveStates | listMismatchedCompletedStates | listFailedWorkflowJobStates
  | claimCandidate | claimUpdate | checkProfile | remote | checkSponsorship | resolveTemplate
  | createJITConfig | startSandbox | recoverSandbox | watchExit | getWorkflowJob | runnerBusy =>
    exact ⟨trivial, trivial⟩
  | _ => cases hc

theorem learn_quiet {c : Call} (hc : c.quiet = true) (a : Reply c) : learn κ c a = κ := by
  cases c with
  | now | listActiveStates | listMismatchedCompletedStates | listFailedWorkflowJobStates
  | claimCandidate | claimUpdate | checkProfile | remote | checkSponsorship | resolveTemplate
  | createJITConfig | startSandbox | recoverSandbox | watchExit | getWorkflowJob | runnerBusy => rfl
  | _ => cases hc

section Rules

variable {Q : Know → α → Prop}

theorem follows_quiet {c : Call} {f : Reply c → Prog Reply α} (hc : c.quiet = true)
    (hf : ∀ a, tells κ c a → R.part.Follows Q κ (f a)) : R.part.Follows Q κ (ask c >>= f) :=
  Outline.follows_ask_bind (may_quiet hc) fun a ha => by
    have h := hf a ha
    rwa [← learn_quiet (κ := κ) hc a] at h

theorem follows_quiet_last (c : Call) {Q : Know → Reply c → Prop} (hc : c.quiet = true)
    (h : ∀ a, Q κ a) : R.part.Follows Q κ (ask c) :=
  R.part.follows_ask c (may_quiet hc) fun a _ => by
    have h := h a
    rwa [← learn_quiet (κ := κ) hc a] at h

theorem follows_lock {id : String} {f : Unit → Prog Reply α}
    (hf : R.part.Follows Q (κ.locked id) (f ())) : R.part.Follows Q κ (ask (.lock id) >>= f) :=
  Outline.follows_ask_bind ⟨trivial, trivial⟩ fun _ _ => hf

theorem follows_unlock {id : String} {f : Unit → Prog Reply α}
    (hf : R.part.Follows Q (κ.unlocked id) (f ())) : R.part.Follows Q κ (ask (.unlock id) >>= f) :=
  Outline.follows_ask_bind ⟨trivial, trivial⟩ fun _ _ => hf

theorem follows_unlock_last {id : String} {Q : Know → Unit → Prop} (h : Q (κ.unlocked id) ()) :
    R.part.Follows Q κ (ask (.unlock id)) :=
  R.part.follows_ask (.unlock id) ⟨trivial, trivial⟩ fun _ _ => h

theorem follows_withLock {id : String} {p : Prog Reply α}
    (h : R.part.Follows (fun κ' a => Q (κ'.unlocked id) a) (κ.locked id) p) :
    R.part.Follows Q κ (withLock id p) := by
  unfold withLock
  refine follows_lock (h.bind fun κ' a hq => ?_)
  exact follows_unlock (f := fun _ => pure a) (Outline.follows_pure hq)

theorem follows_release {n : Nat} {id workerID : String} {Q : Know → Unit → Prop}
    (ha : κ.attempt = some (sanitizeID id, n)) (h : Q κ ()) :
    R.part.Follows Q κ (ask (.releaseLease n id workerID)) :=
  R.part.follows_ask (.releaseLease n id workerID) ⟨ha, trivial⟩ fun _ _ => h

theorem follows_read {id : String} {f : Option RunnerState → Prog Reply α}
    (hnone : R.part.Follows Q κ (f none))
    (hsome : ∀ r, Learned κ (sanitizeID id) r → R.part.Follows Q (κ.read r) (f (some r))) :
    R.part.Follows Q κ (ask (.readState id) >>= f) := by
  refine Outline.follows_ask_bind ⟨trivial, trivial⟩ fun reply ht => ?_
  cases reply with
  | none => exact hnone
  | some r => exact hsome r (ht r rfl)

theorem follows_read_last {id : String} {Q : Know → Option RunnerState → Prop} (hnone : Q κ none)
    (hsome : ∀ r, Learned κ (sanitizeID id) r → Q (κ.read r) (some r)) :
    R.part.Follows Q κ (ask (.readState id)) := by
  refine R.part.follows_ask (.readState id) ⟨trivial, trivial⟩ fun reply ht => ?_
  cases reply with
  | none => exact hnone
  | some r => exact hsome r (ht r rfl)

/-! ### Writes -/

/-- The state `st` is based on the row `b`. -/
structure CopyOf (κ : Know) (st b : RunnerState) : Prop where
  known : b ∈ κ.rows
  key : b.id = sanitizeID st.id
  version : st.version = b.version

variable {st st' b r : RunnerState}

theorem CopyOf.edit (h : CopyOf κ st b) (he : rowKey st' = rowKey st) : CopyOf κ st' b := by
  simp only [rowKey, Prod.mk.injEq] at he
  exact ⟨h.known, by rw [he.1]; exact h.key, by rw [he.2]; exact h.version⟩

theorem CopyOf.keeps (h : CopyOf κ st b) (hk : Keeps κ κ') : CopyOf κ' st b :=
  ⟨hk.rows b h.known, h.key, h.version⟩

theorem Learned.copy {key : String} (h : Learned κ key r) : CopyOf (κ.read r) r r :=
  ⟨List.mem_cons_self .., h.ok.key.symm, rfl⟩

theorem Learned.copy_edit {key : String} (h : Learned κ key r) (he : rowKey st = rowKey r) :
    CopyOf (κ.read r) st r :=
  h.copy.edit he

variable (cfg) in
structure Writes (κ : Know) (w : Writer) (st b : RunnerState) : Prop where
  copy : CopyOf κ st b
  site : Site κ.stopped (core b) (core st) w
  permit : Permit κ b w
  accounts : Accounts cfg.retryMaxAttempts b st w
  backed : Backed κ b st w

theorem Writes.may {w : Writer} (h : Writes cfg κ w st b) : R.outline.may κ (.writeState w st) :=
  ⟨b, h.copy.known, h.copy.key, h.copy.version, h.site, h.permit, h.accounts, h.backed⟩

/-- What is known of the row that an accepted write leaves. -/
structure Written (st r : RunnerState) : Prop where
  key : r.id = sanitizeID st.id
  version : r.version = st.version + 1
  core_eq : ∃ now, core r = (core st).stamp now
  account_eq : st.status ≠ .failed → account r = account st

theorem account_written (current : RunnerState) (now : Time) (hs : st.status ≠ .failed) :
    account (st.written current now) = account st := by
  rcases h : st.status <;>
    first
    | exact absurd h hs
    | simp [account, RunnerState.written, RunnerState.applyStateTimestamps, h]

theorem written_of_tells {w : Writer}
    (h : ∃ current now, current.id = sanitizeID st.id ∧ r = st.written current now) :
    Written st r ∧ r ∈ (κ.wrote w (some r)).rows := by
  obtain ⟨current, now, hid, rfl⟩ := h
  exact ⟨⟨hid, RunnerState.version_written .., ⟨now, core_written ..⟩, account_written current now⟩,
    List.mem_cons_self ..⟩

theorem follows_write {w : Writer} {f : Option RunnerState → Prog Reply α} (hw : w.plain)
    (h : Writes cfg κ w st b) (hnone : R.part.Follows Q (κ.wrote w none) (f none))
    (hsome : ∀ r, Written st r → R.part.Follows Q (κ.wrote w (some r)) (f (some r))) :
    R.part.Follows Q κ (ask (.writeState w st) >>= f) := by
  refine Outline.follows_ask_bind ⟨h.may (R := R), hw⟩ fun reply ht => ?_
  cases reply with
  | none => exact hnone
  | some r => exact hsome r (written_of_tells (κ := κ) (w := w) (ht r rfl)).1

theorem follows_write_last {w : Writer} {Q : Know → Option RunnerState → Prop} (hw : w.plain)
    (h : Writes cfg κ w st b) (hQ : ∀ reply, Q (κ.wrote w reply) reply) :
    R.part.Follows Q κ (ask (.writeState w st)) :=
  R.part.follows_ask (.writeState w st) ⟨h.may (R := R), hw⟩ fun reply _ => hQ reply

theorem follows_writeOrLog {w : Writer} {Q : Know → Unit → Prop} (hw : w.plain)
    (h : Writes cfg κ w st b) (hQ : ∀ reply, Q (κ.wrote w reply) ()) :
    R.part.Follows Q κ (writeOrLog w st) :=
  follows_write hw h (Outline.follows_pure (hQ none)) fun r _ => Outline.follows_pure (hQ (some r))

theorem follows_decide {w : Writer} {f : Option RunnerState → Prog Reply α}
    (h : Writes cfg κ w st b) (hf : ∀ reply, R.outline.Follows Q (κ.wrote w reply) (f reply)) :
    R.outline.Follows Q κ (ask (.writeState w st) >>= f) :=
  Outline.follows_ask_bind (h.may (R := R)) fun reply _ => hf reply

theorem follows_locked {id : String} {p : Prog Reply α}
    (h : R.outline.Follows (fun κ' a => Q (κ'.unlocked id) a) (κ.locked id) p) :
    R.outline.Follows Q κ (withLock id p) := by
  unfold withLock
  refine Outline.follows_ask_bind trivial fun _ _ => h.bind fun κ' a hq => ?_
  exact Outline.follows_ask_bind trivial fun _ _ => Outline.follows_pure hq

theorem Written.copy {w : Writer} (h : Written st r) :
    CopyOf (κ.wrote w (some r)) (nextVersion st) r :=
  ⟨List.mem_cons_self .., h.key, h.version.symm⟩

theorem Written.status_eq (h : Written st r) : r.status = st.status := by
  obtain ⟨now, hc⟩ := h.core_eq
  have hs := congrArg Core.status hc
  rw [status_stamp] at hs
  exact hs

theorem Written.sandboxID_eq (h : Written st r) : r.sandboxID = st.sandboxID := by
  obtain ⟨now, hc⟩ := h.core_eq
  have hs := congrArg Core.sandboxID hc
  rw [sandboxID_stamp] at hs
  exact hs

end Rules

end CiRunner.Lifecycle
