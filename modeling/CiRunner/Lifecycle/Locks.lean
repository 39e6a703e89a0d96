import CiRunner.Refcount.Registry
import CiRunner.State.Requests

/-! The locks of the requests. A table has one entry for each id that is locked or waited
for; a call counts itself in, waits for the mutex of the entry, and when it has released
the mutex counts itself out again, and the last one removes the entry. The entries are
kept under the ids as the callers give them, while the store resolves different ids to
one row. -/

namespace CiRunner.Lifecycle

open Refcount State

/-- Where a call of `lockRunner` is. The pointer is that of its entry. -/
inductive LockStage where
  | called
  | waiting (p : ℕ)
  | holding (p : ℕ)
  | releasing (p : ℕ)
  | done
  deriving DecidableEq, Repr

namespace LockStage

/-- The entry that a call is counted in for. -/
def pointer : LockStage → Option ℕ
  | .waiting p | .holding p | .releasing p => some p
  | .called | .done => none

/-- The call has not released its lock. -/
def unreleased : LockStage → Bool
  | .called | .waiting _ | .holding _ => true
  | .releasing _ | .done => false

end LockStage

structure LockCall where
  id : String
  stage : LockStage := .called
  deriving DecidableEq, Repr

/-- The call is counted in for the given id. -/
def LockCall.uses (id : String) (c : LockCall) : Bool := c.id = id && c.stage.pointer.isSome

/-- The table of entries, each with the call that has its mutex, and the calls so far. -/
structure RunnerLocks where
  table : Registry String (Option ℕ) := .empty none
  calls : List LockCall := []

namespace RunnerLocks

/-- A call counts itself in for the entry of its id, which is made if there is none. -/
def enter (s : RunnerLocks) (i : ℕ) : RunnerLocks :=
  match s.calls[i]? with
  | some ⟨id, .called⟩ =>
    let (table, p) := s.table.retain none id
    ⟨table, s.calls.set i ⟨id, .waiting p⟩⟩
  | _ => s

/-- A call gets the mutex, if it is free. -/
def acquire (s : RunnerLocks) (i : ℕ) : RunnerLocks :=
  match s.calls[i]? with
  | some ⟨id, .waiting p⟩ =>
    if (s.table.cells p).value = none then
      ⟨s.table.modify (fun _ => some i) p, s.calls.set i ⟨id, .holding p⟩⟩
    else s
  | _ => s

/-- The function that was returned is called. What it does, it does once. -/
def release (s : RunnerLocks) (i : ℕ) : RunnerLocks :=
  match s.calls[i]? with
  | some ⟨id, .holding p⟩ => ⟨s.table.modify (fun _ => none) p, s.calls.set i ⟨id, .releasing p⟩⟩
  | _ => s

/-- The call counts itself out; the last one removes the entry, if it still is that of the id. -/
def leave (s : RunnerLocks) (i : ℕ) : RunnerLocks :=
  match s.calls[i]? with
  | some ⟨id, .releasing p⟩ => ⟨s.table.releaseSame id p, s.calls.set i ⟨id, .done⟩⟩
  | _ => s

inductive Step where
  | lockRunner (id : String)
  | enter (i : ℕ)
  | acquire (i : ℕ)
  | release (i : ℕ)
  | leave (i : ℕ)

def step (s : RunnerLocks) : Step → RunnerLocks
  | .lockRunner id => { s with calls := s.calls ++ [⟨id, .called⟩] }
  | .enter i => s.enter i
  | .acquire i => s.acquire i
  | .release i => s.release i
  | .leave i => s.leave i

def run (s : RunnerLocks) (steps : List Step) : RunnerLocks := steps.foldl step s

/-! ### The table -/

/-- The number of calls that are counted in for an id. -/
def users (s : RunnerLocks) (id : String) : ℕ := s.calls.countP (·.uses id)

/-- The table counts the calls, their pointers are those of the entries, and who is in a critical
section has the mutex. -/
structure Inv (s : RunnerLocks) : Prop where
  ordered : s.table.Ordered s.users
  entry : ∀ {i p : ℕ} {c : LockCall}, s.calls[i]? = some c → c.stage.pointer = some p →
    s.table.entries c.id = some p
  holder : ∀ {i p : ℕ} {c : LockCall}, s.calls[i]? = some c → c.stage = .holding p →
    (s.table.cells p).value = some i
  mutex : ∀ {id : String} {i p : ℕ}, s.table.entries id = some p →
    (s.table.cells p).value = some i → s.calls[i]? = some ⟨id, .holding p⟩

theorem inv_initial : Inv {} where
  ordered := Registry.ordered_empty none
  entry h := by simp at h
  holder h := by simp at h
  mutex h := by cases h

variable {s : RunnerLocks} {i p : ℕ} {id : String} {c c' : LockCall}

theorem getElem?_set_calls (h : s.calls[i]? = some c) {d : LockCall} {j : ℕ} :
    (s.calls.set i c')[j]? = some d ↔ (j = i ∧ d = c') ∨ (j ≠ i ∧ s.calls[j]? = some d) := by
  have hi : i < s.calls.length := (List.getElem?_eq_some_iff.mp h).1
  rw [List.getElem?_set]
  by_cases hj : i = j
  · subst hj
    simp [hi, eq_comm]
  · simp [hj, Ne.symm hj]

theorem users_set (h : s.calls[i]? = some c) (c' : LockCall) (table : Registry String (Option ℕ))
    (id : String) :
    users ⟨table, s.calls.set i c'⟩ id + (if c.uses id then 1 else 0) =
      s.users id + (if c'.uses id then 1 else 0) := by
  obtain ⟨hi, rfl⟩ := List.getElem?_eq_some_iff.mp h
  have hpos : s.calls[i].uses id = true → 0 < s.calls.countP (·.uses id) := fun hu =>
    List.countP_pos_iff.mpr ⟨_, List.getElem_mem hi, hu⟩
  rw [users, users, List.countP_set hi]
  rcases hu : s.calls[i].uses id with _ | _
  · simp
  · have := hpos hu
    simp only [↓reduceIte]
    omega

theorem inv_lockRunner (h : s.Inv) (id : String) : (s.step (.lockRunner id)).Inv := by
  have hnew : ∀ {j : ℕ} {d : LockCall}, (s.calls ++ [⟨id, .called⟩])[j]? = some d →
      d.stage = .called ∨ s.calls[j]? = some d := by
    intro j d hd
    rw [List.getElem?_append] at hd
    split at hd
    · exact .inr hd
    · rw [List.getElem?_singleton] at hd
      split at hd
      · cases hd
        exact .inl rfl
      · cases hd
  have husers : (s.step (.lockRunner id)).users = s.users := by
    funext k
    simp [users, step, LockCall.uses, LockStage.pointer]
  refine ⟨?_, ?_, ?_, fun hid hi => ?_⟩
  · rw [husers]
    exact h.ordered
  · intro j q d hd hq
    obtain hcalled | hd := hnew hd
    · rw [hcalled] at hq
      cases hq
    · exact h.entry hd hq
  · intro j q d hd hq
    obtain hcalled | hd := hnew hd
    · rw [hcalled] at hq
      cases hq
    · exact h.holder hd hq
  · have hold := h.mutex hid hi
    exact (List.getElem?_append_left (List.getElem?_eq_some_iff.mp hold).1).trans hold

theorem inv_enter (h : s.Inv) (i : ℕ) : (s.enter i).Inv := by
  unfold enter
  split
  · rename_i id hcall
    have hself := Registry.retain_entries_self none s.table id
    refine ⟨?_, ?_, ?_, ?_⟩
    · convert h.ordered.retain none id using 1
      funext k
      have hcount := users_set hcall ⟨id, .waiting (s.table.retain none id).2⟩
        (s.table.retain none id).1 k
      by_cases hk : k = id
      · subst hk
        simpa [LockCall.uses, LockStage.pointer] using hcount
      · simpa [LockCall.uses, LockStage.pointer, hk, Ne.symm hk] using hcount
    · intro j q d hd hq
      rw [getElem?_set_calls hcall] at hd
      obtain ⟨rfl, rfl⟩ | ⟨-, hd⟩ := hd
      · cases hq
        exact hself
      · exact Registry.retain_entries_of_some none s.table (h.entry hd hq)
    · intro j q d hd hq
      rw [getElem?_set_calls hcall] at hd
      obtain ⟨rfl, rfl⟩ | ⟨-, hd⟩ := hd
      · cases hq
      · have hentry := h.entry hd (by rw [hq]; rfl)
        exact (h.ordered.retain_value none id hentry).trans (h.holder hd hq)
    · intro k j q hk hj
      have hold : s.table.entries k = some q := by
        by_cases hkid : k = id
        · subst hkid
          cases hself.symm.trans hk
          obtain hold | ⟨-, hzero⟩ := Registry.retain_value_self none s.table k
          · exact hold
          · rw [hzero] at hj
            cases hj
        · exact (Registry.retain_entries_ne none s.table hkid).symm.trans hk
      have hheld := h.mutex hold ((h.ordered.retain_value none id hold).symm.trans hj)
      refine (getElem?_set_calls hcall).mpr (.inr ⟨?_, hheld⟩)
      rintro rfl
      cases hcall.symm.trans hheld
  · exact h

theorem Inv.set_mutex (h : s.Inv) {stage stage' : LockStage} (hcall : s.calls[i]? = some ⟨id, stage⟩)
    (hp : stage.pointer = some p) (hp' : stage'.pointer = some p) (value : Option ℕ)
    (hothers : ∀ {j : ℕ} {d : LockCall}, j ≠ i → s.calls[j]? = some d → d.stage ≠ .holding p)
    (hown : stage' = .holding p → value = some i)
    (hmutex : ∀ j, value = some j → j = i ∧ stage' = .holding p) :
    Inv ⟨s.table.modify (fun _ => value) p, s.calls.set i ⟨id, stage'⟩⟩ := by
  refine ⟨?_, ?_, ?_, ?_⟩
  · convert h.ordered.modify (fun _ => value) p using 1
    funext k
    have hcount := users_set hcall ⟨id, stage'⟩ (s.table.modify (fun _ => value) p) k
    simpa [LockCall.uses, hp, hp'] using hcount
  · intro j q d hd hq
    rw [getElem?_set_calls hcall] at hd
    obtain ⟨rfl, rfl⟩ | ⟨-, hd⟩ := hd
    · cases hq.symm.trans hp'
      have hentry : s.table.entries id = some p := h.entry hcall hp
      exact hentry
    · exact h.entry hd hq
  · intro j q d hd hq
    rw [Registry.modify_value]
    rw [getElem?_set_calls hcall] at hd
    obtain ⟨rfl, rfl⟩ | ⟨hj, hd⟩ := hd
    · have hqp : q = p := by
        rw [show stage' = .holding q from hq] at hp'
        exact Option.some.inj hp'
      subst hqp
      rw [if_pos rfl]
      exact hown hq
    · have hqp : q ≠ p := by
        rintro rfl
        exact hothers hj hd hq
      rw [if_neg hqp]
      exact h.holder hd hq
  · intro k j q hk hj
    rw [Registry.modify_value] at hj
    rw [getElem?_set_calls hcall]
    have hentry : s.table.entries id = some p := h.entry hcall hp
    split at hj
    · rename_i hqp
      subst hqp
      obtain ⟨rfl, rfl⟩ := hmutex j hj
      rw [h.ordered.injective hk hentry]
      exact .inl ⟨rfl, rfl⟩
    · rename_i hqp
      have hheld := h.mutex hk hj
      refine .inr ⟨?_, hheld⟩
      rintro rfl
      cases hcall.symm.trans hheld
      exact hqp (Option.some.inj hp)

theorem inv_acquire (h : s.Inv) (i : ℕ) : (s.acquire i).Inv := by
  unfold acquire
  split
  · rename_i id p hcall
    split
    · rename_i hfree
      refine h.set_mutex hcall rfl rfl (some i) (fun _ hd hq => ?_) (fun _ => rfl)
        fun j hj => ⟨(Option.some.inj hj).symm, rfl⟩
      rw [h.holder hd hq] at hfree
      cases hfree
    · exact h
  · exact h

theorem inv_release (h : s.Inv) (i : ℕ) : (s.release i).Inv := by
  unfold release
  split
  · rename_i id p hcall
    refine h.set_mutex hcall rfl rfl none (fun hj hd hq => hj ?_) nofun nofun
    have hi := h.holder hcall rfl
    rw [h.holder hd hq] at hi
    exact Option.some.inj hi
  · exact h

theorem inv_leave (h : s.Inv) (i : ℕ) : (s.leave i).Inv := by
  unfold leave
  split
  · rename_i id p hcall
    have hentry : s.table.entries id = some p := h.entry hcall rfl
    rw [Registry.releaseSame_eq hentry]
    have hcount := users_set hcall ⟨id, .done⟩ (s.table.release id p)
    refine ⟨?_, ?_, ?_, ?_⟩
    · convert h.ordered.release hentry using 1
      funext k
      by_cases hk : k = id
      · subst hk
        have := hcount k
        simp only [LockCall.uses, LockStage.pointer, decide_true, Option.isSome_some,
          Option.isSome_none, Bool.and_self, Bool.and_false, Bool.false_eq_true, ↓reduceIte,
          Function.update_self] at this ⊢
        omega
      · simpa [LockCall.uses, LockStage.pointer, hk, Ne.symm hk] using hcount k
    · intro j q d hd hq
      rw [getElem?_set_calls hcall] at hd
      obtain ⟨rfl, rfl⟩ | ⟨hj, hd⟩ := hd
      · cases hq
      · have hold : s.table.entries d.id = some q := h.entry hd hq
        by_cases hid : d.id = id
        · -- Another call is counted in, so the entry stays.
          rw [hid, hentry] at hold
          cases hold
          have hpos : 0 < users ⟨s.table.release id p, s.calls.set i ⟨id, .done⟩⟩ id :=
            List.countP_pos_iff.mpr ⟨d, List.mem_of_getElem?
              ((getElem?_set_calls hcall).mpr (.inr ⟨hj, hd⟩)), by simp [LockCall.uses, hid, hq]⟩
          have hcount := hcount id
          rw [if_pos (by simp [LockCall.uses, LockStage.pointer]),
            if_neg (by simp [LockCall.uses, LockStage.pointer])] at hcount
          rw [hid]
          exact h.ordered.release_entries_self hentry (by omega)
        · exact (Registry.release_entries_ne s.table p hid).trans hold
    · intro j q d hd hq
      rw [getElem?_set_calls hcall] at hd
      obtain ⟨rfl, rfl⟩ | ⟨-, hd⟩ := hd
      · cases hq
      · rw [Registry.release_value]
        exact h.holder hd hq
    · intro k j q hk hj
      rw [Registry.release_value] at hj
      have hheld := h.mutex (Registry.entries_of_release hk) hj
      refine (getElem?_set_calls hcall).mpr (.inr ⟨?_, hheld⟩)
      rintro rfl
      cases hcall.symm.trans hheld
  · exact h

theorem inv_step (h : s.Inv) (t : Step) : (s.step t).Inv := by
  cases t with
  | lockRunner id => exact inv_lockRunner h id
  | enter i => exact inv_enter h i
  | acquire i => exact inv_acquire h i
  | release i => exact inv_release h i
  | leave i => exact inv_leave h i

theorem inv_run (h : s.Inv) (steps : List Step) : (s.run steps).Inv := by
  induction steps generalizing s with
  | nil => exact h
  | cons t steps ih => exact ih (inv_step h t)

/-- There is an entry for an id exactly if some call is counted in for it. -/
theorem Inv.entries (h : s.Inv) (id : String) :
    (s.table.entries id).isSome ↔ ∃ c ∈ s.calls, c.id = id ∧ c.stage.pointer.isSome := by
  rw [← h.ordered.held, users, List.countP_pos_iff]
  simp [LockCall.uses]

/-! ### Locks by id -/

/-- A call is in its critical section. -/
def Inside (s : RunnerLocks) (i : ℕ) (id : String) : Prop :=
  ∃ p, s.calls[i]? = some ⟨id, .holding p⟩

/-- The call that has the lock of an id. -/
def holderOf (s : RunnerLocks) (id : String) : Option ℕ :=
  (s.table.entries id).bind fun p => (s.table.cells p).value

theorem Inv.holderOf_eq_some (h : s.Inv) : s.holderOf id = some i ↔ s.Inside i id := by
  constructor
  · intro hi
    obtain ⟨p, hp, hvalue⟩ := Option.bind_eq_some_iff.mp hi
    exact ⟨p, h.mutex hp hvalue⟩
  · rintro ⟨p, hp⟩
    exact Option.bind_eq_some_iff.mpr ⟨p, h.entry hp rfl, h.holder hp rfl⟩

/-- Two calls with one id are not both in their critical sections. -/
theorem Inv.exclusive (h : s.Inv) {j : ℕ} (hi : s.Inside i id) (hj : s.Inside j id) : i = j :=
  Option.some.inj ((h.holderOf_eq_some.mpr hi).symm.trans (h.holderOf_eq_some.mpr hj))

theorem inside_set {stage stage' : LockStage} (hcall : s.calls[i]? = some ⟨id, stage⟩)
    {table : Registry String (Option ℕ)} {j : ℕ} {k : String} :
    Inside ⟨table, s.calls.set i ⟨id, stage'⟩⟩ j k ↔
      (j = i ∧ k = id ∧ ∃ p, stage' = .holding p) ∨ (j ≠ i ∧ s.Inside j k) := by
  simp only [Inside, getElem?_set_calls hcall, LockCall.mk.injEq]
  constructor
  · rintro ⟨p, ⟨hj, hk, hp⟩ | hold⟩
    · exact .inl ⟨hj, hk, p, hp.symm⟩
    · exact .inr ⟨hold.1, p, hold.2⟩
  · rintro (⟨hj, hk, p, hp⟩ | ⟨hj, p, hold⟩)
    · exact ⟨p, .inl ⟨hj, hk, hp.symm⟩⟩
    · exact ⟨p, .inr ⟨hj, hold⟩⟩

theorem inside_set_of_ne {stage stage' : LockStage} (hcall : s.calls[i]? = some ⟨id, stage⟩)
    {table : Registry String (Option ℕ)} {j : ℕ} {k : String} (hk : k ≠ id) :
    Inside ⟨table, s.calls.set i ⟨id, stage'⟩⟩ j k ↔ s.Inside j k := by
  rw [inside_set hcall]
  constructor
  · rintro (⟨-, hkid, -⟩ | ⟨-, hold⟩)
    · exact absurd hkid hk
    · exact hold
  · rintro ⟨p, hp⟩
    refine .inr ⟨?_, p, hp⟩
    rintro rfl
    cases hcall.symm.trans hp
    exact hk rfl

theorem Inv.holderOf_congr {s' : RunnerLocks} (h : s.Inv) (h' : s'.Inv) {id id' : String}
    (hsame : ∀ j, s'.Inside j id' ↔ s.Inside j id) : s'.holderOf id' = s.holderOf id := by
  refine Option.ext fun j => ?_
  rw [h'.holderOf_eq_some, h.holderOf_eq_some]
  exact hsame j

theorem Inv.holderOf_set (h : s.Inv) {stage stage' : LockStage}
    {table : Registry String (Option ℕ)} (h' : Inv ⟨table, s.calls.set i ⟨id, stage'⟩⟩)
    (hcall : s.calls[i]? = some ⟨id, stage⟩) (hstage : ∀ p, stage ≠ .holding p)
    (hstage' : ∀ p, stage' ≠ .holding p) :
    holderOf ⟨table, s.calls.set i ⟨id, stage'⟩⟩ = s.holderOf := by
  funext k
  refine h.holderOf_congr h' fun j => ?_
  rw [inside_set hcall]
  constructor
  · rintro (⟨-, -, p, hp⟩ | ⟨-, hold⟩)
    · exact absurd hp (hstage' p)
    · exact hold
  · intro hold
    refine .inr ⟨?_, hold⟩
    rintro rfl
    obtain ⟨p, hp⟩ := hold
    cases hcall.symm.trans hp
    exact hstage p rfl

/-- Seen from outside, a step takes a free lock, gives back a lock that it holds, or changes
nothing: the table is one lock for each id. -/
theorem Inv.holderOf_step (h : s.Inv) (t : Step) :
    (s.step t).holderOf = s.holderOf ∨
    (∃ i id, t = .acquire i ∧ s.holderOf id = none ∧
      (s.step t).holderOf = Function.update s.holderOf id (some i)) ∨
    ∃ i id, t = .release i ∧ s.holderOf id = some i ∧
      (s.step t).holderOf = Function.update s.holderOf id none := by
  have h' := inv_step h t
  cases t with
  | lockRunner id =>
    left
    funext k
    refine h.holderOf_congr h' fun j => ?_
    simp only [Inside, step, List.getElem?_append]
    split
    · rfl
    · rename_i hj
      rw [List.getElem?_eq_none (Nat.le_of_not_lt hj), List.getElem?_singleton]
      split <;> simp
  | enter i =>
    simp only [step, enter] at h' ⊢
    split at h'
    · rename_i hcall
      exact .inl (h.holderOf_set h' hcall (fun _ => nofun) fun _ => nofun)
    · exact .inl rfl
  | acquire i =>
    simp only [step, acquire] at h' ⊢
    split at h'
    · rename_i id p hcall
      split at h'
      · rename_i hfree
        have hnone : s.holderOf id = none := by
          rw [holderOf, h.entry hcall rfl]
          exact hfree
        refine .inr (.inl ⟨i, id, rfl, hnone, ?_⟩)
        rw [if_pos hfree]
        funext k
        by_cases hk : k = id
        · subst hk
          rw [Function.update_self, h'.holderOf_eq_some]
          exact (inside_set hcall).mpr (.inl ⟨rfl, rfl, p, rfl⟩)
        · rw [Function.update_of_ne hk]
          exact h.holderOf_congr h' fun j => inside_set_of_ne hcall hk
      · rename_i hheld
        left
        rw [if_neg hheld]
    · exact .inl rfl
  | release i =>
    simp only [step, release] at h' ⊢
    split at h'
    · rename_i id p hcall
      refine .inr (.inr ⟨i, id, rfl, h.holderOf_eq_some.mpr ⟨p, hcall⟩, ?_⟩)
      funext k
      by_cases hk : k = id
      · subst hk
        rw [Function.update_self, Option.eq_none_iff_forall_ne_some]
        intro j hj
        rw [h'.holderOf_eq_some, inside_set hcall] at hj
        obtain ⟨-, -, q, hq⟩ | ⟨hne, hold⟩ := hj
        · cases hq
        · exact hne (h.exclusive hold ⟨p, hcall⟩)
      · rw [Function.update_of_ne hk]
        exact h.holderOf_congr h' fun j => inside_set_of_ne hcall hk
    · exact .inl rfl
  | leave i =>
    simp only [step, leave] at h' ⊢
    split at h'
    · rename_i hcall
      exact .inl (h.holderOf_set h' hcall (fun _ => nofun) fun _ => nofun)
    · exact .inl rfl

/-- After any run the table is one lock for each id: a step takes the lock of an id that is free,
gives back the lock that its call has, or changes no lock, and a call is in its critical
section exactly while it has the lock. -/
theorem lock_table_refines_locks (steps : List Step) (t : Step) :
    (∀ i id, (run {} steps).holderOf id = some i ↔ (run {} steps).Inside i id) ∧
    ((run {} (steps ++ [t])).holderOf = (run {} steps).holderOf ∨
      (∃ i id, t = .acquire i ∧ (run {} steps).holderOf id = none ∧
        (run {} (steps ++ [t])).holderOf =
          Function.update (run {} steps).holderOf id (some i)) ∨
      ∃ i id, t = .release i ∧ (run {} steps).holderOf id = some i ∧
        (run {} (steps ++ [t])).holderOf = Function.update (run {} steps).holderOf id none) := by
  have h : (run {} steps).Inv := inv_run inv_initial steps
  have hnext : run {} (steps ++ [t]) = (run {} steps).step t := List.foldl_concat ..
  rw [hnext]
  exact ⟨fun i id => h.holderOf_eq_some, h.holderOf_step t⟩

/-! ### Locks by row -/

/-- A new call does not spell an id in another way than the calls that have not released yet. -/
def spelled (s : RunnerLocks) : Step → Bool
  | .lockRunner id => s.calls.all fun c =>
    !(c.stage.unreleased && sanitizeID c.id == sanitizeID id) || c.id == id
  | _ => true

/-- Every call of a run spells its id as the others do. -/
def spelledAll (s : RunnerLocks) : List Step → Bool
  | [] => true
  | t :: steps => s.spelled t && (s.step t).spelledAll steps

/-- The calls that have not released spell the id of a row in one way. -/
def OneSpelling (s : RunnerLocks) : Prop :=
  ∀ c ∈ s.calls, ∀ d ∈ s.calls, c.stage.unreleased = true → d.stage.unreleased = true →
    sanitizeID c.id = sanitizeID d.id → c.id = d.id

theorem mem_calls_step {t : Step} (ht : ∀ id, t ≠ .lockRunner id) {d : LockCall}
    (hd : d ∈ (s.step t).calls) :
    ∃ c ∈ s.calls, c.id = d.id ∧ (d.stage.unreleased = true → c.stage.unreleased = true) := by
  have hset : ∀ {i : ℕ} {id : String} {stage stage' : LockStage},
      s.calls[i]? = some ⟨id, stage⟩ → d ∈ s.calls.set i ⟨id, stage'⟩ →
      (stage'.unreleased = true → stage.unreleased = true) →
      ∃ c ∈ s.calls, c.id = d.id ∧ (d.stage.unreleased = true → c.stage.unreleased = true) := by
    intro i id stage stage' hcall hd hstage
    obtain hd | rfl := List.mem_or_eq_of_mem_set hd
    · exact ⟨d, hd, rfl, fun hu => hu⟩
    · exact ⟨_, List.mem_of_getElem? hcall, rfl, hstage⟩
  have hsame : d ∈ s.calls →
      ∃ c ∈ s.calls, c.id = d.id ∧ (d.stage.unreleased = true → c.stage.unreleased = true) :=
    fun hd => ⟨d, hd, rfl, fun hu => hu⟩
  cases t with
  | lockRunner id => exact absurd rfl (ht id)
  | enter i =>
    simp only [step, enter] at hd
    split at hd
    · exact hset ‹_› hd fun _ => rfl
    · exact hsame hd
  | acquire i =>
    simp only [step, acquire] at hd
    split at hd
    · split at hd
      · exact hset ‹_› hd fun _ => rfl
      · exact hsame hd
    · exact hsame hd
  | release i =>
    simp only [step, release] at hd
    split at hd
    · exact hset ‹_› hd fun _ => rfl
    · exact hsame hd
  | leave i =>
    simp only [step, leave] at hd
    split at hd
    · exact hset ‹_› hd nofun
    · exact hsame hd

theorem OneSpelling.step (h : s.OneSpelling) {t : Step} (ht : s.spelled t = true) :
    (s.step t).OneSpelling := by
  by_cases hnew : ∃ id, t = .lockRunner id
  · obtain ⟨id, rfl⟩ := hnew
    have hothers : ∀ c ∈ s.calls, c.stage.unreleased = true →
        sanitizeID c.id = sanitizeID id → c.id = id := by
      intro c hc hu hid
      have := List.all_eq_true.mp ht c hc
      simpa [hu, hid] using this
    intro c hc d hd huc hud hid
    obtain hc | hc := List.mem_append.mp hc <;> obtain hd | hd := List.mem_append.mp hd
    · exact h c hc d hd huc hud hid
    · cases List.mem_singleton.mp hd
      exact hothers c hc huc hid
    · cases List.mem_singleton.mp hc
      exact (hothers d hd hud hid.symm).symm
    · rw [List.mem_singleton.mp hc, List.mem_singleton.mp hd]
  · intro c hc d hd huc hud hid
    obtain ⟨c₀, hc₀, hcid, hcu⟩ := mem_calls_step (fun id he => hnew ⟨id, he⟩) hc
    obtain ⟨d₀, hd₀, hdid, hdu⟩ := mem_calls_step (fun id he => hnew ⟨id, he⟩) hd
    rw [← hcid, ← hdid] at hid ⊢
    exact h c₀ hc₀ d₀ hd₀ (hcu huc) (hdu hud) hid

theorem OneSpelling.run (h : s.OneSpelling) {steps : List Step}
    (hsteps : s.spelledAll steps = true) : (s.run steps).OneSpelling := by
  induction steps generalizing s with
  | nil => exact h
  | cons t steps ih =>
    obtain ⟨ht, hsteps⟩ := Bool.and_eq_true_iff.mp hsteps
    exact ih (h.step ht) hsteps

/-- Whatever calls are made and whenever they go on: there is an entry for an id exactly while some
call holds its lock, waits for it or has not finished releasing it; two calls with the same id are
not both in their critical sections; and if no call spells an id in another way than the calls
that have not released, then neither are two calls with ids of the same row. -/
theorem critical_sections_exclusive (steps : List Step) :
    (∀ id, ((run {} steps).table.entries id).isSome ↔
      ∃ c ∈ (run {} steps).calls, c.id = id ∧ c.stage.pointer.isSome) ∧
    (∀ i j id, (run {} steps).Inside i id → (run {} steps).Inside j id → i = j) ∧
    (spelledAll {} steps = true → ∀ i j id id' (requests : Requests) (row : RunnerState),
      (run {} steps).Inside i id → (run {} steps).Inside j id' →
      requests.readState id = some row → requests.readState id' = some row → i = j) := by
  have hinv : (run {} steps).Inv := inv_run inv_initial steps
  refine ⟨hinv.entries, fun i j id hi hj => hinv.exclusive hi hj, ?_⟩
  intro hspelled i j id id' requests row hi hj hrow hrow'
  have hone : (run {} steps).OneSpelling := OneSpelling.run (fun _ h => by cases h) hspelled
  have hsame : sanitizeID id = sanitizeID id' :=
    (Tables.Table.key_of_find hrow).symm.trans (Tables.Table.key_of_find hrow')
  obtain ⟨p, hp⟩ := hi
  obtain ⟨q, hq⟩ := hj
  obtain rfl : id = id' :=
    hone _ (List.mem_of_getElem? hp) _ (List.mem_of_getElem? hq) rfl rfl hsame
  exact hinv.exclusive ⟨p, hp⟩ ⟨q, hq⟩

/-- Two calls for one request, one after the other; the first one releases its lock twice. -/
def twoCalls : List Step :=
  [.lockRunner "7", .enter 0, .acquire 0, .lockRunner "7", .enter 1, .acquire 1, .release 0,
    .release 0, .acquire 1, .leave 0]

theorem critical_sections_exclusive_two :
    spelledAll {} twoCalls = true ∧ (run {} twoCalls).Inside 1 "7" ∧
    ∀ (requests : Requests) (row : RunnerState) (i : ℕ), requests.readState "7" = some row →
      (run {} twoCalls).Inside i "7" → i = 1 := by
  have hspelled : spelledAll {} twoCalls = true := by decide +kernel
  have hinside : (run {} twoCalls).Inside 1 "7" := ⟨0, by decide⟩
  refine ⟨hspelled, hinside, fun requests row i hrow hi => ?_⟩
  exact (critical_sections_exclusive twoCalls).2.2 hspelled i 1 "7" "7" requests row hi hinside
    hrow hrow

/-- Two calls with different spellings of one id are both in their critical sections. -/
theorem critical_sections_overlap :
    ∃ (steps : List Step) (requests : Requests) (row : RunnerState),
      (run {} steps).Inside 0 "7" ∧ (run {} steps).Inside 1 " 7" ∧
      requests.readState "7" = some row ∧ requests.readState " 7" = some row := by
  refine ⟨[.lockRunner "7", .enter 0, .acquire 0, .lockRunner " 7", .enter 1, .acquire 1],
    Tables.Table.empty.insert { id := "7" }, { id := "7" }, ⟨0, by decide⟩, ⟨1, by decide⟩, ?_, ?_⟩
  all_goals decide +kernel

end RunnerLocks

end CiRunner.Lifecycle
