import CiRunner.State.Leases

/-! One retry by hand among the statements of other writers. The retry reads the row, updates it at
the version that it has read and reads it again, in one transaction. Nobody looks at how many rows
the update has changed. -/

namespace CiRunner.State.Retry

open Contention

inductive RetryError where
  | notFound | retryNotAllowed | database
  deriving DecidableEq, Repr

/-- Statements of other writers, each with the time at which it runs. -/
abbrev Others := List (Call × Choice)

def Others.run (others : Others) (s : Store) : Store :=
  others.foldl (fun s o => match serve 0 o.1 o.2 s with
    | none => s
    | some (_, s') => s') s

/-- No statement deletes a row. -/
theorem isSome_find_serve {s s' : Store} {i : Nat} {c : Call} {x : Choice} {a : Reply c}
    {id : String} (h : serve i c x s = some (a, s')) (hf : (s.rows.find id).isSome) :
    (s'.rows.find id).isSome := by
  have hput (r : RunnerState) : ((s.rows.put r).find id).isSome := by
    rw [Tables.Table.find_put]
    split
    · simpa using hf
    · exact hf
  cases statement_of_serve h with
  | idle hs => exact hs ▸ hf
  | write _ _ hs => exact hs ▸ hput _
  | claim _ _ _ hs => exact hs ▸ hput _
  | release _ _ hs => exact hs ▸ hput _
  | retry _ _ hs => exact hs ▸ hput _
  | @create row x hs =>
    obtain ⟨r, hr⟩ := Option.isSome_iff_exists.mp hf
    rw [hs]
    exact Option.isSome_iff_exists.mpr ⟨r, Requests.find_createRequest_of_find hr row⟩

theorem Others.isSome_find_run {id : String} (others : Others) {s : Store}
    (hf : (s.rows.find id).isSome) : ((others.run s).rows.find id).isSome := by
  induction others generalizing s with
  | nil => exact hf
  | cons o others ih =>
    refine ih ?_
    dsimp only
    split
    · exact hf
    · rename_i h
      exact isSome_find_serve h hf

/-- What goes on around a retry: which of its statements fail, and what is done between them. -/
structure Around where
  readFails : Bool := false
  beforeUpdate : Others := []
  updateFails : Bool := false
  beforeSaved : Others := []
  savedFails : Bool := false

/-- The store that the others leave on their own. -/
def Around.alone (around : Around) (s : Store) : Store :=
  Others.run (around.beforeUpdate ++ around.beforeSaved) s

def Around.updated (around : Around) (record : RunnerState) (now : Time) (s : Store) : Store :=
  let found := around.beforeUpdate.run s
  found.replace (found.rows.retryUpdate record now)

/-- The state that is returned, and the store when the others are done. A transaction that fails is
rolled back. -/
def retryRequest (id : String) (now : Time) (around : Around) (s : Store) :
    Except RetryError RunnerState × Store :=
  let id := sanitizeID id
  if around.readFails then (.error .database, around.alone s) else
  match s.rows.find id with
  | none => (.error .notFound, around.alone s)
  | some record =>
    if !record.retryAllowed then (.error .retryNotAllowed, around.alone s) else
    if around.updateFails then (.error .database, around.alone s) else
    let last := around.beforeSaved.run (around.updated record now s)
    if around.savedFails then (.error .database, around.alone s) else
    match last.rows.find id with
    | none => (.error .notFound, around.alone s)
    | some saved => (.ok saved, last)

variable {id : String} {now : Time} {around : Around} {s : Store}

theorem retryRequest_cases (id : String) (now : Time) (around : Around) (s : Store) :
    (∃ e, retryRequest id now around s = (.error e, around.alone s)) ∨
    ∃ record saved, s.rows.find (sanitizeID id) = some record ∧ record.retryAllowed = true ∧
      (around.beforeSaved.run (around.updated record now s)).rows.find (sanitizeID id) =
        some saved ∧
      retryRequest id now around s =
        (.ok saved, around.beforeSaved.run (around.updated record now s)) := by
  unfold retryRequest
  dsimp only
  split
  · exact .inl ⟨_, rfl⟩
  · split
    · exact .inl ⟨_, rfl⟩
    · rename_i record hrecord
      split
      · exact .inl ⟨_, rfl⟩
      · rename_i hallowed
        split
        · exact .inl ⟨_, rfl⟩
        · split
          · exact .inl ⟨_, rfl⟩
          · split
            · exact .inl ⟨_, rfl⟩
            · rename_i saved hsaved
              exact .inr ⟨record, saved, hrecord, by simpa using hallowed, hsaved, rfl⟩

/-! ### What a retry reports -/

/-- A state that has nothing of an earlier attempt. -/
structure Requeued (st : RunnerState) : Prop where
  status : st.status = .queued
  sandbox : st.sandboxID = "" ∧ st.processPID = 0
  error : st.error = "" ∧ st.failureStage = none ∧ st.failureReason = "" ∧
    st.lastErrorCode = "" ∧ st.lastErrorMessage = "" ∧ st.lastErrorRetryable = false
  lease : st.leaseOwner = "" ∧ st.leaseExpiresAt = 0 ∧ st.nextRetryAt = 0
  assignment : st.assignedJobID = 0 ∧ st.assignedJobName = ""
  termination : st.terminationSource = none ∧ st.runnerExitCode = none
  snapshots : st.environment = {} ∧ st.service = {}
  timestamps : st.creatingAt = 0 ∧ st.runningAt = 0 ∧ st.stoppingAt = 0 ∧ st.completedAt = 0 ∧
    st.failedAt = 0

theorem requeued_retried (r : RunnerState) (version : Nat) (now : Time) :
    Requeued (r.retried version now) := by
  constructor <;> simp [RunnerState.retried]

/-- The update finds the version that was read, and the row is not changed again before it is
read back. -/
structure Unraced (id : String) (now : Time) (around : Around) (s : Store) : Prop where
  version : ∀ record ∈ s.rows.find (sanitizeID id),
    ∀ r ∈ (around.beforeUpdate.run s).rows.find (sanitizeID id), r.version = record.version
  saved : ∀ record ∈ s.rows.find (sanitizeID id),
    (around.beforeSaved.run (around.updated record now s)).rows.find (sanitizeID id) =
      (around.updated record now s).rows.find (sanitizeID id)

/-- The update has changed the row that it found, and this is what is returned. -/
def TookEffect (id : String) (now : Time) (around : Around) (s : Store) (st : RunnerState) : Prop :=
  ∃ r record, (around.beforeUpdate.run s).rows.find (sanitizeID id) = some r ∧
    s.rows.find (sanitizeID id) = some record ∧ st = r.retried r.version now ∧
    (around.updated record now s).rows.find (sanitizeID id) = some st

/-- An update that finds the version that was read takes effect. -/
theorem find_updated {record : RunnerState} (hrecord : s.rows.find (sanitizeID id) = some record)
    (hv : ∀ r ∈ (around.beforeUpdate.run s).rows.find (sanitizeID id),
      r.version = record.version) :
    ∃ r, (around.beforeUpdate.run s).rows.find (sanitizeID id) = some r ∧
      (around.updated record now s).rows.find (sanitizeID id) =
        some (r.retried r.version now) := by
  have hkey : record.id = sanitizeID id := Tables.Table.key_of_find hrecord
  have hsome : (s.rows.find (sanitizeID id)).isSome := by simp [hrecord]
  obtain ⟨r, hr⟩ := Option.isSome_iff_exists.mp (around.beforeUpdate.isSome_find_run hsome)
  refine ⟨r, hr, ?_⟩
  have hversion : r.version = record.version := hv r hr
  have hid : r.id = sanitizeID id := Tables.Table.key_of_find hr
  simp only [Around.updated, Store.replace, Requests.retryUpdate, hkey, hr, hversion, if_true]
  rw [← hid] at hr ⊢
  exact Tables.Table.find_put_self (v := r.retried record.version now) hr

/-- A retry that fails has changed nothing. Where it is not raced, one that succeeds returns what its
own update has left: a queued state with nothing of an earlier attempt. -/
theorem retry_reports (id : String) (now : Time) (around : Around) (s : Store) :
    (∀ e, (retryRequest id now around s).1 = .error e →
      (retryRequest id now around s).2 = around.alone s) ∧
    (Unraced id now around s → ∀ st, (retryRequest id now around s).1 = .ok st →
      Requeued st ∧ TookEffect id now around s st ∧
      (retryRequest id now around s).2.rows.find (sanitizeID id) = some st) := by
  rcases retryRequest_cases id now around s with
    ⟨e, he⟩ | ⟨record, saved, hrecord, -, hsaved, he⟩
  · rw [he]
    refine ⟨fun _ _ => rfl, fun _ st h => ?_⟩
    cases h
  · rw [he]
    refine ⟨fun e h => ?_, fun hu st h => ?_⟩
    · cases h
    · have hst : saved = st := Except.ok.inj h
      subst hst
      obtain ⟨r, hr, hupdated⟩ := find_updated hrecord (hu.version record hrecord)
      have hst : saved = r.retried r.version now := by
        rw [hu.saved record hrecord, hupdated] at hsaved
        exact (Option.some.inj hsaved).symm
      exact ⟨hst ▸ requeued_retried .., ⟨r, record, hr, hrecord, hst, hst ▸ hupdated⟩, hsaved⟩

def failedRequest : Store :=
  ⟨Tables.Table.empty.insert { id := "1", status := .failed, failureStage := some .recovery },
    fun _ => 0⟩

/-- A retry while another worker looks for something to do. -/
theorem retry_reports_alone :
    Unraced "1" 10 { beforeUpdate := [(.claimCandidate 5, some 5)] } failedRequest ∧
    ∃ st, (retryRequest "1" 10 { beforeUpdate := [(.claimCandidate 5, some 5)] }
      failedRequest).1 = .ok st ∧ Requeued st := by
  have hu : Unraced "1" 10 { beforeUpdate := [(.claimCandidate 5, some 5)] } failedRequest := by
    constructor <;> decide +kernel
  rcases h : (retryRequest "1" 10 { beforeUpdate := [(.claimCandidate 5, some 5)] }
    failedRequest).1 with e | st
  · have hok : (retryRequest "1" 10 { beforeUpdate := [(.claimCandidate 5, some 5)] }
        failedRequest).1.isOk = true := by decide +kernel
    rw [h] at hok
    cases hok
  · exact ⟨hu, st, rfl, ((retry_reports "1" 10 _ failedRequest).2 hu st h).1⟩

/-- The failed request is marked completed between the read and the update of a retry: the retry
changes nothing, and it returns the completed state as its own success. -/
theorem retry_returns_another_state :
    ∃ around st, (retryRequest "1" 10 around failedRequest).1 = .ok st ∧ st.status = .completed ∧
      (retryRequest "1" 10 around failedRequest).2.rows.rows =
        (around.alone failedRequest).rows.rows := by
  let completed : RunnerState := { id := "1", status := .completed }
  let around : Around :=
    { beforeUpdate := [(.writeState ⟨completed, 0⟩ completed, some 8)] }
  rcases h : (retryRequest "1" 10 around failedRequest).1 with e | st
  · have hok : (retryRequest "1" 10 around failedRequest).1.isOk = true := by decide +kernel
    rw [h] at hok
    cases hok
  · refine ⟨around, st, h, ?_, by decide +kernel⟩
    have hst : (retryRequest "1" 10 around failedRequest).1.toOption.map (·.status) =
        some .completed := by decide +kernel
    rw [h] at hst
    exact Option.some.inj hst

end CiRunner.State.Retry
