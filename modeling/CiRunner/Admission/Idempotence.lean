import CiRunner.Admission.Deliveries

/-! Deliveries are idempotent. A job has at most one request; a delivery that succeeds is
answered with the request of its job; and once there is one, a delivery does nothing to
it but end a wait. This needs that no other request has the id of the job, as one that
an administrator has created may; and that no claim overtakes its candidate, because
the state that a delivery writes back could then undo the claim. -/

namespace CiRunner.Admission

open Threads Tables CiRunner.State
open CiRunner.State.Contention (Edit noteError)

variable {t t' : Requests} {i : Nat} {k : String} {r r' : RunnerState}

/-! ### Rows -/

/-- The texts of a row are as the store leaves them. -/
structure Tidy (r : RunnerState) : Prop where
  runnerName : sanitizeRunnerName r.runnerName = r.runnerName
  service : r.service.trim = r.service
  environment : r.environment.trim = r.environment
  jobResult : r.jobResult.trim = r.jobResult

theorem Tidy.congr (h : Tidy r) (hname : r'.runnerName = r.runnerName)
    (hservice : r'.service = r.service) (henv : r'.environment = r.environment)
    (hresult : r'.jobResult = r.jobResult) : Tidy r' where
  runnerName := by rw [hname, h.runnerName]
  service := by rw [hservice, h.service]
  environment := by rw [henv, h.environment]
  jobResult := by rw [hresult, h.jobResult]

theorem tidy_written (st current : RunnerState) (now : Time) : Tidy (st.written current now) where
  runnerName := sanitizeRunnerName_sanitizeRunnerName _
  service := by simp [RunnerState.written, ServiceSnapshot.trim, Text.trimSpace_trimSpace]
  environment := by simp [RunnerState.written, Environment.trim, Text.trimSpace_trimSpace]
  jobResult := by simp [RunnerState.written, JobResult.trim, Text.trimSpace_trimSpace]

theorem trim_empty : ({} : ServiceSnapshot).trim = {} ∧ ({} : Environment).trim = {} ∧
    ({} : JobResult).trim = {} := by
  decide

theorem tidy_row (req : NewRequest) (now : Time) : Tidy (req.row now) where
  runnerName := by
    simp only [NewRequest.row]
    split
    · exact sanitizeRunnerName_default req.id
    · exact sanitizeRunnerName_sanitizeRunnerName _
  service := trim_empty.1
  environment := trim_empty.2.1
  jobResult := trim_empty.2.2

theorem tidy_retried (h : Tidy r) (version : Nat) (now : Time) : Tidy (r.retried version now) where
  runnerName := h.runnerName
  service := trim_empty.1
  environment := trim_empty.2.1
  jobResult := h.jobResult

/-- A row is as the store leaves it, and under the id of its job if it has one. -/
structure Stored (r : RunnerState) : Prop where
  tidy : Tidy r
  id_eq : r.workflowJobID ≠ 0 → r.id = toString r.workflowJobID

/-- The wait of a row ends. -/
def woken (r : RunnerState) (now : Time) : RunnerState :=
  { r with nextRetryAt := 0, updatedAt := now, version := r.version + 1 }

theorem written_eq_woken (h : Tidy r) (hqueued : r.status = .queued) (now : Time) :
    ({ r with nextRetryAt := 0 } : RunnerState).written r now = woken r now := by
  simp only [RunnerState.written, RunnerState.applyStateTimestamps, hqueued, h.runnerName,
    h.service, h.environment, h.jobResult, woken]

/-! ### Steps -/

/-- What becomes of a row in one step: it gets a later version, or its lease is released. -/
def Succeeds (r r' : RunnerState) : Prop :=
  r'.workflowJobID = r.workflowJobID ∧
    (r.version < r'.version ∨ r' = r ∨ r.leaseOwner ≠ "" ∧ r' = r.clearLease)

theorem Succeeds.refl (r : RunnerState) : Succeeds r r := ⟨rfl, .inr (.inl rfl)⟩

theorem Succeeds.trans {r'' : RunnerState} (h : Succeeds r r') (h' : Succeeds r' r'') :
    Succeeds r r'' := by
  obtain ⟨hjob, hlt | rfl | ⟨hleased, rfl⟩⟩ := h
  · obtain ⟨hjob', h'⟩ := h'
    refine ⟨hjob'.trans hjob, .inl ?_⟩
    obtain hlt' | rfl | ⟨-, rfl⟩ := h'
    · exact Nat.lt_trans hlt hlt'
    · exact hlt
    · exact hlt
  · exact h'
  · obtain ⟨hjob', hlt' | rfl | ⟨hleased', -⟩⟩ := h'
    · exact ⟨hjob', .inl hlt'⟩
    · exact ⟨rfl, .inr (.inr ⟨hleased, rfl⟩)⟩
    · exact absurd rfl hleased'

/-- No row is lost, and every row moves on. -/
def Moves (t t' : Requests) : Prop :=
  ∀ k r, t.find k = some r → ∃ r', t'.find k = some r' ∧ Succeeds r r'

/-- The row was there once. -/
def Copy (t : Requests) (r : RunnerState) : Prop := ∃ c, t.find r.id = some c ∧ Succeeds r c

theorem Moves.refl (t : Requests) : Moves t t := fun _ r h => ⟨r, h, .refl r⟩

theorem Copy.move (h : Copy t r) (hm : Moves t t') : Copy t' r := by
  obtain ⟨c, hc, hs⟩ := h
  obtain ⟨c', hc', hs'⟩ := hm r.id c hc
  exact ⟨c', hc', hs.trans hs'⟩

theorem moves_put (hf : t.find r'.id = some r) (h : Succeeds r r') : Moves t (t.put r') := by
  intro k u hu
  by_cases hk : r'.id = k
  · subst hk
    rw [hf] at hu
    cases hu
    exact ⟨r', Table.find_put_self hf, h⟩
  · exact ⟨u, (Table.find_put_of_ne hk).trans hu, .refl u⟩

theorem moves_createRequest (t : Requests) (r : RunnerState) : Moves t (t.createRequest r) :=
  fun _ u hu => ⟨u, Requests.find_createRequest_of_find hu r, .refl u⟩

/-! ### Invariants -/

structure Inv (t : Requests) : Prop where
  /-- A job has at most one row. -/
  unique : ∀ r ∈ t.rows, ∀ r' ∈ t.rows, r.workflowJobID = r'.workflowJobID →
    r.workflowJobID ≠ 0 → r = r'
  row : ∀ r ∈ t.rows, Stored r

/-- A row is replaced by one for the same job. -/
theorem Inv.put (h : Inv t) (hf : t.find r'.id = some r) (hjob : r'.workflowJobID = r.workflowJobID)
    (htidy : Tidy r → Tidy r') : Inv (t.put r') := by
  have hmem : ∀ u ∈ (t.put r').rows, u = r' ∨ u ∈ t.rows ∧ u.id ≠ r'.id := by
    intro u hu
    obtain ⟨-, rfl, -⟩ | ⟨hne, hu⟩ := Table.find_put_cases (Table.find_of_mem hu)
    · exact .inl rfl
    · exact .inr ⟨Table.mem_of_find hu, hne⟩
  -- No other row is for the job of the row that is replaced.
  have hother : ∀ u ∈ t.rows, u.id ≠ r'.id → u.workflowJobID ≠ 0 →
      u.workflowJobID ≠ r'.workflowJobID := by
    intro u hu hne hzero heq
    have hsame := h.unique u hu r (Table.mem_of_find hf) (heq.trans hjob) hzero
    exact hne (hsame ▸ Table.key_of_find hf)
  refine ⟨fun u hu v hv heq hzero => ?_, fun u hu => ?_⟩
  · rcases hmem u hu with hur | ⟨hut, hune⟩ <;> rcases hmem v hv with hvr | ⟨hvt, hvne⟩
    · rw [hur, hvr]
    · exact absurd (heq.symm.trans (hur ▸ rfl)) (hother v hvt hvne (heq ▸ hzero))
    · exact absurd (heq.trans (hvr ▸ rfl)) (hother u hut hune hzero)
    · exact h.unique u hut v hvt heq hzero
  · rcases hmem u hu with hur | ⟨hut, -⟩
    · have hr := h.row r (Table.mem_of_find hf)
      rw [hur]
      exact ⟨htidy hr.tidy, fun hzero => by
        rw [hjob] at hzero ⊢
        exact (Table.key_of_find hf).symm.trans (hr.id_eq hzero)⟩
    · exact h.row u hut

theorem Inv.replace (h : Inv t) (r' : RunnerState) (hf : t.find r'.id = some r)
    (htidy : Tidy r → Tidy r') (hs : Succeeds r r') : Inv (t.put r') ∧ Moves t (t.put r') :=
  ⟨h.put hf hs.1 htidy, moves_put hf hs⟩

theorem Inv.createRequest (h : Inv t) (hrow : Stored r) : Inv (t.createRequest r) := by
  unfold Requests.createRequest
  split
  · exact h
  · split
    · exact h
    · rename_i hjob
      have hmem : ∀ u ∈ (t.insert r).rows, u = r ∨ u ∈ t.rows := by
        intro u hu
        obtain ⟨-, rfl, -⟩ | hu := Table.find_insert_cases (Table.find_of_mem hu)
        · exact .inl rfl
        · exact .inr (Table.mem_of_find hu)
      have hother : ∀ u ∈ t.rows, r.workflowJobID ≠ 0 → u.workflowJobID ≠ r.workflowJobID :=
        fun u hu hzero heq =>
          hjob ⟨hzero, List.any_eq_true.mpr ⟨u, hu, decide_eq_true heq⟩⟩
      refine ⟨fun u hu v hv heq hzero => ?_, fun u hu => ?_⟩
      · rcases hmem u hu with rfl | hut <;> rcases hmem v hv with rfl | hvt
        · rfl
        · exact absurd heq.symm (hother v hvt hzero)
        · exact absurd heq (hother u hut (heq ▸ hzero))
        · exact h.unique u hut v hvt heq hzero
      · rcases hmem u hu with rfl | hut
        · exact hrow
        · exact h.row u hut

/-! ### The proof outline -/

/-- The runs considered: no request without a job has the id of a job that is looked for, and a
claim finds its candidate at the version that it was selected with. -/
def Ordinary : machine.Condition
  | _, .lookup req, _, t => req.jobID ≠ 0 → ∀ r ∈ t.readState req.id, r.workflowJobID ≠ 0
  | _, .claimUpdate candidate _ now _, _, t =>
    ∀ r ∈ t.find candidate.id, r.status = .queued → r.leaseExpiresAt ≤ now →
      r.version = candidate.version
  | _, _, _, _ => True

instance : ∀ i c x t, Decidable (Ordinary i c x t)
  | _, .lookup req, _, t =>
    inferInstanceAs (Decidable (req.jobID ≠ 0 → ∀ r ∈ t.readState req.id, r.workflowJobID ≠ 0))
  | _, .claimUpdate candidate _ now _, _, t =>
    inferInstanceAs (Decidable (∀ r ∈ t.find candidate.id, r.status = .queued →
      r.leaseExpiresAt ≤ now → r.version = candidate.version))
  | _, .now, _, _ => .isTrue trivial
  | _, .insert _, _, _ => .isTrue trivial
  | _, .findJob _, _, _ => .isTrue trivial
  | _, .wake _, _, _ => .isTrue trivial
  | _, .respond _ _, _, _ => .isTrue trivial
  | _, .readState _, _, _ => .isTrue trivial
  | _, .writeState _, _, _ => .isTrue trivial
  | _, .claimCandidate _, _, _ => .isTrue trivial
  | _, .releaseLease _ _, _, _ => .isTrue trivial
  | _, .retryUpdate _ _, _, _ => .isTrue trivial

/-- The rows that a caller has read or inserted. -/
abbrev Know := List RunnerState

def Answers (κ : Know) (req : NewRequest) (st : RunnerState) : Prop :=
  req.jobID ≠ 0 → st.workflowJobID = req.jobID ∧
    ∃ r ∈ κ, r.id = st.id ∧ r.workflowJobID = req.jobID

/-- A request for a job has the id of the job. -/
def Named (req : NewRequest) : Prop := req.jobID ≠ 0 → req.id = toString req.jobID

def May (κ : Know) : Call → Prop
  | .lookup req => Named req
  | .insert row => Stored row
  | .wake st =>
    ∃ r ∈ κ, sanitizeID r.id = r.id ∧ waiting r = true ∧ st = { r with nextRetryAt := 0 }
  | .respond req result => ∀ st created, result = .ok (st, created) → Answers κ req st
  | .releaseLease _ workerID => Text.trimSpace workerID ≠ ""
  | _ => True

def Tells : (c : Call) → Reply c → Prop
  | .lookup req, reply => ∀ r : RunnerState, reply = .ok r →
    r.id = sanitizeID req.id ∧ (req.jobID ≠ 0 → r.workflowJobID = req.jobID)
  | _, _ => True

def learn (κ : Know) : (c : Call) → Reply c → Know
  | .lookup _, .ok r => r :: κ
  | .insert row, .ok true => row :: κ
  | _, _ => κ

def outline : Outline machine Know where
  ok := Ordinary
  inv := Inv
  holds _ κ t := ∀ r ∈ κ, Copy t r
  effect _ := Moves
  may := May
  tells _ := Tells
  learn := learn

theorem wake_cases {κ : Know} {st : RunnerState} {x : Choice} {a : Except Failure Unit}
    (hinv : Inv t) (hκ : ∀ r ∈ κ, Copy t r) (hmay : May κ (.wake st))
    (h : serve i (.wake st) x t = some (a, t')) :
    t' = t ∨ ∃ r, t.find r.id = some r ∧ r.workflowJobID = st.workflowJobID ∧ waiting r = true ∧
      t' = t.put (woken r x.now) := by
  obtain ⟨r, hmem, hid, hwaiting, rfl⟩ := hmay
  simp only [serve] at h
  split at h
  · cases h
    exact .inl rfl
  · split at h
    · cases h
      exact .inl rfl
    · rename_i rows hrows
      cases h
      obtain ⟨current, hf, hversion, rfl⟩ := Requests.writeState_eq_some hrows
      -- The version is still that of the row that was read, so the row is.
      have hcurrent : current = r := by
        obtain ⟨c, hc, -, hlt | hsame | ⟨hleased, -⟩⟩ := hκ r hmem
        · rw [show sanitizeID r.id = r.id from hid, hc] at hf
          cases hf
          exact absurd hversion (Nat.ne_of_gt hlt)
        · rw [show sanitizeID r.id = r.id from hid, hc] at hf
          exact (Option.some.inj hf).symm.trans hsame
        · simp only [waiting, Bool.and_eq_true, decide_eq_true_eq] at hwaiting
          exact absurd hwaiting.1.1.2 hleased
      subst hcurrent
      have hfind : t.find current.id = some current := by rw [← hid]; exact hf
      refine .inr ⟨current, hfind, rfl, hwaiting, ?_⟩
      rw [written_eq_woken (hinv.row current (Table.mem_of_find hfind)).tidy]
      simp only [waiting, Bool.and_eq_true, decide_eq_true_eq] at hwaiting
      exact hwaiting.1.1.1.1

theorem find_id (h : t.find k = some r) : t.find r.id = some r := by
  rw [Table.key_of_find h]
  exact h

theorem serve_moves {κ : Know} {c : Call} {x : Choice} {a : Reply c} (hinv : Inv t)
    (hκ : ∀ r ∈ κ, Copy t r) (hmay : May κ c) (hok : Ordinary i c x t)
    (h : serve i c x t = some (a, t')) : Inv t' ∧ Moves t t' := by
  cases c with
  | now => cases h; exact ⟨hinv, .refl t⟩
  | lookup req => cases h; exact ⟨hinv, .refl t⟩
  | findJob jobID => cases h; exact ⟨hinv, .refl t⟩
  | respond req result => cases h; exact ⟨hinv, .refl t⟩
  | readState id => cases h; exact ⟨hinv, .refl t⟩
  | claimCandidate now => cases h; exact ⟨hinv, .refl t⟩
  | insert row =>
    simp only [serve] at h
    split at h
    · cases h
      exact ⟨hinv, .refl t⟩
    · cases h
      exact ⟨hinv.createRequest hmay, moves_createRequest t row⟩
  | wake st =>
    obtain rfl | ⟨r, hf, -, -, rfl⟩ := wake_cases (i := i) hinv hκ hmay h
    · exact ⟨hinv, .refl _⟩
    · exact hinv.replace (woken r x.now) hf (·.congr rfl rfl rfl rfl)
        ⟨rfl, .inl (Nat.lt_succ_self _)⟩
  | writeState st =>
    simp only [serve] at h
    split at h
    · cases h
      exact ⟨hinv, .refl t⟩
    · split at h
      · cases h
        exact ⟨hinv, .refl t⟩
      · rename_i rows hrows
        cases h
        obtain ⟨current, hf, hversion, rfl⟩ := Requests.writeState_eq_some hrows
        have hfind : t.find (st.written current x.now).id = some current := find_id hf
        have hlt : current.version < (st.written current x.now).version := by
          rw [RunnerState.version_written, hversion]
          exact Nat.lt_succ_self _
        exact hinv.replace _ hfind (fun _ => tidy_written ..) ⟨rfl, .inl hlt⟩
  | claimUpdate candidate workerID now leaseTTL =>
    simp only [serve] at h
    split at h
    · cases h
      exact ⟨hinv, .refl t⟩
    · split at h
      · cases h
        exact ⟨hinv, .refl t⟩
      · rename_i rows hrows
        cases h
        obtain ⟨r, hf, hqueued, hexpired, rfl⟩ := Requests.claimUpdate_eq_some hrows
        have hversion : r.version = candidate.version := hok r hf hqueued hexpired
        have hfind : t.find r.id = some r := find_id hf
        exact hinv.replace (r.claimed ..) hfind (·.congr rfl rfl rfl rfl)
          ⟨rfl, .inl (hversion ▸ Nat.lt_succ_self candidate.version)⟩
  | releaseLease id workerID =>
    simp only [serve] at h
    split at h
    · cases h
      exact ⟨hinv, .refl t⟩
    · cases h
      obtain he | ⟨r, hf, howner, he⟩ := t.releaseLease_cases id workerID
      · rw [he]
        exact ⟨hinv, .refl t⟩
      · rw [he]
        have hfind : t.find r.id = some r := find_id hf
        exact hinv.replace r.clearLease hfind (·.congr rfl rfl rfl rfl)
          ⟨rfl, .inr (.inr ⟨howner ▸ hmay, rfl⟩)⟩
  | retryUpdate record now =>
    simp only [serve] at h
    split at h
    · cases h
      exact ⟨hinv, .refl t⟩
    · cases h
      obtain he | ⟨r, hf, hversion, he⟩ := t.retryUpdate_cases record now
      · rw [he]
        exact ⟨hinv, .refl t⟩
      · rw [he]
        have hfind : t.find r.id = some r := find_id hf
        exact hinv.replace (r.retried ..) hfind (fun ht => tidy_retried ht ..)
          ⟨rfl, .inl (hversion ▸ Nat.lt_succ_self record.version)⟩

theorem find_of_found {x : Choice} {o : Option RunnerState} (h : found x o = .ok r) :
    o = some r := by
  cases o with
  | none => cases h
  | some u =>
    simp only [found] at h
    split at h
    · cases h
    · cases h
      rfl

theorem eq_of_toString {m n : Nat} (h : toString m = toString n) : m = n := by
  rw [Nat.toString_eq_ofList_toDigits, Nat.toString_eq_ofList_toDigits] at h
  rw [← Nat.ofDigitChars_ten_toDigits (n := m), String.ofList_injective h,
    Nat.ofDigitChars_ten_toDigits]

theorem serve_tells {κ : Know} {c : Call} {x : Choice} {a : Reply c} (hinv : Inv t)
    (hmay : May κ c) (hok : Ordinary i c x t) (h : serve i c x t = some (a, t')) : Tells c a := by
  cases c with
  | lookup req =>
    cases h
    intro r hr
    have hf : t.find (sanitizeID req.id) = some r := find_of_found hr
    have hid : r.id = sanitizeID req.id := Table.key_of_find hf
    refine ⟨hid, fun hzero => ?_⟩
    rw [hmay hzero, sanitizeID_toString] at hid
    rw [(hinv.row r (Table.mem_of_find hf)).id_eq (hok hzero r hf)] at hid
    exact eq_of_toString hid
  | _ => trivial

theorem find_of_insertable (h : insertable t r = true) :
    (t.createRequest r).find r.id = some r := by
  simp only [insertable, Bool.and_eq_true, decide_eq_true_eq, Bool.not_eq_true', 
    Bool.and_eq_false_imp, Option.isNone_iff_eq_none] at h
  obtain ⟨⟨hne, hnone⟩, hjob⟩ := h
  unfold Requests.createRequest
  rw [if_neg hne, if_neg fun hany => by simp [hjob hany.1] at hany, Table.find_insert, hnone]
  simp

theorem copy_learn {κ : Know} {c : Call} {x : Choice} {a : Reply c}
    (hκ : ∀ r ∈ κ, Copy t' r) (h : serve i c x t = some (a, t')) :
    ∀ r ∈ learn κ c a, Copy t' r := by
  cases c with
  | lookup req =>
    cases h
    cases hf : found x (t.readState req.id) with
    | error e => exact hκ
    | ok r =>
      have hfind : t.find r.id = some r := find_id (find_of_found hf)
      exact List.forall_mem_cons.mpr ⟨⟨r, hfind, .refl r⟩, hκ⟩
  | insert row =>
    simp only [serve] at h
    split at h
    · cases h
      exact hκ
    · cases h
      cases hins : insertable t row with
      | false => exact hκ
      | true =>
        exact List.forall_mem_cons.mpr ⟨⟨row, find_of_insertable hins, .refl row⟩, hκ⟩
  | _ => exact hκ

/-! ### The operations follow the outline -/

theorem stored_row {req : NewRequest} (h : Named req) (now : Time) : Stored (req.row now) where
  tidy := tidy_row req now
  id_eq hzero := by
    show sanitizeID req.id = toString req.jobID
    rw [h hzero, sanitizeID_toString]

theorem stored_rejectedRow {req : NewRequest} (h : Named req) (reason : String) (now : Time) :
    Stored (req.rejectedRow reason now) where
  tidy := by
    apply (tidy_row req now).congr <;> simp only [NewRequest.rejectedRow]
  id_eq := by
    simp only [NewRequest.rejectedRow]
    exact (stored_row h now).id_eq

theorem answers_cons {κ : Know} {req : NewRequest} (h : req.jobID ≠ 0 → r.workflowJobID = req.jobID) :
    Answers (r :: κ) req r :=
  fun hzero => ⟨h hzero, r, List.mem_cons_self .., rfl, h hzero⟩

theorem follows_createRequest {κ : Know} {req : NewRequest} {row : Time → RunnerState}
    (hreq : Named req) (hrow : ∀ now, Stored (row now))
    (hjob : ∀ now, (row now).workflowJobID = req.jobID) :
    outline.Follows (fun κ result => ∀ created st, result = .ok (created, st) → Answers κ req st) κ
      (createRequest req row) := by
  unfold createRequest
  split
  · exact Outline.follows_pure fun _ _ h => nomatch h
  · refine Outline.follows_ask_bind trivial fun now _ => ?_
    refine Outline.follows_ask_bind (hrow now) fun reply _ => ?_
    match reply with
    | .error e => exact Outline.follows_pure fun _ _ h => nomatch h
    | .ok true =>
      refine Outline.follows_pure ?_
      rintro created st ⟨⟩
      exact answers_cons fun _ => hjob now
    | .ok false =>
      refine Outline.follows_ask_bind hreq fun reply ht => ?_
      match reply with
      | .ok r =>
        refine Outline.follows_pure ?_
        rintro created st ⟨⟩
        exact answers_cons (ht r rfl).2
      | .error .notFound =>
        dsimp only
        split
        · exact Outline.follows_pure fun _ _ h => nomatch h
        · refine Outline.follows_ask_bind trivial fun reply _ => ?_
          cases reply <;> exact Outline.follows_pure fun _ _ h => nomatch h
      | .error .emptyID => exact Outline.follows_pure fun _ _ h => nomatch h
      | .error .conflict => exact Outline.follows_pure fun _ _ h => nomatch h
      | .error .database => exact Outline.follows_pure fun _ _ h => nomatch h

theorem wakes_iff {req : NewRequest} : wakes req r = true ↔ waiting r = true ∧
    r.workflowJobID = req.jobID ∧ r.repositoryFullName = req.repositoryFullName ∧
    r.gitHubInstallationID = req.gitHubInstallationID ∧ r.nextRetryAt ≠ 0 := by
  simp [wakes, and_assoc]

theorem follows_wakeWaitingWorkflowJob {κ : Know} {req : NewRequest} {fallback : RunnerState}
    (hreq : Named req) (hfallback : Answers κ req fallback) :
    outline.Follows (fun κ result => ∀ st, result = .ok st → Answers κ req st) κ
      (wakeWaitingWorkflowJob req fallback) := by
  unfold wakeWaitingWorkflowJob
  split
  · refine Outline.follows_pure ?_
    rintro st ⟨⟩
    exact hfallback
  · refine Outline.follows_ask_bind hreq fun reply ht => ?_
    match reply with
    | .error e => exact Outline.follows_pure fun _ h => nomatch h
    | .ok r =>
      obtain ⟨hid, hjob⟩ := ht r rfl
      dsimp only
      split
      · rename_i hwakes
        have hwaiting := (wakes_iff.mp hwakes).1
        have hsanitized : sanitizeID r.id = r.id := by rw [hid, sanitizeID_sanitizeID]
        refine Outline.follows_ask_bind
          ⟨r, List.mem_cons_self .., hsanitized, hwaiting, rfl⟩ fun reply _ => ?_
        match reply with
        | .ok _ =>
          refine Outline.follows_pure ?_
          rintro st ⟨⟩
          exact fun hzero => ⟨hjob hzero, r, List.mem_cons_self .., rfl, hjob hzero⟩
        | .error .conflict =>
          refine outline.follows_ask (.lookup req) hreq fun reply ht => ?_
          rintro st rfl
          exact answers_cons (ht st rfl).2
        | .error .notFound => exact Outline.follows_pure fun _ h => nomatch h
        | .error .emptyID => exact Outline.follows_pure fun _ h => nomatch h
        | .error .database => exact Outline.follows_pure fun _ h => nomatch h
      · refine Outline.follows_pure ?_
        rintro st ⟨⟩
        exact answers_cons hjob

/-- The result of a request that comes in is the row of its job. -/
abbrev Answered (req : NewRequest) (κ : Know) (result : Except Failure (RunnerState × Bool)) :
    Prop :=
  ∀ st created, result = .ok (st, created) → Answers κ req st

theorem follows_enqueueRunnerRequestLocked {κ : Know} {req : NewRequest} (hreq : Named req) :
    outline.Follows (Answered req) κ (enqueueRunnerRequestLocked req) := by
  refine Outline.follows_ask_bind hreq fun reply ht => ?_
  match reply with
  | .ok fallback =>
    have hfallback : Answers (fallback :: κ) req fallback := answers_cons (ht fallback rfl).2
    refine (follows_wakeWaitingWorkflowJob hreq hfallback).bind fun κ result hresult => ?_
    cases result with
    | error e => exact Outline.follows_pure fun _ _ h => nomatch h
    | ok st =>
      refine Outline.follows_pure ?_
      rintro st' created ⟨⟩
      exact hresult st rfl
  | .error e =>
    refine (follows_createRequest hreq (stored_row hreq) fun _ => rfl).bind
      fun κ result hresult => ?_
    match result with
    | .error e => exact Outline.follows_pure fun _ _ h => nomatch h
    | .ok (created, st) =>
      refine Outline.follows_pure ?_
      rintro st' created' ⟨⟩
      exact hresult created st rfl

theorem follows_rejectAdmission {κ : Know} {req : NewRequest} (hreq : Named req) (reason : String) :
    outline.Follows (Answered req) κ (rejectAdmission req reason) := by
  refine (follows_createRequest hreq (stored_rejectedRow hreq reason) fun now => ?_).bind
    fun κ result hresult => ?_
  · simp only [NewRequest.rejectedRow, NewRequest.row]
  · match result with
    | .error e => exact Outline.follows_pure fun _ _ h => nomatch h
    | .ok (created, st) =>
      refine Outline.follows_pure ?_
      rintro st' created' ⟨⟩
      exact hresult created st rfl

theorem follows_enqueueWorkflowJob {κ : Know} (d : Delivery) :
    outline.Follows (Answered d.request) κ (enqueueWorkflowJob d) := by
  have hreq : Named d.request := fun _ => rfl
  unfold enqueueWorkflowJob
  split
  · exact follows_enqueueRunnerRequestLocked hreq
  · exact follows_rejectAdmission hreq _
  · exact Outline.follows_pure fun _ _ h => nomatch h

theorem follows_answer {κ : Know} {req : NewRequest} {p : P (Except Failure (RunnerState × Bool))}
    (h : outline.Follows (Answered req) κ p) :
    outline.Follows (fun _ _ => True) κ (answer req p) :=
  h.bind fun _ result hresult =>
    outline.follows_ask (.respond req result) hresult fun _ _ => trivial

theorem follows_writes {κ : Know} (edits : List Edit) (st : RunnerState) :
    outline.Follows (fun _ _ => True) κ (writes edits st) := by
  induction edits generalizing κ st with
  | nil => exact Outline.follows_pure trivial
  | cons edit edits ih =>
    refine Outline.follows_ask_bind trivial fun written _ => ?_
    cases written with
    | false => exact Outline.follows_pure trivial
    | true => exact ih _

theorem outline_sound : outline.Sound fun _ => [] where
  serve {i _ _ _ _ _ _} hinv hκ hmay hok h :=
    have hm := serve_moves (i := i) hinv hκ hmay hok h
    ⟨serve_tells (i := i) hinv hmay hok h, hm.1,
      copy_learn (i := i) (fun r hr => (hκ r hr).move hm.2) h, hm.2⟩
  stable _ _ _ hm hκ r hr := (hκ r hr).move hm
  fresh_holds _ _ := List.forall_mem_nil _
  restart_inv h := h
  follows
    | .deliver d => follows_answer (follows_enqueueWorkflowJob d)
    | .create m =>
      follows_answer (follows_enqueueRunnerRequestLocked fun hzero => absurd rfl hzero)
    | .updateState id edits => by
      refine Outline.follows_ask_bind trivial fun reply _ => ?_
      cases reply with
      | none => exact Outline.follows_pure trivial
      | some st => exact follows_writes edits st
    | .claimNextRunnable worker now leaseTTL => by
      refine Outline.follows_ask_bind trivial fun reply _ => ?_
      cases reply with
      | none => exact Outline.follows_pure trivial
      | some candidate =>
        exact Outline.follows_ask_bind trivial fun _ _ => Outline.follows_pure trivial
    | .releaseLease id worker =>
      outline.follows_ask (.releaseLease id worker.1) worker.2 fun _ _ => trivial
    | .retryRequest id now => by
      refine Outline.follows_ask_bind trivial fun reply _ => ?_
      cases reply with
      | none => exact Outline.follows_pure trivial
      | some record =>
        dsimp only
        split
        · exact outline.follows_ask (.retryUpdate record now) trivial fun _ _ => trivial
        · exact Outline.follows_pure trivial

/-! ### Deliveries -/

theorem only_createRequest (req : NewRequest) (row : Time → RunnerState)
    (hjob : ∀ now, (row now).workflowJobID = req.jobID) :
    (createRequest req row).Only fun c => c = .now ∨ c.job = some req.jobID := by
  have hrow : ∀ now, (Call.insert (row now)).job = some req.jobID := fun now =>
    congrArg some (hjob now)
  unfold createRequest ask
  split
  · exact Prog.only_pure _
  · refine Prog.only_bind (Prog.only_ask (.inl rfl)) fun now => ?_
    refine Prog.only_bind (Prog.only_ask (.inr (hrow now))) fun reply => ?_
    split
    · exact Prog.only_pure _
    · exact Prog.only_pure _
    · refine Prog.only_bind (Prog.only_ask (.inr rfl)) fun reply => ?_
      split
      · exact Prog.only_pure _
      · split
        · exact Prog.only_pure _
        · refine Prog.only_bind (Prog.only_ask (.inr rfl)) fun reply => ?_
          split <;> exact Prog.only_pure _
      · exact Prog.only_pure _

theorem only_wakeWaitingWorkflowJob (req : NewRequest) (fallback : RunnerState) :
    (wakeWaitingWorkflowJob req fallback).Only fun c => c = .now ∨ c.job = some req.jobID := by
  unfold wakeWaitingWorkflowJob ask
  split
  · exact Prog.only_pure _
  · refine Prog.only_bind (Prog.only_ask (.inr rfl)) fun reply => ?_
    split
    · exact Prog.only_pure _
    · rename_i st
      split
      · rename_i hwakes
        have hjob : (Call.wake { st with nextRetryAt := 0 }).job = some req.jobID :=
          congrArg some (wakes_iff.mp hwakes).2.1
        refine Prog.only_bind (Prog.only_ask (.inr hjob)) fun reply => ?_
        split
        · exact Prog.only_pure _
        · exact Prog.only_ask (.inr rfl)
        · exact Prog.only_pure _
      · exact Prog.only_pure _

theorem only_enqueueRunnerRequestLocked (req : NewRequest) :
    (enqueueRunnerRequestLocked req).Only fun c => c = .now ∨ c.job = some req.jobID := by
  refine Prog.only_bind (Prog.only_ask (.inr rfl)) fun reply => ?_
  split
  · refine Prog.only_bind (only_wakeWaitingWorkflowJob req _) fun result => ?_
    split <;> exact Prog.only_pure _
  · refine Prog.only_bind (only_createRequest req req.row fun _ => rfl) fun result => ?_
    split <;> exact Prog.only_pure _

theorem only_deliver (d : Delivery) :
    (program (.deliver d)).Only fun c => c = .now ∨ c.job = some d.jobID := by
  refine Prog.only_bind ?_ fun result => Prog.only_ask (.inr rfl)
  unfold enqueueWorkflowJob
  split
  · exact only_enqueueRunnerRequestLocked d.request
  · rename_i reason _
    have hcreate := only_createRequest d.request (d.request.rejectedRow reason)
      fun now => by simp only [NewRequest.rejectedRow, NewRequest.row]
    refine Prog.only_bind hcreate fun result => ?_
    split <;> exact Prog.only_pure _
  · exact Prog.only_pure _

/-- Nothing changes but the wait of a row that nobody works on. -/
def OnlyWakes (t t' : Requests) (r : RunnerState) : Prop :=
  t' = t ∨ waiting r = true ∧ ∃ now, t' = t.put (woken r now)

theorem createRequest_of_job (hmem : r ∈ t.rows) (hzero : r.workflowJobID ≠ 0)
    (hjob : r'.workflowJobID = r.workflowJobID) : t.createRequest r' = t := by
  have hany : t.rows.any (·.workflowJobID = r'.workflowJobID) = true :=
    List.any_eq_true.mpr ⟨r, hmem, decide_eq_true hjob.symm⟩
  unfold Requests.createRequest
  split
  · rfl
  · exact if_pos ⟨hjob ▸ hzero, hany⟩

/-- A call for a job that has a row changes at most the wait of the row. -/
theorem onlyWakes_of_serve {κ : Know} {c : Call} {x : Choice} {a : Reply c} (hinv : Inv t)
    (hκ : ∀ r ∈ κ, Copy t r) (hmay : May κ c) (hmem : r ∈ t.rows) (hzero : r.workflowJobID ≠ 0)
    (hjob : c.job = some r.workflowJobID) (h : serve i c x t = some (a, t')) :
    OnlyWakes t t' r := by
  cases c with
  | lookup req => cases h; exact .inl rfl
  | findJob jobID => cases h; exact .inl rfl
  | respond req result => cases h; exact .inl rfl
  | insert row =>
    simp only [serve] at h
    split at h
    · cases h
      exact .inl rfl
    · cases h
      exact .inl (createRequest_of_job hmem hzero (Option.some.inj hjob))
  | wake st =>
    obtain rfl | ⟨u, hf, hu, hwaiting, rfl⟩ := wake_cases (i := i) hinv hκ hmay h
    · exact .inl rfl
    · have hsame : r = u := hinv.unique r hmem u (Table.mem_of_find hf)
        ((Option.some.inj hjob).symm.trans hu.symm) hzero
      exact .inr ⟨hsame ▸ hwaiting, x.now, by rw [hsame]⟩
  | now => cases hjob
  | readState id => cases hjob
  | writeState st => cases hjob
  | claimCandidate now => cases hjob
  | claimUpdate candidate workerID now leaseTTL => cases hjob
  | releaseLease id workerID => cases hjob
  | retryUpdate record now => cases hjob

/-- Where no request without a job has the id of a job, and no claim overtakes its candidate: a job
has at most one request, an answer to a delivery is the request of its job, and a delivery
for a job that has a request changes nothing but the wait of the request. -/
theorem deliveries_idempotent {rows : Requests} (hrows : Inv rows) {cfg : Config Reply Requests}
    (hr : machine.Reaches Ordinary rows cfg) :
    (∀ r ∈ cfg.state.rows, ∀ r' ∈ cfg.state.rows, r.workflowJobID = r'.workflowJobID →
      r.workflowJobID ≠ 0 → r = r') ∧
    (∀ (i : Nat) (req : NewRequest) (st : RunnerState) (created : Bool) (k : Unit → P Unit),
      cfg.threads[i]? = some (.call (.respond req (.ok (st, created))) k) → req.jobID ≠ 0 →
      st.workflowJobID = req.jobID ∧
        ∃ r, cfg.state.find st.id = some r ∧ r.workflowJobID = req.jobID) ∧
    (∀ d : Delivery, (program (.deliver d)).Only fun c => c = .now ∨ c.job = some d.jobID) ∧
    ∀ i x c k cfg' r, cfg.threads[i]? = some (.call c k) → c.job = some r.workflowJobID →
      r.workflowJobID ≠ 0 → r ∈ cfg.state.rows → machine.Meets Ordinary cfg (.run i x) →
      machine.step cfg (.run i x) = some cfg' → OnlyWakes cfg.state cfg'.state r := by
  have hinv : Inv cfg.state := outline_sound.inv_of_reaches hrows hr
  refine ⟨hinv.unique, ?_, only_deliver, ?_⟩
  · intro i req st created k hi hzero
    obtain ⟨κ, hκ, hmay⟩ := outline_sound.may_of_reaches hrows hr hi
    obtain ⟨hjob, r, hr, hid, hrow⟩ := hmay st created rfl hzero
    obtain ⟨c, hc, hcjob, -⟩ := hκ r hr
    exact ⟨hjob, c, hid ▸ hc, hcjob.trans hrow⟩
  · intro i x c k cfg' r hi hjob hzero hmem hm h
    obtain ⟨κ, hκ, hmay⟩ := outline_sound.may_of_reaches hrows hr hi
    obtain ⟨op, hd, -⟩ | ⟨j, y, c', k', a, t, hd, hi', hserve, rfl⟩ | ⟨hd, -⟩ :=
      Machine.step_cases h
    · cases hd
    · cases hd
      rw [hi] at hi'
      cases hi'
      exact onlyWakes_of_serve (i := i) hinv hκ hmay hmem hzero hjob hserve
    · cases hd

/-- The answer that a thread is about to give. -/
def answerOf (cfg : Config Reply Requests) (i : Nat) : Option (NewRequest × RunnerState) :=
  match (cfg.threads[i]? : Option (Prog Reply Unit)) with
  | some (.call (.respond req (.ok (st, _))) _) => some (req, st)
  | _ => none

theorem answerOf_eq_some {cfg : Config Reply Requests} {req : NewRequest}
    (h : answerOf cfg i = some (req, r)) : ∃ (created : Bool) (k : Unit → P Unit),
    cfg.threads[i]? = some (.call (.respond req (.ok (r, created))) k) := by
  unfold answerOf at h
  split at h
  · rename_i req' st created k hi
    cases h
    exact ⟨created, k, hi⟩
  · cases h

def delivery : Delivery where
  jobID := 7
  verdict := .matched [] ""

theorem inv_empty : Inv Table.empty where
  unique _ hr := absurd hr List.not_mem_nil
  row _ hr := absurd hr List.not_mem_nil

/-- A delivery that races with another for its job is answered with the same request. -/
theorem deliveries_idempotent_raced : ∃ cfg req st,
    machine.Reaches Ordinary Table.empty cfg ∧ answerOf cfg 1 = some (req, st) ∧ req.jobID = 7 ∧
    st.workflowJobID = 7 ∧
    ∀ r ∈ cfg.state.rows, ∀ r' ∈ cfg.state.rows, r.workflowJobID = 7 → r'.workflowJobID = 7 →
      r = r' := by
  obtain ⟨cfg, -, hr, -, -, hp⟩ := Machine.exists_step_of_execMeeting (M := machine)
    Ordinary (s := Table.empty)
    [.start (.deliver delivery), .start (.deliver delivery), .run 0 {}, .run 1 {}, .run 0 {},
      .run 0 {}, .run 1 {}, .run 1 {}, .run 1 {}] (.run 1 {})
    (fun cfg _ => (answerOf cfg 1).any (·.1.jobID = 7)) (by decide +kernel)
  obtain ⟨⟨req, st⟩, hanswer, hjob⟩ := (Option.any_eq_true ..).mp hp
  obtain ⟨created, k, hi⟩ := answerOf_eq_some hanswer
  have hseven : req.jobID = 7 := of_decide_eq_true hjob
  have hall := deliveries_idempotent inv_empty hr
  have hst := (hall.2.1 1 req st created k hi (by rw [hseven]; decide)).1
  refine ⟨cfg, req, st, hr, hanswer, hseven, hst.trans hseven, ?_⟩
  intro r hr r' hr' h h'
  exact hall.1 r hr r' hr' (h.trans h'.symm) (by rw [h]; decide)

def waitingRequest : RunnerState where
  id := "7"
  workflowJobID := 7
  runnerName := "e2b-7"
  lastErrorCode := Lifecycle.workflowJobWaitCode
  nextRetryAt := 5

/-- The wake that a thread is about to do. -/
def wakeOf (cfg : Config Reply Requests) (i : Nat) : Option RunnerState :=
  match (cfg.threads[i]? : Option (P Unit)) with
  | some (.call (.wake st) _) => some st
  | _ => none

theorem wakeOf_eq_some {cfg : Config Reply Requests} {i : Nat} {st : RunnerState}
    (h : wakeOf cfg i = some st) : ∃ k, cfg.threads[i]? = some (.call (.wake st) k) := by
  unfold wakeOf at h
  split at h
  · rename_i k hi
    cases h
    exact ⟨k, hi⟩
  · cases h

/-- A request that an administrator has created under the id of a job is what a delivery for the
job is answered with. And where a claim is overtaken by a write, it sets the version that
the write has left, so that a delivery that has read the request in between writes it
back over the lease. -/
theorem delivery_takes_another :
    (∃ (cfg : Config Reply Requests) (i : Nat) (req : NewRequest) (st : RunnerState)
      (created : Bool) (k : Unit → P Unit), machine.Reachable Table.empty cfg ∧
      cfg.threads[i]? = some (.call (.respond req (.ok (st, created))) k) ∧ req.jobID ≠ 0 ∧
      st.workflowJobID ≠ req.jobID) ∧
    ∃ cfg cfg' i x st r, ∃ k : Except Failure Unit → P Unit,
      machine.Reachable (Table.empty.insert waitingRequest) cfg ∧
      cfg.threads[i]? = some (.call (.wake st) k) ∧ st.workflowJobID = r.workflowJobID ∧
      r.workflowJobID ≠ 0 ∧ r ∈ cfg.state.rows ∧ machine.step cfg (.run i x) = some cfg' ∧
      ¬ OnlyWakes cfg.state cfg'.state r := by
  constructor
  · obtain ⟨cfg, hr, hp⟩ := Machine.exists_reachable_of_exec (M := machine) (s := Table.empty)
      [.start (.create { id := "7" }), .run 0 {}, .run 0 {}, .run 0 {},
        .start (.deliver delivery), .run 1 {}, .run 1 {}]
      (fun cfg => (answerOf cfg 1).any fun a => a.1.jobID ≠ 0 && a.2.workflowJobID ≠ a.1.jobID)
      (by decide +kernel)
    obtain ⟨⟨req, st⟩, hanswer, hjob⟩ := (Option.any_eq_true ..).mp hp
    obtain ⟨created, k, hi⟩ := answerOf_eq_some hanswer
    simp only [ne_eq, decide_not, Bool.and_eq_true, Bool.not_eq_true', decide_eq_false_iff_not]
      at hjob
    exact ⟨cfg, 1, req, st, created, k, hr, hi, hjob⟩
  · obtain ⟨cfg, cfg', hr, h, hp⟩ := Machine.exists_step_of_exec (M := machine)
      (s := Table.empty.insert waitingRequest)
      [.start (.claimNextRunnable ⟨"worker", by decide⟩ 10 5), .run 0 {},
        .start (.updateState "7" [noteError]), .run 1 {}, .run 1 {},
        .start (.deliver delivery), .run 2 {}, .run 2 {}, .run 0 {}] (.run 2 {})
      (fun cfg cfg' => (wakeOf cfg 2).any fun st => (cfg.state.find "7").any fun r =>
        st.workflowJobID = r.workflowJobID && r.workflowJobID ≠ 0 && !waiting r &&
          cfg'.state.find "7" ≠ some r) (by decide +kernel)
    obtain ⟨st, hwake, hp⟩ := (Option.any_eq_true ..).mp hp
    obtain ⟨k, hi⟩ := wakeOf_eq_some hwake
    obtain ⟨r, hf, hrow⟩ := (Option.any_eq_true ..).mp hp
    simp only [Bool.and_eq_true, decide_eq_true_eq, Bool.not_eq_true'] at hrow
    obtain ⟨⟨⟨hjob, hzero⟩, hleased⟩, hchanged⟩ := hrow
    refine ⟨cfg, cfg', 2, {}, st, r, k, hr, hi, hjob, hzero, Table.mem_of_find hf, h, ?_⟩
    rintro (hsame | ⟨hwaiting, -⟩)
    · exact hchanged (hsame ▸ hf)
    · rw [hleased] at hwaiting
      cases hwaiting

end CiRunner.Admission
