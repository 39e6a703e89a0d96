import CiRunner.Admin.CursorText
import CiRunner.State.Listing
import CiRunner.Tables.Walks

/-! The list of runner requests for an administrator. A page has the newest requests that match the
filter and come behind the cursor; the response has a cursor for the next page as long
as there are more. -/

namespace CiRunner.Admin

open Tables Text
open CiRunner.State (Time RunnerState Lowering queueKey)

/-! ### Requests -/

structure RequestRow extends RunnerState where
  profileName : String := ""

def RequestRow.requestID (r : RequestRow) : String := r.id

/-- The requests, as they are created: with an id and a time. -/
structure Contents where
  requests : Table RequestRow.requestID
  named : ∀ r ∈ requests.rows, r.id ≠ ""
  dated : ∀ r ∈ requests.rows, r.createdAt ≠ 0

/-- The place of a request on the list: the newest comes first. -/
def RequestRow.key (r : RequestRow) : Timeᵒᵈ ×ₗ String := queueKey r.toRunnerState

theorem nodup_key (contents : Contents) : (contents.requests.rows.map RequestRow.key).Nodup := by
  refine List.Nodup.of_map (fun k => (ofLex k).2) ?_
  rw [List.map_map]
  exact contents.requests.nodup

def longID (n : Nat) : String := String.ofList (List.replicate n 'a')

theorem length_longID (n : Nat) : (longID n).toList.length = n := by
  rw [longID, String.toList_ofList, List.length_replicate]

/-! ### Filters -/

structure RunnerRequestListOptions where
  repositoryFullName : String
  profileName : String
  displayStatus : String
  limit : Nat
  deriving DecidableEq

def plainStatuses : List String := ["queued", "creating", "running", "stopping", "completed"]

def validRunnerRequestDisplayStatus (status : String) : Bool :=
  status = "" || plainStatuses.contains status || status = "failed" || status = "unmatched"

/-- The request was rejected because no profile has its labels. -/
def RequestRow.unmatched (r : RequestRow) : Bool :=
  r.failureStage = some .admission && r.failureReason = "profile_labels_not_matched"

/-- The condition on the status; there is none for other names. -/
def statusCondition (status : String) : Option (RequestRow → Bool) :=
  if status = "" then some fun _ => true
  else if plainStatuses.contains status then some fun r => r.status.text = status
  else if status = "unmatched" then some fun r => r.status = .failed && r.unmatched
  else if status = "failed" then some fun r => r.status = .failed && !r.unmatched
  else none

/-- The condition of the filter, if its status is known. -/
def filterRunnerRequestList (fold : Lowering) (options : RunnerRequestListOptions) :
    Option (RequestRow → Bool) :=
  let repository := trimSpace options.repositoryFullName
  let profile := trimSpace options.profileName
  (statusCondition (fold.lower (trimSpace options.displayStatus))).map fun status r =>
    (repository = "" || r.repositoryFullName = repository) &&
      (profile = "" || r.profileName = profile) && status r

def RequestRow.behind (after : Option (Time × String)) (r : RequestRow) : Bool :=
  after.all fun (queuedAt, id) =>
    r.createdAt < queuedAt || (r.createdAt = queuedAt && id < r.id)

def unsupportedStatus : String := "unsupported Runner request display status"

def Contents.listStatesCursor (contents : Contents) (fold : Lowering)
    (options : RunnerRequestListOptions) (after : Option (Time × String)) :
    Except String (List RequestRow × Bool) :=
  match filterRunnerRequestList fold options with
  | none => .error unsupportedStatus
  | some matching =>
    if after.any fun (queuedAt, id) => id = "" || queuedAt = 0 then .error invalidCursor
    else
      let limit := if options.limit = 0 then 100 else options.limit
      .ok (page RequestRow.key contents.requests.rows (fun r => matching r && r.behind after) limit)

/-! ### Responses -/

structure RunnerQuery where
  limit : String := ""
  offset : String := ""
  status : String := ""
  repositoryFullName : String := ""
  runnerSpecName : String := ""
  cursor : String := ""

structure AdminRunnerRequestPage where
  items : List RequestRow
  nextCursor : Option String
  hasMore : Bool

/-- The limit and the offset of a page. -/
def parsePagination (limit offset : String) (defaultLimit maxLimit : Nat) :
    Except String (Nat × Nat) :=
  let parsed :=
    if trimSpace limit = "" then some defaultLimit
    else (parseInt (trimSpace limit)).bind fun value =>
      if value ≤ 0 then none else some value.toNat
  match parsed with
  | none => .error "limit must be a positive integer"
  | some value =>
    let limit := if maxLimit > 0 ∧ value > maxLimit then maxLimit else value
    match if trimSpace offset = "" then some 0 else parseInt (trimSpace offset) with
    | none => .error "offset must be a non-negative integer"
    | some offset =>
      if offset < 0 then .error "offset must be a non-negative integer"
      else .ok (limit, offset.toNat)

def defaultRunnerRequestListLimit : Nat := 100

def maxRunnerRequestListLimit : Nat := 500

def maxRunnerRequestRepositoryFilterLength : Nat := 256

/-- The filter and the page size of a query. -/
def readRunnerQuery (fold : Lowering) (query : RunnerQuery) :
    Except String RunnerRequestListOptions :=
  match parsePagination query.limit query.offset defaultRunnerRequestListLimit
    maxRunnerRequestListLimit with
  | .error e => .error e
  | .ok (limit, offset) =>
    let displayStatus := fold.lower (trimSpace query.status)
    let repositoryFullName := trimSpace query.repositoryFullName
    if query.offset ≠ "" ∨ offset ≠ 0 then .error "offset is not supported; use cursor"
    else if !validRunnerRequestDisplayStatus displayStatus then
      .error "invalid Runner request status"
    else if maxRunnerRequestRepositoryFilterLength < repositoryFullName.utf8ByteSize then
      .error "repository_full_name is too long"
    else .ok ⟨repositoryFullName, trimSpace query.runnerSpecName, displayStatus, limit⟩

def RunnerRequestListOptions.filterKey (options : RunnerRequestListOptions)
    (reader : CursorReader) : String :=
  adminRunnerRequestFilterKey reader options.displayStatus options.repositoryFullName
    options.profileName

def readRunnerCursor (reader : CursorReader) (raw filterKey : String) :
    Except String (Option (Time × String)) :=
  if raw = "" then .ok none else (decodeAdminRunnerRequestCursor reader raw filterKey).map some

def handleListRunners (reader : CursorReader) (fold : Lowering) (contents : Contents)
    (query : RunnerQuery) : Except String AdminRunnerRequestPage := do
  let options ← readRunnerQuery fold query
  let filterKey := options.filterKey reader
  let after ← readRunnerCursor reader (trimSpace query.cursor) filterKey
  let (states, hasMore) ← contents.listStatesCursor fold options after
  let nextCursor := if hasMore then states.getLast?.map fun last =>
      encodeAdminRunnerRequestCursor (cursorOf reader filterKey last.createdAt last.id)
    else none
  pure ⟨states, nextCursor, hasMore⟩

/-! ### Pages -/

section Pages

variable {reader : CursorReader} {fold : Lowering} {contents : Contents} {query : RunnerQuery}
  {options : RunnerRequestListOptions}

theorem lower_trim_of_valid {status : String}
    (h : validRunnerRequestDisplayStatus status = true) : fold.lower (trimSpace status) = status := by
  have hall : ∀ s ∈ ["", "queued", "creating", "running", "stopping", "completed", "failed",
      "unmatched"], (∀ c ∈ (trimSpace s).toList, c.val < 0x80) ∧ toLower (trimSpace s) = s := by
    decide +kernel
  have hmem : status ∈ ["", "queued", "creating", "running", "stopping", "completed", "failed",
      "unmatched"] := by
    simp only [validRunnerRequestDisplayStatus, plainStatuses, Bool.or_eq_true, decide_eq_true_eq,
      List.contains_iff_mem] at h
    grind
  obtain ⟨hascii, hlower⟩ := hall status hmem
  rw [fold.lower_ascii _ hascii, hlower]

theorem statusCondition_of_valid {status : String}
    (h : validRunnerRequestDisplayStatus status = true) :
    ∃ condition, statusCondition status = some condition := by
  simp only [validRunnerRequestDisplayStatus, Bool.or_eq_true, decide_eq_true_eq] at h
  rcases h with ((rfl | h) | rfl) | rfl
  · exact ⟨_, rfl⟩
  · by_cases hempty : status = ""
    · exact ⟨_, if_pos hempty⟩
    · exact ⟨_, (if_neg hempty).trans (if_pos h)⟩
  · exact ⟨_, rfl⟩
  · exact ⟨_, rfl⟩

theorem pos_of_parsePagination {limit offset : String} {defaultLimit maxLimit n m : Nat}
    (hdefault : 0 < defaultLimit)
    (h : parsePagination limit offset defaultLimit maxLimit = .ok (n, m)) : 0 < n := by
  simp only [parsePagination] at h
  split at h
  · cases h
  · rename_i value hparsed
    have hvalue : 0 < value := by
      split at hparsed
      · cases hparsed
        exact hdefault
      · obtain ⟨parsed, -, hpositive⟩ := Option.bind_eq_some_iff.mp hparsed
        split at hpositive
        · cases hpositive
        · cases hpositive
          omega
    repeat' split at h
    all_goals first | cases h; omega | cases h

/-- A query that is accepted has a condition and a page size. -/
theorem exists_matching (h : readRunnerQuery fold query = .ok options) :
    (∃ matching, filterRunnerRequestList fold options = some matching) ∧ 0 < options.limit := by
  unfold readRunnerQuery at h
  split at h
  · cases h
  · rename_i limit offset hp
    dsimp only at h
    repeat' split at h
    all_goals cases h
    rename_i hvalid _
    have hvalid : validRunnerRequestDisplayStatus (fold.lower (trimSpace query.status)) = true := by
      simpa using hvalid
    obtain ⟨condition, hcondition⟩ := statusCondition_of_valid hvalid
    refine ⟨?_, pos_of_parsePagination (by decide) hp⟩
    rw [filterRunnerRequestList, lower_trim_of_valid hvalid, hcondition]
    exact ⟨_, rfl⟩

theorem behind_eq (r : RequestRow) (queuedAt : Time) (id : String) :
    r.behind (some (queuedAt, id)) =
      decide (toLex (OrderDual.toDual queuedAt, id) < r.key) := by
  rw [RequestRow.behind, Option.all_some, Bool.eq_iff_iff, decide_eq_true_eq, RequestRow.key,
    queueKey, Prod.Lex.toLex_lt_toLex]
  simp only [Bool.or_eq_true, Bool.and_eq_true, decide_eq_true_eq, OrderDual.toDual_lt_toDual,
    OrderDual.toDual_inj]
  exact or_congr Iff.rfl (and_congr eq_comm Iff.rfl)

/-- The text stands for the cursor at a key: for none if there is no text. -/
def StandsFor (reader : CursorReader) (filterKey raw : String) :
    Option (Timeᵒᵈ ×ₗ String) → Prop
  | none => raw = ""
  | some k => ∃ queuedAt id, k = toLex (OrderDual.toDual queuedAt, id) ∧ queuedAt ≠ 0 ∧ id ≠ "" ∧
      raw = encodeAdminRunnerRequestCursor (cursorOf reader filterKey queuedAt id) ∧
      raw.utf8ByteSize ≤ 2048

def Contents.keyPage (contents : Contents) (matching : RequestRow → Bool) (limit : Nat)
    (c : Option (Timeᵒᵈ ×ₗ String)) : List RequestRow × Bool :=
  page RequestRow.key contents.requests.rows
    (fun r => matching r && c.all fun k => k < r.key) limit

/-- The response of the server is the page behind the key of the cursor. -/
theorem handleListRunners_eq {matching : RequestRow → Bool} {raw : String}
    {c : Option (Timeᵒᵈ ×ₗ String)} (hquery : readRunnerQuery fold query = .ok options)
    (hmatching : filterRunnerRequestList fold options = some matching)
    (hraw : StandsFor reader (options.filterKey reader) raw c) :
    handleListRunners reader fold contents { query with cursor := raw } =
      .ok ⟨(contents.keyPage matching options.limit c).1,
        if (contents.keyPage matching options.limit c).2 then
          (contents.keyPage matching options.limit c).1.getLast?.map fun last =>
            encodeAdminRunnerRequestCursor
              (cursorOf reader (options.filterKey reader) last.createdAt last.id)
        else none, (contents.keyPage matching options.limit c).2⟩ := by
  have hlimit := (exists_matching hquery).2
  have hsame : readRunnerQuery fold { query with cursor := raw } = .ok options := hquery
  have hlist : ∃ after, readRunnerCursor reader (trimSpace raw) (options.filterKey reader) =
        .ok after ∧ contents.listStatesCursor fold options after =
          .ok (contents.keyPage matching options.limit c) := by
    cases c with
    | none =>
      refine ⟨none, ?_, ?_⟩
      · rw [readRunnerCursor, show raw = "" from hraw]
        rfl
      · rw [Contents.listStatesCursor, hmatching]
        simp [Contents.keyPage, RequestRow.behind, Nat.ne_of_gt hlimit]
    | some k =>
      obtain ⟨queuedAt, id, rfl, htime, hid, rfl, hfits⟩ := hraw
      refine ⟨some (queuedAt, id), ?_, ?_⟩
      · rw [trimSpace_encode, readRunnerCursor, if_neg (encode_ne_empty hid),
          decode_cursorOf hid htime hfits, if_pos rfl]
        rfl
      · rw [Contents.listStatesCursor, hmatching]
        simp [Contents.keyPage, behind_eq, Nat.ne_of_gt hlimit, hid, htime]
  obtain ⟨after, hafter, hpage⟩ := hlist
  rw [handleListRunners, hsame]
  simp only [bind, Except.bind, hafter, hpage]
  rfl

end Pages

end CiRunner.Admin
