import Mathlib.Data.String.Basic
import CiRunner.Tables.Batches
import CiRunner.Text

/-! The GitHub context of a runner request: the run, the branch, the pull request and the URL that
a request is shown with. Rows of an earlier version keep it in the payload of the
delivery; the backfill copies it to columns of its own and marks the row, and the view of
a marked row no longer reads the payload. -/

namespace CiRunner.State

open Tables Text

/-! ### Payloads -/

structure GithubPayloadLinks where
  workflowRunID : Int := 0
  workflowName : String := ""
  workflowRunAttempt : Int := 0
  headBranch : String := ""
  headSHA : String := ""
  jobURL : String := ""
  pullRequestNumber : Int := 0
  deriving DecidableEq, Repr

/-- The job of a delivery; pull requests are given by their numbers. -/
structure WorkflowJobPayload where
  runID : Int := 0
  workflowName : String := ""
  runAttempt : Int := 0
  headBranch : String := ""
  headSHA : String := ""
  htmlURL : String := ""
  pullRequests : List Int := []
  workflowRunID : Int := 0

structure WorkflowRunPayload where
  id : Int := 0
  name : String := ""
  runAttempt : Int := 0
  headBranch : String := ""
  headSHA : String := ""
  pullRequests : List Int := []

structure GithubPayload where
  workflowJob : WorkflowJobPayload := {}
  workflowRun : WorkflowRunPayload := {}
  pullRequestNumber : Int := 0

/-- What is read from the text of a payload, well formed or not: what decoding it leaves in the
payload and in the id of the installation, and whether the database finds the installation in
it. -/
structure PayloadReader where
  payload : String → GithubPayload
  installationID : String → Int
  mentionsInstallation : String → Bool

/-! ### URLs -/

def firstNonEmpty (values : List String) : String :=
  ((values.map trimSpace).find? (· ≠ "")).getD ""

def firstPullRequestNumber (pulls : List Int) : Int := pulls.head?.getD 0

def githubJobURL (repositoryFullName : String) (runID jobID : Int) : String :=
  if repositoryFullName = "" ∨ runID ≤ 0 ∨ jobID ≤ 0 then ""
  else "https://github.com/" ++ repositoryFullName ++ "/actions/runs/" ++ toString runID ++
    "/job/" ++ toString jobID

/-- The query of the URL, up to the fragment; none if the fragment comes first. -/
def rawQuery (rawURL : List Char) : Option (List Char) :=
  let path := rawURL.takeWhile fun c => c != '?' && c != '#'
  match rawURL.drop path.length with
  | '?' :: rest => some (rest.takeWhile (· != '#'))
  | _ => none

/-- The fields of a query; nothing comes behind a separator at its end. -/
def queryFields (query : List Char) : List (List Char) :=
  let fields := query.splitOn '&'
  if fields.getLast? = some [] then fields.dropLast else fields

def hasRawQueryParameter (rawURL name : String) : Bool :=
  match rawQuery rawURL.toList with
  | none => false
  | some query => (queryFields query).any fun field => field.takeWhile (· != '=') = name.toList

def appendPullRequestQuery (rawURL : String) (prNumber : Int) : String :=
  if rawURL = "" ∨ prNumber ≤ 0 then rawURL
  else if hasRawQueryParameter rawURL "pr" then rawURL
  else rawURL ++ (if contains rawURL "?" then "&" else "?") ++ "pr=" ++ toString prNumber

/-! ### Rows -/

/-- The columns of a request that its context is read from. -/
structure ContextRow where
  id : String
  repositoryFullName : String := ""
  assignedJobID : Int := 0
  workflowJobID : Int := 0
  githubInstallationID : Int := 0
  links : GithubPayloadLinks := {}
  githubContextBackfilled : Bool := false
  githubPayloadJSON : String := ""
  deriving DecidableEq, Repr

def ContextRow.effectiveJobID (record : ContextRow) : Int :=
  if record.assignedJobID ≠ 0 then record.assignedJobID else record.workflowJobID

/-- The value of a column, or another one if it has none. -/
def fill {α : Type} [DecidableEq α] (zero column value : α) : α :=
  if column = zero then value else column

def mergeGitHubPayloadLinks (links fallback : GithubPayloadLinks) : GithubPayloadLinks where
  workflowRunID := fill 0 links.workflowRunID fallback.workflowRunID
  workflowName := fill "" links.workflowName fallback.workflowName
  workflowRunAttempt := fill 0 links.workflowRunAttempt fallback.workflowRunAttempt
  headBranch := fill "" links.headBranch fallback.headBranch
  headSHA := fill "" links.headSHA fallback.headSHA
  jobURL := fill "" links.jobURL fallback.jobURL
  pullRequestNumber := fill 0 links.pullRequestNumber fallback.pullRequestNumber

variable (reader : PayloadReader)

def githubLinksFromPayload (record : ContextRow) : GithubPayloadLinks :=
  let payload := reader.payload record.githubPayloadJSON
  let job := payload.workflowJob
  let run := payload.workflowRun
  let runID := if job.runID = 0 then
      if job.workflowRunID = 0 then run.id else job.workflowRunID
    else job.runID
  let prNumber := if firstPullRequestNumber job.pullRequests = 0 then
      if firstPullRequestNumber run.pullRequests = 0 then payload.pullRequestNumber
      else firstPullRequestNumber run.pullRequests
    else firstPullRequestNumber job.pullRequests
  let jobURL := if job.htmlURL = "" then
      githubJobURL record.repositoryFullName runID record.effectiveJobID
    else job.htmlURL
  { workflowRunID := runID
    workflowName := firstNonEmpty [job.workflowName, run.name]
    workflowRunAttempt := if job.runAttempt = 0 then run.runAttempt else job.runAttempt
    headBranch := firstNonEmpty [job.headBranch, run.headBranch]
    headSHA := firstNonEmpty [job.headSHA, run.headSHA]
    jobURL := appendPullRequestQuery jobURL prNumber
    pullRequestNumber := prNumber }

/-- The URL that context is shown with: one is made if there is none, and the pull request is
appended. -/
def ContextRow.shown (record : ContextRow) (links : GithubPayloadLinks) : GithubPayloadLinks :=
  let jobURL := if links.jobURL = "" then
      githubJobURL record.repositoryFullName links.workflowRunID record.effectiveJobID
    else links.jobURL
  { links with jobURL := appendPullRequestQuery jobURL links.pullRequestNumber }

/-- The context in the view of a request. -/
def githubLinksFromRecord (record : ContextRow) : GithubPayloadLinks :=
  record.shown <|
    if record.githubContextBackfilled then record.links
    else mergeGitHubPayloadLinks record.links (githubLinksFromPayload reader record)

/-! ### Backfill -/

/-- The columns that the backfill sets. -/
structure ContextUpdates where
  githubContextBackfilled : Option Bool := none
  githubInstallationID : Option Int := none
  workflowRunID : Option Int := none
  workflowName : Option String := none
  workflowRunAttempt : Option Int := none
  headBranch : Option String := none
  headSHA : Option String := none
  jobURL : Option String := none
  pullRequestNumber : Option Int := none

/-- The update of a column that has no value, if there is one for it. -/
def fillUpdate {α : Type} [DecidableEq α] (zero column value : α) : Option α :=
  if column = zero ∧ value ≠ zero then some value else none

def runnerRequestGitHubContextBackfill (record : ContextRow) : ContextUpdates :=
  let links := githubLinksFromPayload reader record
  let installationID := reader.installationID record.githubPayloadJSON
  { githubContextBackfilled := if record.githubContextBackfilled then none else some true
    githubInstallationID :=
      if record.githubInstallationID = 0 ∧ 0 < installationID then some installationID else none
    workflowRunID := fillUpdate 0 record.links.workflowRunID links.workflowRunID
    workflowName := fillUpdate "" record.links.workflowName links.workflowName
    workflowRunAttempt := fillUpdate 0 record.links.workflowRunAttempt links.workflowRunAttempt
    headBranch := fillUpdate "" record.links.headBranch links.headBranch
    headSHA := fillUpdate "" record.links.headSHA links.headSHA
    jobURL := fillUpdate "" record.links.jobURL links.jobURL
    pullRequestNumber := fillUpdate 0 record.links.pullRequestNumber links.pullRequestNumber }

def ContextRow.updateColumns (record : ContextRow) (updates : ContextUpdates) : ContextRow :=
  { record with
    githubContextBackfilled := updates.githubContextBackfilled.getD record.githubContextBackfilled
    githubInstallationID := updates.githubInstallationID.getD record.githubInstallationID
    links :=
      { workflowRunID := updates.workflowRunID.getD record.links.workflowRunID
        workflowName := updates.workflowName.getD record.links.workflowName
        workflowRunAttempt := updates.workflowRunAttempt.getD record.links.workflowRunAttempt
        headBranch := updates.headBranch.getD record.links.headBranch
        headSHA := updates.headSHA.getD record.links.headSHA
        jobURL := updates.jobURL.getD record.links.jobURL
        pullRequestNumber := updates.pullRequestNumber.getD record.links.pullRequestNumber } }

/-- The rows to fill: those that have not been marked, and those that lack an installation which
their payload names. -/
def ContextRow.toBackfill (record : ContextRow) : Bool :=
  record.githubPayloadJSON ≠ "" &&
    (!record.githubContextBackfilled ||
      record.githubInstallationID = 0 && reader.mentionsInstallation record.githubPayloadJSON)

def contextBackfillBatchSize : Nat := 200

def backfillRunnerRequestGitHubContext (batches : Nat) (t : Table ContextRow.id) :
    Option (Table ContextRow.id) :=
  updateInBatches (ContextRow.toBackfill reader)
    (fun record => record.updateColumns (runnerRequestGitHubContextBackfill reader record))
    contextBackfillBatchSize batches none t

variable {reader}

/-! ### One row -/

theorem getD_fillUpdate {α : Type} [DecidableEq α] (zero column value : α) :
    (fillUpdate zero column value).getD column = fill zero column value := by
  unfold fillUpdate fill
  grind

theorem fill_fill {α : Type} [DecidableEq α] (zero column value : α) :
    fill zero (fill zero column value) value = fill zero column value := by
  unfold fill
  grind

theorem merge_merge (links fallback : GithubPayloadLinks) :
    mergeGitHubPayloadLinks (mergeGitHubPayloadLinks links fallback) fallback =
      mergeGitHubPayloadLinks links fallback := by
  simp only [mergeGitHubPayloadLinks, fill_fill]

def ContextRow.backfilled (reader : PayloadReader) (record : ContextRow) : ContextRow :=
  if record.toBackfill reader then
    record.updateColumns (runnerRequestGitHubContextBackfill reader record)
  else record

theorem updateColumns_eq (record : ContextRow) :
    record.updateColumns (runnerRequestGitHubContextBackfill reader record) =
      { record with
        githubContextBackfilled := true
        githubInstallationID :=
          if record.githubInstallationID = 0 ∧ 0 < reader.installationID record.githubPayloadJSON
          then reader.installationID record.githubPayloadJSON
          else record.githubInstallationID
        links := mergeGitHubPayloadLinks record.links (githubLinksFromPayload reader record) } := by
  simp only [ContextRow.updateColumns, runnerRequestGitHubContextBackfill, getD_fillUpdate,
    mergeGitHubPayloadLinks, ContextRow.mk.injEq, true_and, and_true]
  constructor
  · split <;> rfl
  · cases record.githubContextBackfilled <;> rfl

theorem id_backfilled (record : ContextRow) : (record.backfilled reader).id = record.id := by
  unfold ContextRow.backfilled
  split <;> rfl

/-- A second backfill finds every column filled that can be. -/
theorem backfilled_backfilled (record : ContextRow) :
    (record.backfilled reader).backfilled reader = record.backfilled reader := by
  by_cases hselect : record.toBackfill reader = true
  · have hrow : record.backfilled reader = _ := (if_pos hselect).trans (updateColumns_eq record)
    generalize record.backfilled reader = filled at hrow
    have hsame : filled.updateColumns (runnerRequestGitHubContextBackfill reader filled) =
        filled := by
      rw [updateColumns_eq, hrow]
      simp only [ContextRow.mk.injEq, true_and, and_true]
      exact ⟨by grind, merge_merge _ _⟩
    rw [ContextRow.backfilled, hsame, ite_self]
  · have hself : record.backfilled reader = record := if_neg hselect
    rw [hself, hself]

/-! ### What is shown -/

/-- A row that is marked has no use for its payload, should it be filled again: every link is in
its column or not in the payload, and an URL from the payload is the one that the row is shown
with. -/
def ContextRow.Settled (reader : PayloadReader) (record : ContextRow) : Prop :=
  let links := githubLinksFromPayload reader record
  record.githubContextBackfilled = true → record.toBackfill reader = true →
    (record.links.workflowRunID = 0 → links.workflowRunID = 0) ∧
    (record.links.workflowName = "" → links.workflowName = "") ∧
    (record.links.workflowRunAttempt = 0 → links.workflowRunAttempt = 0) ∧
    (record.links.headBranch = "" → links.headBranch = "") ∧
    (record.links.headSHA = "" → links.headSHA = "") ∧
    (record.links.pullRequestNumber = 0 → links.pullRequestNumber = 0) ∧
    (record.links.jobURL = "" → links.jobURL ≠ "" →
      appendPullRequestQuery links.jobURL record.links.pullRequestNumber =
        (record.shown record.links).jobURL)

theorem fill_eq_self {α : Type} [DecidableEq α] {zero column value : α}
    (h : column = zero → value = zero) : fill zero column value = column := by
  unfold fill
  split
  · rename_i hzero
    rw [h hzero, hzero]
  · rfl

/-- The context that a row is shown with is the same after its backfill. -/
theorem githubLinksFromRecord_backfilled {record : ContextRow} (h : record.Settled reader) :
    githubLinksFromRecord reader (record.backfilled reader) =
      githubLinksFromRecord reader record := by
  by_cases hselect : record.toBackfill reader = true
  · have hafter : githubLinksFromRecord reader (record.backfilled reader) = record.shown
        (mergeGitHubPayloadLinks record.links (githubLinksFromPayload reader record)) := by
      rw [ContextRow.backfilled, if_pos hselect, updateColumns_eq]
      rfl
    rw [hafter, githubLinksFromRecord]
    split
    · rename_i hmark
      obtain ⟨hrun, hname, hattempt, hbranch, hsha, hpull, hurl⟩ := h hmark hselect
      have hmerge : mergeGitHubPayloadLinks record.links (githubLinksFromPayload reader record) =
          { record.links with
            jobURL := fill "" record.links.jobURL
              (githubLinksFromPayload reader record).jobURL } := by
        simp only [mergeGitHubPayloadLinks, fill_eq_self hrun, fill_eq_self hname,
          fill_eq_self hattempt, fill_eq_self hbranch, fill_eq_self hsha, fill_eq_self hpull]
      by_cases hnew : record.links.jobURL = "" ∧ (githubLinksFromPayload reader record).jobURL ≠ ""
      · have hfill : fill "" record.links.jobURL (githubLinksFromPayload reader record).jobURL =
            (githubLinksFromPayload reader record).jobURL := if_pos hnew.1
        have hurl := hurl hnew.1 hnew.2
        rw [hmerge, hfill]
        simp only [ContextRow.shown, if_neg hnew.2] at hurl ⊢
        rw [hurl]
      · rw [hmerge, fill_eq_self fun hempty => by_contra fun hne => hnew ⟨hempty, hne⟩]
    · rfl
  · rw [ContextRow.backfilled, if_neg hselect]

/-- The backfill ends with every row filled that is to be. -/
theorem exists_backfill (reader : PayloadReader) (t : Table ContextRow.id) {batches : Nat}
    (h : t.rows.length < batches) :
    ∃ t', backfillRunnerRequestGitHubContext reader batches t = some t' ∧
      ∀ id, t'.find id = (t.find id).map (ContextRow.backfilled reader) := by
  refine exists_updateInBatches (fun _ => rfl) (by decide) (fun k => ?_)
    (lt_of_le_of_lt (List.length_filter_le _ _) (by rwa [List.length_map]))
  simp

/-- A payload that names an installation and a workflow. -/
def stalePayload : String :=
  "\x7b\"installation\":\x7b\"id\":1\x7d,\"workflow_job\":\x7b\"workflow_name\":\"stale\"\x7d\x7d"

def staleReader : PayloadReader where
  payload s := if s = stalePayload then { workflowJob := { workflowName := "stale" } } else {}
  installationID s := if s = stalePayload then 1 else 0
  mentionsInstallation s := contains s "\"installation\""

def staleRows (marked : Bool) : Table ContextRow.id :=
  Table.empty.insert
    { id := "a"
      githubContextBackfilled := marked
      githubPayloadJSON := stalePayload }

end CiRunner.State
