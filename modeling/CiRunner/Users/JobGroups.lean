import CiRunner.State.Record
import CiRunner.Tables.Groups
import Mathlib.Data.List.Sort
import Mathlib.Logic.Function.Basic

/-! The jobs of a user, grouped by pull request, by branch and commit, by workflow run or alone. The
groups are folded from the list of the jobs in one pass, after a first one that looks for the pull
requests of commits. -/

namespace CiRunner.Users

open Tables Text
open CiRunner.State (Time)

structure Job extends State.RunnerState where
  profileName : String := ""
  workflowRunID : Int := 0
  workflowName : String := ""
  headBranch : String := ""
  headSHA : String := ""
  pullRequestNumber : Int := 0
  deriving DecidableEq, Repr

inductive GroupKind where
  | pullRequest
  | branch
  | workflowRun
  | manual
  deriving DecidableEq, Repr

structure JobGroup where
  key : String
  group : GroupKind
  repository : String
  title : String
  subtitle : String
  updatedAt : Time
  jobs : List Job
  currentJobs : List Job := []
  previousJobs : List Job := []
  workflowRunIDs : List Int
  headSHA : String := ""
  headBranch : String := ""
  pullRequestNumber : Int := 0
  deriving DecidableEq, Repr

def firstNonEmpty (values : List String) : String :=
  (values.find? fun value => trimSpace value ≠ "").getD ""

def shortSHA (value : String) : String :=
  if value.toList.length > 7 then String.ofList (value.toList.take 7) else value

def isUserVisibleRunnerJob (st : Job) : Bool :=
  !(st.failureStage = some .admission ∧ st.failureReason = "profile_labels_not_matched")

def runnerJobGroupSeed (st : Job) (repository : String) (pullRequestNumber : Int) : JobGroup :=
  let workflowRunIDs := if st.workflowRunID ≠ 0 then [st.workflowRunID] else []
  if pullRequestNumber ≠ 0 then
    { key := "pr:" ++ repository ++ ":" ++ toString pullRequestNumber
      group := .pullRequest
      repository := repository
      title := "PR #" ++ toString pullRequestNumber
      subtitle := firstNonEmpty
        [st.headBranch, shortSHA st.headSHA, st.workflowName, "Pull request checks"]
      updatedAt := st.updatedAt
      jobs := [st]
      workflowRunIDs := workflowRunIDs
      headSHA := st.headSHA
      headBranch := st.headBranch
      pullRequestNumber := pullRequestNumber }
  else if st.headSHA ≠ "" then
    { key := "branch:" ++ repository ++ ":" ++ firstNonEmpty [st.headBranch, "detached"] ++ ":" ++
        st.headSHA
      group := .branch
      repository := repository
      title := firstNonEmpty [st.headBranch, "Commit " ++ shortSHA st.headSHA]
      subtitle := firstNonEmpty [shortSHA st.headSHA, st.workflowName, "Branch checks"]
      updatedAt := st.updatedAt
      jobs := [st]
      workflowRunIDs := workflowRunIDs
      headSHA := st.headSHA
      headBranch := st.headBranch }
  else if st.workflowRunID ≠ 0 then
    { key := "run:" ++ repository ++ ":" ++ toString st.workflowRunID
      group := .workflowRun
      repository := repository
      title := firstNonEmpty [st.workflowName, "Workflow run"]
      subtitle := "Run " ++ toString st.workflowRunID
      updatedAt := st.updatedAt
      jobs := [st]
      workflowRunIDs := workflowRunIDs }
  else
    { key := "manual:" ++ repository ++ ":" ++ st.id
      group := .manual
      repository := repository
      title := "Manual runner"
      subtitle := firstNonEmpty [st.profileName, st.runnerName, st.id]
      updatedAt := st.updatedAt
      jobs := [st]
      workflowRunIDs := workflowRunIDs }

/-! ### Folding the groups -/

/-- The number that a job writes for its commit, if it has both. -/
def Job.namesPullRequest (st : Job) : Prop :=
  st.repositoryFullName ≠ "" ∧ st.headSHA ≠ "" ∧ st.pullRequestNumber ≠ 0

instance (st : Job) : Decidable st.namesPullRequest :=
  inferInstanceAs (Decidable (_ ∧ _ ∧ _))

/-- The pull requests of commits, zero for one that has none; the last job that has one counts. -/
def prByRepositoryAndSHA (states : List Job) : String → Int :=
  states.foldl (fun prs st =>
    if st.namesPullRequest then
      Function.update prs (st.repositoryFullName ++ ":" ++ st.headSHA) st.pullRequestNumber
    else prs) fun _ => 0

def Job.repository (st : Job) : String :=
  if st.repositoryFullName = "" then "unknown/repository" else st.repositoryFullName

def Job.commit (st : Job) : String := st.repository ++ ":" ++ st.headSHA

def Job.groupNumber (prs : String → Int) (st : Job) : Int :=
  if st.pullRequestNumber = 0 ∧ st.headSHA ≠ "" then prs st.commit else st.pullRequestNumber

def Job.seed (prs : String → Int) (st : Job) : JobGroup :=
  runnerJobGroupSeed st st.repository (st.groupNumber prs)

/-- A head that follows that of a newer job, if it has one, and of any job as long as it is
empty. -/
def followHead (newer : Bool) (current head : String) : String :=
  let current := if newer ∧ head ≠ "" then head else current
  if head ≠ "" ∧ current = "" then head else current

def JobGroup.add (prs : String → Int) (current : JobGroup) (st : Job) : JobGroup :=
  let newer := decide (current.updatedAt < st.updatedAt)
  { current with
    jobs := current.jobs ++ [st]
    updatedAt := if newer then st.updatedAt else current.updatedAt
    subtitle := if newer then (st.seed prs).subtitle else current.subtitle
    headSHA := followHead newer current.headSHA st.headSHA
    headBranch := followHead newer current.headBranch st.headBranch
    workflowRunIDs :=
      if st.workflowRunID ≠ 0 ∧ st.workflowRunID ∉ current.workflowRunIDs then
        current.workflowRunIDs ++ [st.workflowRunID]
      else current.workflowRunIDs }

/-! ### Ordering the groups -/

/-- Later workflow runs come first, and newer jobs of the same run. -/
def jobLess (a b : Job) : Bool :=
  if a.workflowRunID ≠ b.workflowRunID then b.workflowRunID < a.workflowRunID
  else b.updatedAt < a.updatedAt

def orderRunnerJobs (jobs : List Job) : List Job :=
  jobs.insertionSort fun a b => jobLess b a = false

/-- The jobs that meet a condition, if there are any. -/
def filterNonEmpty (p : Job → Bool) (jobs : List Job) : Option (List Job) :=
  if jobs.filter p = [] then none else some (jobs.filter p)

/-- The jobs of the head commit, else those of the last workflow run, else all. -/
def currentRunnerGroupJobs (group : JobGroup) : List Job :=
  let ofHead :=
    if group.headSHA ≠ "" then filterNonEmpty (fun job => job.headSHA = group.headSHA) group.jobs
    else none
  let ofRun := group.workflowRunIDs.head?.bind fun latestRunID =>
    filterNonEmpty (fun job => job.workflowRunID = latestRunID) group.jobs
  (ofHead.or ofRun).getD group.jobs

def previousRunnerGroupJobs (jobs currentJobs : List Job) : List Job :=
  jobs.filter fun job => job.id ∉ currentJobs.map (·.id)

def JobGroup.ordered (group : JobGroup) : JobGroup :=
  { group with
    workflowRunIDs := group.workflowRunIDs.insertionSort (· ≥ ·)
    jobs := orderRunnerJobs group.jobs }

def JobGroup.finish (group : JobGroup) : JobGroup :=
  let currentJobs := currentRunnerGroupJobs group.ordered
  { group.ordered with
    currentJobs := currentJobs
    previousJobs := previousRunnerGroupJobs group.ordered.jobs currentJobs }

/-- The groups by their keys, as far as they are folded. -/
def groupsByKey (states : List Job) : List (String × JobGroup) :=
  let prs := prByRepositoryAndSHA states
  collect (fun st => (st.seed prs).key) (Job.seed prs) (JobGroup.add prs)
    (states.filter isUserVisibleRunnerJob)

def runnerJobGroups (states : List Job) : List JobGroup :=
  ((groupsByKey states).map fun group => group.2.finish).insertionSort
    fun a b => b.updatedAt ≤ a.updatedAt

/-! ### The pull request of a commit -/

/-- What is looked up for a commit is the number of a job that has it, or zero if there is none. -/
theorem prByRepositoryAndSHA_cases (states : List Job) (commit : String) :
    (prByRepositoryAndSHA states commit = 0 ∧
        ∀ st ∈ states, st.namesPullRequest → st.commit ≠ commit) ∨
      ∃ st ∈ states, st.namesPullRequest ∧ st.commit = commit ∧
        prByRepositoryAndSHA states commit = st.pullRequestNumber := by
  induction states using List.reverseRecOn with
  | nil => exact .inl ⟨rfl, by simp⟩
  | append_singleton states st ih =>
    have hcommit : st.namesPullRequest →
        st.repositoryFullName ++ ":" ++ st.headSHA = st.commit := by
      rintro ⟨hrepository, -, -⟩
      rw [Job.commit, Job.repository, if_neg hrepository]
    rw [prByRepositoryAndSHA, List.foldl_append, ← prByRepositoryAndSHA]
    simp only [List.foldl_cons, List.foldl_nil]
    by_cases hlast : st.namesPullRequest ∧ st.commit = commit
    · obtain ⟨hnames, rfl⟩ := hlast
      refine .inr ⟨st, by simp, hnames, rfl, ?_⟩
      rw [if_pos hnames, hcommit hnames, Function.update_self]
    -- The last job writes nothing, or for another commit.
    have hkeep : (if st.namesPullRequest then
        Function.update (prByRepositoryAndSHA states)
          (st.repositoryFullName ++ ":" ++ st.headSHA) st.pullRequestNumber
        else prByRepositoryAndSHA states) commit = prByRepositoryAndSHA states commit := by
      split
      · rename_i hnames
        rw [hcommit hnames, Function.update_of_ne fun heq => hlast ⟨hnames, heq.symm⟩]
      · rfl
    rw [hkeep]
    obtain ⟨hzero, hnone⟩ | ⟨other, hother, hnames⟩ := ih
    · refine .inl ⟨hzero, fun other hother hnames heq => ?_⟩
      obtain hother | hother := List.mem_append.mp hother
      · exact hnone other hother hnames heq
      · rw [List.mem_singleton] at hother
        subst hother
        exact hlast ⟨hnames, heq⟩
    · exact .inr ⟨other, by simp [hother], hnames⟩

/-! ### What a fold leaves -/

/-- What a group knows of the jobs that were added to it, in order. -/
structure Folded (jobs : List Job) (g : JobGroup) : Prop where
  jobs_eq : g.jobs = jobs
  newest : ∃ st ∈ jobs, st.updatedAt = g.updatedAt
  upper : ∀ st ∈ jobs, st.updatedAt ≤ g.updatedAt
  mem_runs : ∀ id, id ∈ g.workflowRunIDs ↔ id ≠ 0 ∧ ∃ st ∈ jobs, st.workflowRunID = id
  nodup_runs : g.workflowRunIDs.Nodup
  head_mem : g.headSHA ≠ "" → ∃ st ∈ jobs, st.headSHA = g.headSHA
  head_ne : ∀ st ∈ jobs, st.headSHA ≠ "" → g.headSHA ≠ ""
  head_newest : ∀ st ∈ jobs, st.updatedAt = g.updatedAt → st.headSHA ≠ "" →
    g.headSHA = st.headSHA

theorem seed_facts (prs : String → Int) (st : Job) :
    (st.seed prs).jobs = [st] ∧ (st.seed prs).updatedAt = st.updatedAt ∧
      (st.seed prs).headSHA = st.headSHA ∧
      (st.seed prs).workflowRunIDs = if st.workflowRunID ≠ 0 then [st.workflowRunID] else [] := by
  unfold Job.seed runnerJobGroupSeed
  generalize (if st.workflowRunID ≠ 0 then [st.workflowRunID] else []) = runIDs
  dsimp only
  by_cases hnumber : st.groupNumber prs ≠ 0
  · rw [if_pos hnumber]
    exact ⟨rfl, rfl, rfl, rfl⟩
  rw [if_neg hnumber]
  by_cases hsha : st.headSHA ≠ ""
  · rw [if_pos hsha]
    exact ⟨rfl, rfl, rfl, rfl⟩
  rw [if_neg hsha]
  rw [not_not] at hsha
  split
  · exact ⟨rfl, rfl, hsha.symm, rfl⟩
  · exact ⟨rfl, rfl, hsha.symm, rfl⟩

theorem folded_seed (prs : String → Int) (st : Job) : Folded [st] (st.seed prs) := by
  obtain ⟨hjobs, htime, hsha, hruns⟩ := seed_facts prs st
  constructor
  case jobs_eq => exact hjobs
  case newest => exact ⟨st, by simp, htime.symm⟩
  case upper => simp [htime]
  case mem_runs =>
    intro id
    rw [hruns]
    by_cases h : st.workflowRunID = 0 <;> simp [h] <;> grind
  case nodup_runs =>
    rw [hruns]
    split <;> simp
  case head_mem => simp [hsha]
  case head_ne => simp [hsha]
  case head_newest => simp [hsha]

theorem followHead_eq (newer : Bool) (current head : String) :
    followHead newer current head = if head ≠ "" ∧ (newer = true ∨ current = "") then head
      else current := by
  unfold followHead
  by_cases hhead : head = ""
  · simp [hhead]
  · cases newer <;> simp [hhead]

theorem updatedAt_add (prs : String → Int) (g : JobGroup) (st : Job) :
    (g.add prs st).updatedAt = if g.updatedAt < st.updatedAt then st.updatedAt else g.updatedAt := by
  simp [JobGroup.add]

theorem headSHA_add (prs : String → Int) (g : JobGroup) (st : Job) :
    (g.add prs st).headSHA =
      if st.headSHA ≠ "" ∧ (g.updatedAt < st.updatedAt ∨ g.headSHA = "") then st.headSHA
      else g.headSHA := by
  simp [JobGroup.add, followHead_eq]

/-- One more job, updated at another time than those before it. -/
theorem Folded.add {prs : String → Int} {jobs : List Job} {g : JobGroup} {st : Job}
    (h : Folded jobs g) (htime : ∀ other ∈ jobs, other.updatedAt ≠ st.updatedAt) :
    Folded (jobs ++ [st]) (g.add prs st) := by
  have hne : g.updatedAt ≠ st.updatedAt := by
    obtain ⟨other, hother, heq⟩ := h.newest
    exact heq ▸ htime other hother
  constructor
  case jobs_eq => rw [JobGroup.add, h.jobs_eq]
  case newest =>
    rw [updatedAt_add]
    split
    · exact ⟨st, by simp, rfl⟩
    · obtain ⟨other, hother, heq⟩ := h.newest
      exact ⟨other, by simp [hother], heq⟩
  case upper =>
    intro other hother
    rw [updatedAt_add]
    obtain hother | hother := List.mem_append.mp hother
    · have hle := h.upper other hother
      split
      · rename_i hlt
        exact hle.trans hlt.le
      · exact hle
    · rw [List.mem_singleton] at hother
      subst hother
      split
      · exact le_rfl
      · rename_i hnot
        exact not_lt.mp hnot
  case mem_runs =>
    intro id
    simp only [JobGroup.add, List.mem_append, List.mem_singleton]
    split
    · rename_i hnew
      rw [List.mem_append, List.mem_singleton, h.mem_runs]
      grind
    · rename_i hold
      have hmem := h.mem_runs st.workflowRunID
      rw [h.mem_runs]
      grind
  case nodup_runs =>
    simp only [JobGroup.add]
    split
    · rename_i hnew
      exact h.nodup_runs.append (List.nodup_singleton _) (by simpa using hnew.2)
    · exact h.nodup_runs
  case head_mem =>
    rw [headSHA_add]
    intro hhead
    split at hhead
    · rename_i hst
      exact ⟨st, by simp, by rw [if_pos hst]⟩
    · rename_i hst
      obtain ⟨other, hother, heq⟩ := h.head_mem hhead
      exact ⟨other, by simp [hother], by rw [if_neg hst, heq]⟩
  case head_ne =>
    intro other hother hhead
    rw [headSHA_add]
    split
    · rename_i hst
      exact hst.1
    · rename_i hst
      obtain hother | hother := List.mem_append.mp hother
      · exact h.head_ne other hother hhead
      · rw [List.mem_singleton] at hother
        subst hother
        exact fun hempty => hst ⟨hhead, .inr hempty⟩
  case head_newest =>
    intro other hother hnewest hhead
    rw [updatedAt_add] at hnewest
    rw [headSHA_add]
    obtain hother | hother := List.mem_append.mp hother
    · have hle := h.upper other hother
      have hnot : ¬ g.updatedAt < st.updatedAt := by
        intro hlt
        rw [if_pos hlt] at hnewest
        exact absurd hle (not_le.mpr (hnewest ▸ hlt))
      rw [if_neg hnot] at hnewest
      have hold := h.head_newest other hother hnewest hhead
      rw [if_neg, hold]
      rintro ⟨-, hlt | hempty⟩
      · exact hnot hlt
      · exact hhead (hold ▸ hempty)
    · rw [List.mem_singleton] at hother
      subst hother
      have hlt : g.updatedAt < other.updatedAt := by
        by_contra hnot
        rw [if_neg hnot] at hnewest
        exact hne hnewest.symm
      rw [if_pos ⟨hhead, .inl hlt⟩]

theorem folded_of_gather {prs : String → Int} {jobs : List Job} {g : JobGroup}
    (hg : gather (Job.seed prs) (JobGroup.add prs) jobs = some g)
    (htimes : (jobs.map (·.updatedAt)).Nodup) : Folded jobs g := by
  induction jobs using List.reverseRecOn generalizing g with
  | nil => cases hg
  | append_singleton jobs st ih =>
    rw [gather_concat] at hg
    rw [List.map_append, List.nodup_append] at htimes
    cases hold : gather (Job.seed prs) (JobGroup.add prs) jobs with
    | none =>
      rw [hold] at hg
      cases hg
      cases jobs with
      | nil => exact folded_seed prs st
      | cons => cases hold
    | some g₀ =>
      rw [hold] at hg
      cases hg
      refine (ih hold htimes.1).add fun other hother heq => ?_
      exact htimes.2.2 _ (List.mem_map_of_mem hother) _ (by simp) heq

end CiRunner.Users
