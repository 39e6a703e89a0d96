import CiRunner.Users.JobGroups
import Mathlib.Data.Finset.Max
import Mathlib.Data.Prod.Lex

/-! The groups of jobs do not depend on the order in which the jobs are read, if the commits of jobs
without a pull request have one at most and each group has a clear head. -/

namespace CiRunner.Users

open Tables

/-! ### The jobs of a group -/

/-- The visible jobs that get a key. -/
def groupJobs (states : List Job) (k : String) : List Job :=
  (states.filter isUserVisibleRunnerJob).filter fun st =>
    (st.seed (prByRepositoryAndSHA states)).key = k

/-- The jobs of other pull requests do not have the commit of a visible job without one, except for
one of them. -/
def PullRequestsClear (states : List Job) : Prop :=
  ∀ st ∈ states, isUserVisibleRunnerJob st = true → st.pullRequestNumber = 0 → st.headSHA ≠ "" →
    ∀ a ∈ states, ∀ b ∈ states, a.namesPullRequest → b.namesPullRequest →
      a.commit = st.commit → b.commit = st.commit → a.pullRequestNumber = b.pullRequestNumber

/-- The job that was updated last has a head commit, or there is only one among the jobs. -/
def HeadClear (jobs : List Job) : Prop :=
  ∀ newest ∈ jobs, (∀ st ∈ jobs, st.updatedAt ≤ newest.updatedAt) → newest.headSHA ≠ "" ∨
    ∀ a ∈ jobs, ∀ b ∈ jobs, a.headSHA ≠ "" → b.headSHA ≠ "" → a.headSHA = b.headSHA

theorem mem_groupJobs {states : List Job} {k : String} {st : Job} :
    st ∈ groupJobs states k ↔ st ∈ states ∧ isUserVisibleRunnerJob st = true ∧
      (st.seed (prByRepositoryAndSHA states)).key = k := by
  simp only [groupJobs, List.mem_filter, decide_eq_true_eq, and_assoc]

theorem PullRequestsClear.perm {states states' : List Job} (h : PullRequestsClear states)
    (hperm : states'.Perm states) : PullRequestsClear states' :=
  fun st hst hvisible hzero hsha a ha b hb =>
    h st (hperm.subset hst) hvisible hzero hsha a (hperm.subset ha) b (hperm.subset hb)

theorem HeadClear.perm {jobs jobs' : List Job} (h : HeadClear jobs) (hperm : jobs'.Perm jobs) :
    HeadClear jobs' := by
  intro newest hnewest hupper
  refine (h newest (hperm.subset hnewest) fun st hst => hupper st (hperm.symm.subset hst)).imp_right
    fun hsame a ha b hb => ?_
  exact hsame a (hperm.subset ha) b (hperm.subset hb)

section
variable {states states' : List Job} (hperm : states'.Perm states)
  (hclear : PullRequestsClear states)
include hperm hclear

theorem seed_of_perm {st : Job} (hst : st ∈ states) (hvisible : isUserVisibleRunnerJob st = true) :
    st.seed (prByRepositoryAndSHA states') = st.seed (prByRepositoryAndSHA states) := by
  have hnumber : st.groupNumber (prByRepositoryAndSHA states') =
      st.groupNumber (prByRepositoryAndSHA states) := by
    unfold Job.groupNumber
    split
    · rename_i hlookup
      have hclear := hclear st hst hvisible hlookup.1 hlookup.2
      obtain ⟨hzero, hnone⟩ | ⟨a, ha, hnames, hcommit, heq⟩ :=
        prByRepositoryAndSHA_cases states st.commit
      · obtain ⟨hzero', -⟩ | ⟨a', ha', hnames', hcommit', -⟩ :=
          prByRepositoryAndSHA_cases states' st.commit
        · rw [hzero, hzero']
        · exact absurd hcommit' (hnone a' (hperm.subset ha') hnames')
      · obtain ⟨-, hnone'⟩ | ⟨a', ha', hnames', hcommit', heq'⟩ :=
          prByRepositoryAndSHA_cases states' st.commit
        · exact absurd hcommit (hnone' a (hperm.symm.subset ha) hnames)
        · rw [heq, heq']
          exact hclear a' (hperm.subset ha') a ha hnames' hnames hcommit' hcommit
    · rfl
  rw [Job.seed, Job.seed, hnumber]

theorem groupJobs_perm (k : String) : (groupJobs states' k).Perm (groupJobs states k) := by
  have hkeys : groupJobs states' k = (states'.filter isUserVisibleRunnerJob).filter fun st =>
      (st.seed (prByRepositoryAndSHA states)).key = k := by
    refine List.filter_congr fun st hst => ?_
    rw [List.mem_filter] at hst
    rw [seed_of_perm hperm hclear (hperm.subset hst.1) hst.2]
  rw [hkeys]
  exact (hperm.filter _).filter _

end

/-! ### One group -/

theorem exists_latest {jobs : List Job} {p : Job → Prop} (h : ∃ job ∈ jobs, p job) :
    ∃ job ∈ jobs, p job ∧ ∀ other ∈ jobs, p other → other.updatedAt ≤ job.updatedAt := by
  classical
  obtain ⟨job, hjob, hp⟩ := h
  obtain ⟨latest, hlatest, hupper⟩ := Finset.exists_max_image (jobs.toFinset.filter p)
    (·.updatedAt) ⟨job, by simp [hjob, hp]⟩
  simp only [Finset.mem_filter, List.mem_toFinset] at hlatest hupper
  exact ⟨latest, hlatest.1, hlatest.2, fun other hother hp => hupper other ⟨hother, hp⟩⟩

/-- The head of a group is that of the job with a head that was updated last. -/
theorem Folded.latest {jobs : List Job} {g : JobGroup} (h : Folded jobs g)
    (hclear : HeadClear jobs) {job : Job} (hjob : job ∈ jobs) (hhead : job.headSHA ≠ "")
    (hlatest : ∀ other ∈ jobs, other.headSHA ≠ "" → other.updatedAt ≤ job.updatedAt) :
    g.headSHA = job.headSHA := by
  obtain ⟨newest, hnewest, htime⟩ := h.newest
  obtain hne | hsame := hclear newest hnewest fun st hst => htime ▸ h.upper st hst
  · have hle : g.updatedAt ≤ job.updatedAt := htime ▸ hlatest newest hnewest hne
    exact h.head_newest job hjob (le_antisymm (h.upper job hjob) hle) hhead
  · have hne := h.head_ne job hjob hhead
    obtain ⟨st, hst, heq⟩ := h.head_mem hne
    rw [← heq] at hne ⊢
    exact hsame st hst job hjob hne hhead

theorem Folded.headSHA_eq_empty {jobs : List Job} {g : JobGroup} (h : Folded jobs g)
    (hnone : ∀ job ∈ jobs, job.headSHA = "") : g.headSHA = "" := by
  by_contra hne
  obtain ⟨st, hst, heq⟩ := h.head_mem hne
  exact hne (heq ▸ hnone st hst)

/-- The workflow run of a job, and then its time. -/
def Job.rank (st : Job) : Int ×ₗ State.Time := toLex (st.workflowRunID, st.updatedAt)

theorem jobLess_eq_false_iff {a b : Job} : jobLess b a = false ↔ b.rank ≤ a.rank := by
  rw [Job.rank, Job.rank, Prod.Lex.toLex_le_toLex]
  unfold jobLess
  by_cases hrun : b.workflowRunID = a.workflowRunID
  · simp [hrun]
  · simp [hrun, le_iff_lt_or_eq]

theorem eq_of_updatedAt_eq {jobs : List Job} (htimes : (jobs.map (·.updatedAt)).Nodup) {a b : Job}
    (ha : a ∈ jobs) (hb : b ∈ jobs) (h : a.updatedAt = b.updatedAt) : a = b :=
  List.inj_on_of_nodup_map htimes ha hb h

theorem orderRunnerJobs_of_perm {jobs jobs' : List Job} (hperm : jobs'.Perm jobs)
    (htimes : (jobs.map (·.updatedAt)).Nodup) : orderRunnerJobs jobs' = orderRunnerJobs jobs := by
  let le := fun a b : Job => jobLess b a = false
  have : Std.Total le :=
    ⟨fun a b => (le_total b.rank a.rank).imp jobLess_eq_false_iff.mpr jobLess_eq_false_iff.mpr⟩
  have : IsTrans Job le := ⟨fun a b c hab hbc =>
    jobLess_eq_false_iff.mpr ((jobLess_eq_false_iff.mp hbc).trans (jobLess_eq_false_iff.mp hab))⟩
  have hsorted : ∀ jobs, (orderRunnerJobs jobs).Pairwise le := List.pairwise_insertionSort le
  have hsame : ∀ jobs, (orderRunnerJobs jobs).Perm jobs := List.perm_insertionSort le
  refine List.Perm.eq_of_pairwise ?_ (hsorted jobs') (hsorted jobs)
    (((hsame jobs').trans hperm).trans (hsame jobs).symm)
  intro a b ha hb hab hba
  have hrank : a.rank = b.rank :=
    le_antisymm (jobLess_eq_false_iff.mp hba) (jobLess_eq_false_iff.mp hab)
  exact eq_of_updatedAt_eq htimes (hperm.subset ((hsame jobs').subset ha)) ((hsame jobs).subset hb)
    (congrArg (fun rank => (ofLex rank).2) hrank)

structure GroupContent where
  key : String
  jobs : List Job
  currentJobs : List Job
  previousJobs : List Job
  headSHA : String
  updatedAt : State.Time
  deriving DecidableEq

def JobGroup.content (g : JobGroup) : GroupContent :=
  ⟨g.key, g.jobs, g.currentJobs, g.previousJobs, g.headSHA, g.updatedAt⟩

theorem currentRunnerGroupJobs_congr {g g' : JobGroup} (hhead : g'.headSHA = g.headSHA)
    (hruns : g'.workflowRunIDs = g.workflowRunIDs) (hjobs : g'.jobs = g.jobs) :
    currentRunnerGroupJobs g' = currentRunnerGroupJobs g := by
  unfold currentRunnerGroupJobs
  rw [hhead, hruns, hjobs]

theorem Folded.content_finish {jobs jobs' : List Job} {g g' : JobGroup} (h : Folded jobs g)
    (h' : Folded jobs' g') (hperm : jobs'.Perm jobs) (hkey : g'.key = g.key)
    (htimes : (jobs.map (·.updatedAt)).Nodup) (hclear : HeadClear jobs) :
    g'.finish.content = g.finish.content := by
  have hjobs : orderRunnerJobs g'.jobs = orderRunnerJobs g.jobs := by
    rw [h.jobs_eq, h'.jobs_eq]
    exact orderRunnerJobs_of_perm hperm htimes
  have htime : g'.updatedAt = g.updatedAt := by
    obtain ⟨newest, hnewest, heq⟩ := h.newest
    obtain ⟨newest', hnewest', heq'⟩ := h'.newest
    exact le_antisymm (heq' ▸ h.upper newest' (hperm.subset hnewest'))
      (heq ▸ h'.upper newest (hperm.symm.subset hnewest))
  have hruns : g'.workflowRunIDs.insertionSort (· ≥ ·) =
      g.workflowRunIDs.insertionSort (· ≥ ·) := by
    have hmem : g'.workflowRunIDs.Perm g.workflowRunIDs := by
      rw [List.perm_ext_iff_of_nodup h'.nodup_runs h.nodup_runs]
      intro id
      rw [h.mem_runs, h'.mem_runs]
      simp only [hperm.mem_iff]
    exact List.Perm.eq_of_pairwise (fun a b _ _ hab hba => le_antisymm hba hab)
      (List.pairwise_insertionSort _ _) (List.pairwise_insertionSort _ _)
      (((List.perm_insertionSort _ _).trans hmem).trans (List.perm_insertionSort _ _).symm)
  have hhead : g'.headSHA = g.headSHA := by
    by_cases hsome : ∃ job ∈ jobs, job.headSHA ≠ ""
    · obtain ⟨latest, hlatest, hne, hupper⟩ := exists_latest hsome
      rw [h.latest hclear hlatest hne hupper,
        h'.latest (hclear.perm hperm) (hperm.symm.subset hlatest) hne
          fun other hother => hupper other (hperm.subset hother)]
    · push Not at hsome
      rw [h.headSHA_eq_empty hsome,
        h'.headSHA_eq_empty fun job hjob => hsome job (hperm.subset hjob)]
  have hcurrent : currentRunnerGroupJobs g'.ordered = currentRunnerGroupJobs g.ordered :=
    currentRunnerGroupJobs_congr hhead hruns hjobs
  simp only [JobGroup.content, JobGroup.finish, hcurrent]
  simp only [JobGroup.ordered, hjobs, htime, hhead, hkey]

/-! ### All groups -/

theorem key_foldl_add (prs : String → Int) (jobs : List Job) (g : JobGroup) :
    (jobs.foldl (JobGroup.add prs) g).key = g.key := by
  induction jobs generalizing g with
  | nil => rfl
  | cons st jobs ih => exact ih _

section
variable {states : List Job}

theorem mem_groupsByKey {k : String} {g : JobGroup} :
    (k, g) ∈ groupsByKey states ↔
      gather (Job.seed (prByRepositoryAndSHA states)) (JobGroup.add (prByRepositoryAndSHA states))
        (groupJobs states k) = some g :=
  mem_collect ..

theorem exists_group {k : String} (h : groupJobs states k ≠ []) :
    ∃ g, (k, g) ∈ groupsByKey states := by
  simp only [mem_groupsByKey]
  cases hjobs : groupJobs states k with
  | nil => exact absurd hjobs h
  | cons st jobs => exact ⟨_, rfl⟩

theorem key_of_mem {k : String} {g : JobGroup} (h : (k, g) ∈ groupsByKey states) : g.key = k := by
  rw [mem_groupsByKey] at h
  cases hjobs : groupJobs states k with
  | nil =>
    rw [hjobs] at h
    cases h
  | cons st jobs =>
    rw [hjobs] at h
    cases h
    have hst : st ∈ groupJobs states k := by simp [hjobs]
    rw [key_foldl_add]
    exact (mem_groupJobs.mp hst).2.2

variable (htimes : (states.map (·.updatedAt)).Nodup)
include htimes

theorem nodup_updatedAt_groupJobs (k : String) : ((groupJobs states k).map (·.updatedAt)).Nodup :=
  htimes.sublist ((List.filter_sublist.trans List.filter_sublist).map _)

theorem folded_of_mem {k : String} {g : JobGroup} (h : (k, g) ∈ groupsByKey states) :
    Folded (groupJobs states k) g :=
  folded_of_gather (mem_groupsByKey.mp h) (nodup_updatedAt_groupJobs htimes k)

theorem group_eq_of_updatedAt {k k' : String} {g g' : JobGroup} (h : (k, g) ∈ groupsByKey states)
    (h' : (k', g') ∈ groupsByKey states) (htime : g.updatedAt = g'.updatedAt) : g = g' := by
  obtain ⟨st, hst, heq⟩ := (folded_of_mem htimes h).newest
  obtain ⟨st', hst', heq'⟩ := (folded_of_mem htimes h').newest
  rw [mem_groupJobs] at hst hst'
  cases eq_of_updatedAt_eq htimes hst.1 hst'.1 (by rw [heq, heq', htime])
  cases hst.2.2.symm.trans hst'.2.2
  rw [mem_groupsByKey] at h h'
  exact Option.some.inj (h.symm.trans h')

omit htimes in
theorem perm_runnerJobGroups :
    (runnerJobGroups states).Perm ((groupsByKey states).map fun group => group.2.finish) :=
  List.perm_insertionSort ..

omit htimes in
theorem mem_runnerJobGroups {g : JobGroup} :
    g ∈ runnerJobGroups states ↔ ∃ k g₀, (k, g₀) ∈ groupsByKey states ∧ g = g₀.finish := by
  rw [perm_runnerJobGroups.mem_iff, List.mem_map]
  simp only [Prod.exists, eq_comm]

omit htimes in
theorem pairwise_runnerJobGroups :
    (runnerJobGroups states).Pairwise fun a b => b.updatedAt ≤ a.updatedAt := by
  have : Std.Total fun a b : JobGroup => b.updatedAt ≤ a.updatedAt := ⟨fun a b => le_total ..⟩
  have : IsTrans JobGroup fun a b => b.updatedAt ≤ a.updatedAt :=
    ⟨fun _ _ _ hab hbc => hbc.trans hab⟩
  exact List.pairwise_insertionSort ..

omit htimes in
theorem nodup_content : ((runnerJobGroups states).map JobGroup.content).Nodup := by
  have hkeys : ((groupsByKey states).map fun group => group.2.finish).map JobGroup.key =
      (groupsByKey states).map Prod.fst := by
    rw [List.map_map]
    refine List.map_congr_left fun group hgroup => ?_
    have hkey : group.2.key = group.1 := key_of_mem hgroup
    exact hkey
  refine List.Nodup.of_map GroupContent.key ?_
  rw [List.map_map]
  refine (perm_runnerJobGroups.map JobGroup.key).nodup_iff.mpr ?_
  rw [hkeys]
  exact nodup_collect ..

/-- Whatever order the groups were taken in, there is one list of them with the newest first. -/
theorem runnerJobGroups_unique {groups : List JobGroup}
    (hperm : groups.Perm ((groupsByKey states).map fun group => group.2.finish))
    (hsorted : groups.Pairwise fun a b => b.updatedAt ≤ a.updatedAt) :
    groups = runnerJobGroups states := by
  refine List.Perm.eq_of_pairwise ?_ hsorted pairwise_runnerJobGroups
    (hperm.trans perm_runnerJobGroups.symm)
  intro a b ha hb hab hba
  obtain ⟨k, g, hg, rfl⟩ := mem_runnerJobGroups.mp ((perm_runnerJobGroups.symm.subset
    (hperm.subset ha)))
  obtain ⟨k', g', hg', rfl⟩ := mem_runnerJobGroups.mp hb
  exact congrArg JobGroup.finish (group_eq_of_updatedAt htimes hg hg' (le_antisymm hba hab))

end

section
variable {states states' : List Job} (hperm : states'.Perm states)
  (htimes : (states.map (·.updatedAt)).Nodup) (hclear : PullRequestsClear states)
  (hheads : ∀ k, HeadClear (groupJobs states k))
include hperm htimes hclear hheads

theorem exists_content {k : String} {g : JobGroup} (h : (k, g) ∈ groupsByKey states) :
    ∃ g', (k, g') ∈ groupsByKey states' ∧ g'.finish.content = g.finish.content := by
  have htimes' : (states'.map (·.updatedAt)).Nodup := (hperm.map _).nodup_iff.mpr htimes
  have hfolded := folded_of_mem htimes h
  have hjobs := groupJobs_perm hperm hclear k
  have hne : groupJobs states' k ≠ [] := by
    obtain ⟨st, hst, -⟩ := hfolded.newest
    exact List.ne_nil_of_mem (hjobs.symm.subset hst)
  obtain ⟨g', hg'⟩ := exists_group hne
  exact ⟨g', hg', hfolded.content_finish (folded_of_mem htimes' hg') hjobs
    ((key_of_mem hg').trans (key_of_mem h).symm) (nodup_updatedAt_groupJobs htimes k) (hheads k)⟩

/-- The groups are the same in whatever order the jobs are read. -/
theorem content_runnerJobGroups :
    (runnerJobGroups states').map JobGroup.content =
      (runnerJobGroups states).map JobGroup.content := by
  have htimes' : (states'.map (·.updatedAt)).Nodup := (hperm.map _).nodup_iff.mpr htimes
  have hheads' : ∀ k, HeadClear (groupJobs states' k) :=
    fun k => (hheads k).perm (groupJobs_perm hperm hclear k)
  have hsub : ∀ {l l' : List Job}, (∀ k g, (k, g) ∈ groupsByKey l →
      ∃ g', (k, g') ∈ groupsByKey l' ∧ g'.finish.content = g.finish.content) →
      (runnerJobGroups l).map JobGroup.content ⊆ (runnerJobGroups l').map JobGroup.content := by
    intro l l' hexists x hx
    obtain ⟨g, hg, rfl⟩ := List.mem_map.mp hx
    obtain ⟨k, g₀, hg₀, rfl⟩ := mem_runnerJobGroups.mp hg
    obtain ⟨g', hg', heq⟩ := hexists k g₀ hg₀
    exact List.mem_map.mpr ⟨_, mem_runnerJobGroups.mpr ⟨k, g', hg', rfl⟩, heq⟩
  have hsame : ((runnerJobGroups states').map JobGroup.content).Perm
      ((runnerJobGroups states).map JobGroup.content) := by
    refine (List.perm_ext_iff_of_nodup nodup_content nodup_content).mpr fun x => ⟨?_, ?_⟩
    · exact fun hx => hsub (fun k g hg => exists_content hperm.symm htimes'
        (hclear.perm hperm) hheads' hg) hx
    · exact fun hx => hsub (fun k g hg => exists_content hperm htimes hclear hheads hg) hx
  have hsorted : ∀ l : List Job, ((runnerJobGroups l).map JobGroup.content).Pairwise
      fun a b => b.updatedAt ≤ a.updatedAt :=
    fun l => List.pairwise_map.mpr pairwise_runnerJobGroups
  refine List.Perm.eq_of_pairwise ?_ (hsorted states') (hsorted states) hsame
  intro a b ha hb hab hba
  obtain ⟨_, hfirst, rfl⟩ := List.mem_map.mp (hsame.subset ha)
  obtain ⟨_, hsecond, rfl⟩ := List.mem_map.mp hb
  obtain ⟨k, g, hg, rfl⟩ := mem_runnerJobGroups.mp hfirst
  obtain ⟨k', g', hg', rfl⟩ := mem_runnerJobGroups.mp hsecond
  have htime : g.updatedAt = g'.updatedAt := le_antisymm hba hab
  rw [group_eq_of_updatedAt htimes hg hg' htime]

end

/-! ### Current and previous jobs -/

theorem filterNonEmpty_eq_some {p : Job → Bool} {jobs current : List Job}
    (h : filterNonEmpty p jobs = some current) : current = jobs.filter p ∧ current ≠ [] := by
  unfold filterNonEmpty at h
  split at h
  · cases h
  · rename_i hne
    cases h
    exact ⟨rfl, hne⟩

theorem exists_filter_current (g : JobGroup) (hne : g.jobs ≠ []) :
    ∃ p : Job → Bool, currentRunnerGroupJobs g = g.jobs.filter p ∧
      currentRunnerGroupJobs g ≠ [] := by
  simp only [currentRunnerGroupJobs]
  generalize hhead : (if g.headSHA ≠ "" then
    filterNonEmpty (fun job => job.headSHA = g.headSHA) g.jobs else none) = ofHead
  cases ofHead with
  | some current =>
    split at hhead
    · obtain ⟨rfl, hcurrent⟩ := filterNonEmpty_eq_some hhead
      exact ⟨_, rfl, hcurrent⟩
    · cases hhead
  | none =>
    generalize hrun : (g.workflowRunIDs.head?.bind fun latestRunID =>
      filterNonEmpty (fun job => job.workflowRunID = latestRunID) g.jobs) = ofRun
    cases ofRun with
    | some current =>
      obtain ⟨latestRunID, -, hfilter⟩ := Option.bind_eq_some_iff.mp hrun
      obtain ⟨rfl, hcurrent⟩ := filterNonEmpty_eq_some hfilter
      exact ⟨_, rfl, hcurrent⟩
    | none => exact ⟨fun _ => true, (List.filter_true _).symm, hne⟩

theorem perm_current_previous {jobs : List Job} (hids : (jobs.map (·.id)).Nodup) (p : Job → Bool) :
    (jobs.filter p ++ previousRunnerGroupJobs jobs (jobs.filter p)).Perm jobs := by
  have hprevious : previousRunnerGroupJobs jobs (jobs.filter p) = jobs.filter fun job => !p job := by
    refine List.filter_congr fun job hjob => ?_
    have hmem : job.id ∈ (jobs.filter p).map (·.id) ↔ p job = true := by
      constructor
      · intro hid
        obtain ⟨other, hother, heq⟩ := List.mem_map.mp hid
        rw [List.mem_filter] at hother
        rw [← List.inj_on_of_nodup_map hids hother.1 hjob heq]
        exact hother.2
      · exact fun hp => List.mem_map_of_mem (List.mem_filter.mpr ⟨hjob, hp⟩)
    simp only [hmem]
    cases p job <;> rfl
  rw [hprevious]
  exact List.filter_append_perm p jobs

/-! ### The whole list -/

theorem perm_orderRunnerJobs (jobs : List Job) : (orderRunnerJobs jobs).Perm jobs :=
  List.perm_insertionSort ..

/-- A group of the list, with the jobs that it was folded from. -/
theorem exists_folded {states : List Job} (htimes : (states.map (·.updatedAt)).Nodup) {g : JobGroup}
    (h : g ∈ runnerJobGroups states) :
    ∃ k g₀, (k, g₀) ∈ groupsByKey states ∧ Folded (groupJobs states k) g₀ ∧ g = g₀.finish ∧
      g.jobs.Perm (groupJobs states k) := by
  obtain ⟨k, g₀, hg₀, rfl⟩ := mem_runnerJobGroups.mp h
  have hfolded := folded_of_mem htimes hg₀
  exact ⟨k, g₀, hg₀, hfolded, rfl, hfolded.jobs_eq ▸ perm_orderRunnerJobs g₀.jobs⟩

theorem existsUnique_group {states : List Job} (htimes : (states.map (·.updatedAt)).Nodup) {st : Job}
    (hst : st ∈ states) (hvisible : isUserVisibleRunnerJob st = true) :
    ∃! g, g ∈ runnerJobGroups states ∧ st ∈ g.jobs := by
  have hmem : st ∈ groupJobs states (st.seed (prByRepositoryAndSHA states)).key :=
    mem_groupJobs.mpr ⟨hst, hvisible, rfl⟩
  obtain ⟨g, hg⟩ := exists_group (List.ne_nil_of_mem hmem)
  refine ⟨g.finish, ⟨mem_runnerJobGroups.mpr ⟨_, g, hg, rfl⟩, ?_⟩, ?_⟩
  · refine (perm_orderRunnerJobs g.jobs).symm.subset ?_
    rw [(folded_of_mem htimes hg).jobs_eq]
    exact hmem
  · rintro g' ⟨hg', hst'⟩
    obtain ⟨k, g₀, hg₀, -, rfl, hjobs⟩ := exists_folded htimes hg'
    have hkey := (mem_groupJobs.mp (hjobs.subset hst')).2.2
    subst hkey
    rw [mem_groupsByKey] at hg hg₀
    cases hg.symm.trans hg₀
    rfl

theorem perm_current_previous_of_mem {states : List Job} (hids : (states.map (·.id)).Nodup)
    (htimes : (states.map (·.updatedAt)).Nodup) {g : JobGroup} (h : g ∈ runnerJobGroups states) :
    (g.currentJobs ++ g.previousJobs).Perm g.jobs ∧ g.currentJobs ≠ [] := by
  obtain ⟨k, g₀, -, hfolded, rfl, hjobs⟩ := exists_folded htimes h
  have hids' : (g₀.finish.jobs.map (·.id)).Nodup :=
    (hjobs.map _).nodup_iff.mpr
      (hids.sublist ((List.filter_sublist.trans List.filter_sublist).map _))
  have hne : g₀.finish.jobs ≠ [] := by
    obtain ⟨st, hst, -⟩ := hfolded.newest
    exact List.ne_nil_of_mem (hjobs.symm.subset hst)
  obtain ⟨p, hcurrent, hsome⟩ := exists_filter_current g₀.ordered hne
  have hcurrent : g₀.finish.currentJobs = g₀.finish.jobs.filter p := hcurrent
  have hprevious : g₀.finish.previousJobs =
      previousRunnerGroupJobs g₀.finish.jobs g₀.finish.currentJobs := rfl
  refine ⟨?_, hsome⟩
  rw [hprevious, hcurrent]
  exact perm_current_previous hids' p

end CiRunner.Users
