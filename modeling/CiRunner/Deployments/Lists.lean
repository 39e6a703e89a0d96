import Mathlib.Algebra.BigOperators.Group.List.Lemmas
import Mathlib.Data.Prod.Lex
import CiRunner.Deployments.Store
import CiRunner.State.Access
import CiRunner.Tables.Merges

/-! Lists of deployments for a user. The list can be filtered by repository, by the ref or the
commit of a revision, and by groups of statuses; beside a page it gives the number of
deployments in each group. The total is added up from these numbers, by reading the
filter a second time. -/

namespace CiRunner.Deployments

open Tables Text
open CiRunner.State (Time Lowering RepositoryAccess normalizeRepositoryAccess Granted
  granted_of_mem_normalize)

/-! ### Status filters -/

/-- The groups of statuses that a list can be filtered by. -/
inductive StatusGroup where
  | running | processing | stopped | failed
  deriving DecidableEq, Repr

namespace StatusGroup

def text : StatusGroup → String
  | .running => "running"
  | .processing => "processing"
  | .stopped => "stopped"
  | .failed => "failed"

def statuses : StatusGroup → List DeploymentStatus
  | .running => [.running]
  | .processing => [.queued, .planning, .creating, .stopping]
  | .stopped => [.completed, .expired]
  | .failed => [.failed]

/-- The group with the given name. -/
def ofText (s : String) : Option StatusGroup :=
  [running, processing, stopped, failed].find? (·.text = s)

end StatusGroup

def splitComma (s : String) : List String := (s.toList.splitOn ',').map String.ofList

def statusValues (seen : List String) : List String → Option (List DeploymentStatus)
  | [] => some []
  | group :: groups =>
    if seen.contains group then none
    else
      match StatusGroup.ofText group with
      | none => none
      | some g => (statusValues (group :: seen) groups).map (g.statuses ++ ·)

/-- The statuses of a filter; none means all. -/
def deploymentListStatusValues (status : String) : Option (List DeploymentStatus) :=
  if status = "" ∨ status = "all" then some [] else statusValues [] (splitComma status)

/-! ### Queries -/

structure DeploymentListOptions where
  repositoryFullName : String := ""
  ref : String := ""
  commitSHA : String := ""
  status : String := ""
  limit : Int := 0
  offset : Int := 0

structure DeploymentStatusCounts where
  all : Nat := 0
  running : Nat := 0
  processing : Nat := 0
  stopped : Nat := 0
  failed : Nat := 0
  deriving DecidableEq, Repr

inductive ListError where
  | pagination | statusFilter | notFound
  deriving DecidableEq, Repr

def ListError.text : ListError → String
  | .pagination => "deployment pagination is invalid"
  | .statusFilter => "invalid deployment status filter"
  | .notFound => "state record not found"

def normalizeDeploymentPagination (options : DeploymentListOptions) :
    Except ListError (Nat × Nat) :=
  let limit := if options.limit = 0 then 100 else options.limit
  if limit < 0 ∨ 500 < limit ∨ options.offset < 0 then .error .pagination
  else .ok (limit.toNat, options.offset.toNat)

variable (fold : Lowering) (access : List RepositoryAccess)

def authorizedDeploymentRepositories (d : Deployment) : Bool :=
  (normalizeRepositoryAccess fold access).any fun item =>
    item.installationID = d.githubInstallationID &&
      item.repositories.contains (toLower d.repositoryFullName)

/-- The revision matches the filter on the source. -/
def DeploymentListOptions.selectsRevision (options : DeploymentListOptions) (r : Revision) : Bool :=
  (options.ref = "" || r.plan.ref = options.ref) &&
    (options.commitSHA = "" || r.plan.commitSHA = options.commitSHA)

/-- The list is filtered by a ref or a commit. -/
def DeploymentListOptions.matchingRevision (options : DeploymentListOptions) : Bool :=
  options.ref ≠ "" || options.commitSHA ≠ ""

namespace Store

variable (st : Store) (options : DeploymentListOptions)

/-- The deployments that are listed, whatever their status. -/
def deploymentListQuery (d : Deployment) : Bool :=
  (options.repositoryFullName = "" ||
      toLower d.repositoryFullName = fold.lower options.repositoryFullName) &&
    (!options.matchingRevision ||
      st.revisions.rows.any fun r => r.deploymentID = d.id && options.selectsRevision r) &&
    authorizedDeploymentRepositories fold access d

/-- The number of deployments with each status that occurs. -/
def statusTotals : List (DeploymentStatus × Nat) :=
  let statuses := (st.deployments.rows.filter (st.deploymentListQuery fold access options)).map
    Deployment.status
  statuses.dedup.map fun status => (status, statuses.count status)

end Store

def DeploymentStatusCounts.add (counts : DeploymentStatusCounts) :
    DeploymentStatus × Nat → DeploymentStatusCounts
  | (status, total) =>
    let counts := { counts with all := counts.all + total }
    match status with
    | .running => { counts with running := counts.running + total }
    | .queued | .planning | .creating | .stopping =>
      { counts with processing := counts.processing + total }
    | .completed | .expired => { counts with stopped := counts.stopped + total }
    | .failed => { counts with failed := counts.failed + total }

def DeploymentStatusCounts.get (counts : DeploymentStatusCounts) : StatusGroup → Nat
  | .running => counts.running
  | .processing => counts.processing
  | .stopped => counts.stopped
  | .failed => counts.failed

/-- The number for a part of the filter. -/
def DeploymentStatusCounts.ofGroup (counts : DeploymentStatusCounts) (group : String) : Nat :=
  match StatusGroup.ofText group with
  | some g => counts.get g
  | none => 0

/-- The place of a deployment on the list of all: what runs comes first, then what is under way. -/
def DeploymentStatus.rank : DeploymentStatus → Nat
  | .running => 0
  | .queued | .planning | .creating | .stopping => 1
  | .completed | .expired | .failed => 2

/-- Newest first; on the list of all, by the rank before that. -/
def DeploymentListOptions.key (options : DeploymentListOptions) (d : Deployment) :
    Nat ×ₗ Timeᵒᵈ ×ₗ Stringᵒᵈ :=
  toLex (if options.status = "" ∨ options.status = "all" then d.status.rank else 0,
    toLex (OrderDual.toDual d.createdAt, OrderDual.toDual d.id))

namespace Store

variable (st : Store) (options : DeploymentListOptions)

def countAuthorizedDeploymentsByStatus : DeploymentStatusCounts :=
  (st.statusTotals fold access options).foldl DeploymentStatusCounts.add {}

/-- The latest revision of the deployment that matches the filter. -/
def contextRevision (id : String) : Option Revision :=
  let numbers := (st.revisions.rows.filter fun r =>
    r.deploymentID = id && options.selectsRevision r).map Revision.number
  match numbers.max? with
  | none => none
  | some number => st.revisions.find (id, number)

def listed (statuses : List DeploymentStatus) (d : Deployment) : Bool :=
  st.deploymentListQuery fold access options d &&
    (statuses.isEmpty || statuses.contains d.status)

def withRevision (d : Deployment) : Except ListError (Deployment × Option Revision) :=
  if options.matchingRevision then
    match st.contextRevision options d.id with
    | none => .error .notFound
    | some r => .ok (d, some r)
  else .ok (d, none)

def loadDeploymentPage (statuses : List DeploymentStatus) (limit offset : Nat) :
    Except ListError (List (Deployment × Option Revision)) :=
  let records := ordered options.key st.deployments.rows (st.listed fold access options statuses)
  ((records.drop offset).take limit).mapM (st.withRevision options)

def listAuthorizedDeployments :
    Except ListError (List (Deployment × Option Revision) × Nat) := do
  let (limit, offset) ← normalizeDeploymentPagination options
  match deploymentListStatusValues options.status with
  | none => throw .statusFilter
  | some statuses =>
    let total := st.deployments.rows.countP (st.listed fold access options statuses)
    let items ← st.loadDeploymentPage fold access options statuses limit offset
    pure (items, total)

def listAuthorizedDeploymentsWithCounts :
    Except ListError (List (Deployment × Option Revision) × Nat × DeploymentStatusCounts) := do
  let (limit, offset) ← normalizeDeploymentPagination options
  match deploymentListStatusValues options.status with
  | none => throw .statusFilter
  | some statuses =>
    let counts := st.countAuthorizedDeploymentsByStatus fold access options
    let total :=
      if statuses.isEmpty then counts.all
      else ((splitComma options.status).map counts.ofGroup).sum
    let items ← st.loadDeploymentPage fold access options statuses limit offset
    pure (items, total, counts)

end Store

variable {fold access} {st : Store} {options : DeploymentListOptions}

/-! ### Counts -/

namespace DeploymentStatusCounts

theorem get_add (counts : DeploymentStatusCounts) (status : DeploymentStatus) (n : Nat)
    (g : StatusGroup) : (counts.add (status, n)).get g =
      counts.get g + if g.statuses.contains status then n else 0 := by
  cases status <;> cases g <;> rfl

theorem all_add (counts : DeploymentStatusCounts) (group : DeploymentStatus × Nat) :
    (counts.add group).all = counts.all + group.2 := by
  obtain ⟨status, n⟩ := group
  cases status <;> rfl

theorem groups_add {counts : DeploymentStatusCounts}
    (h : counts.running + counts.processing + counts.stopped + counts.failed = counts.all)
    (group : DeploymentStatus × Nat) :
    (counts.add group).running + (counts.add group).processing + (counts.add group).stopped +
      (counts.add group).failed = (counts.add group).all := by
  obtain ⟨status, n⟩ := group
  cases status <;> simp only [add] <;> omega

theorem get_foldl (groups : List (DeploymentStatus × Nat)) (counts : DeploymentStatusCounts)
    (g : StatusGroup) : (groups.foldl add counts).get g =
      counts.get g + ((groups.filter (g.statuses.contains ·.1)).map Prod.snd).sum := by
  induction groups generalizing counts with
  | nil => rfl
  | cons group groups ih =>
    rw [List.foldl_cons, ih, get_add, List.filter_cons]
    split
    · rw [List.map_cons, List.sum_cons, Nat.add_assoc]
    · rw [Nat.add_zero]

theorem all_foldl (groups : List (DeploymentStatus × Nat)) (counts : DeploymentStatusCounts) :
    (groups.foldl add counts).all = counts.all + (groups.map Prod.snd).sum := by
  induction groups generalizing counts with
  | nil => rfl
  | cons group groups ih => rw [List.foldl_cons, ih, all_add, List.map_cons, List.sum_cons,
      Nat.add_assoc]

theorem groups_foldl (groups : List (DeploymentStatus × Nat)) {counts : DeploymentStatusCounts}
    (h : counts.running + counts.processing + counts.stopped + counts.failed = counts.all) :
    (groups.foldl add counts).running + (groups.foldl add counts).processing +
      (groups.foldl add counts).stopped + (groups.foldl add counts).failed =
    (groups.foldl add counts).all := by
  induction groups generalizing counts with
  | nil => exact h
  | cons group groups ih => exact ih (groups_add h group)

end DeploymentStatusCounts

namespace Store

theorem countP_status (q : Deployment → Bool) (rows : List Deployment)
    (p : DeploymentStatus → Bool) :
    ((rows.filter q).map Deployment.status).countP p = rows.countP fun d => q d && p d.status := by
  rw [List.countP_map, List.countP_filter]
  exact List.countP_congr fun d _ => by simp [and_comm]

theorem get_count (g : StatusGroup) :
    (st.countAuthorizedDeploymentsByStatus fold access options).get g =
      st.deployments.rows.countP fun d =>
        st.deploymentListQuery fold access options d && g.statuses.contains d.status := by
  rw [countAuthorizedDeploymentsByStatus, DeploymentStatusCounts.get_foldl, statusTotals,
    ← countP_status, ← List.sum_map_count_dedup_filter_eq_countP, List.filter_map, List.map_map]
  cases g <;> exact Nat.zero_add _

theorem all_count : (st.countAuthorizedDeploymentsByStatus fold access options).all =
    st.deployments.rows.countP (st.deploymentListQuery fold access options) := by
  rw [countAuthorizedDeploymentsByStatus, DeploymentStatusCounts.all_foldl, statusTotals,
    List.map_map]
  have hlen := List.sum_map_count_dedup_eq_length ((st.deployments.rows.filter
    (st.deploymentListQuery fold access options)).map Deployment.status)
  rw [List.length_map, ← List.countP_eq_length_filter] at hlen
  rw [← hlen]
  simp [Function.comp_def]

end Store

/-! ### The total of a filter -/

theorem StatusGroup.text_of_ofText {s : String} {g : StatusGroup} (h : ofText s = some g) :
    g.text = s := by
  simpa using List.find?_some h

theorem StatusGroup.eq_of_mem_statuses {g g' : StatusGroup} {status : DeploymentStatus}
    (h : status ∈ g.statuses) (h' : status ∈ g'.statuses) : g = g' := by
  cases g <;> cases g' <;> cases status <;> simp_all [statuses]

theorem exists_group_of_mem {seen groups : List String} {statuses : List DeploymentStatus}
    {status : DeploymentStatus} (h : statusValues seen groups = some statuses)
    (hmem : status ∈ statuses) :
    ∃ group ∉ seen, ∃ g, StatusGroup.ofText group = some g ∧ status ∈ g.statuses := by
  induction groups generalizing seen statuses with
  | nil =>
    cases h
    cases hmem
  | cons group groups ih =>
    rw [statusValues] at h
    split at h
    · cases h
    · rename_i hseen
      split at h
      · cases h
      · rename_i g hg
        obtain ⟨rest, hrest, rfl⟩ := Option.map_eq_some_iff.mp h
        rcases List.mem_append.mp hmem with hmem | hmem
        · exact ⟨group, by simpa using hseen, g, hg, hmem⟩
        · obtain ⟨group', hnot, g', hg', hmem'⟩ := ih hrest hmem
          exact ⟨group', fun hin => hnot (List.mem_cons_of_mem group hin), g', hg', hmem'⟩

/-- The numbers of the groups of a filter add up to that of the deployments with one of its
statuses: no group comes twice, so no deployment is counted twice. -/
theorem sum_ofGroup {counts : DeploymentStatusCounts} {rows : List Deployment}
    {q : Deployment → Bool}
    (hget : ∀ g, counts.get g = rows.countP fun d => q d && g.statuses.contains d.status)
    {seen groups : List String} {statuses : List DeploymentStatus}
    (h : statusValues seen groups = some statuses) :
    (groups.map counts.ofGroup).sum = rows.countP fun d => q d && statuses.contains d.status := by
  induction groups generalizing seen statuses with
  | nil =>
    cases h
    simp
  | cons group groups ih =>
    rw [statusValues] at h
    split at h
    · cases h
    · split at h
      · cases h
      · rename_i g hg
        obtain ⟨rest, hrest, rfl⟩ := Option.map_eq_some_iff.mp h
        have hfirst : counts.ofGroup group = counts.get g := by
          rw [DeploymentStatusCounts.ofGroup, hg]
        rw [List.map_cons, List.sum_cons, ih hrest, hfirst, hget, ← countP_or]
        · refine List.countP_congr fun d _ => ?_
          simp only [List.contains_append, Bool.or_eq_true, Bool.and_eq_true]
          grind
        · rintro d - ⟨hd, hd'⟩
          simp only [Bool.and_eq_true, List.contains_iff_mem] at hd hd'
          obtain ⟨group', hnot, g', hg', hmem⟩ := exists_group_of_mem hrest hd'.2
          have hsame : g = g' := StatusGroup.eq_of_mem_statuses hd.2 hmem
          refine hnot ?_
          rw [← StatusGroup.text_of_ofText hg', ← hsame, StatusGroup.text_of_ofText hg]
          exact List.mem_cons_self

theorem total_eq {statuses : List DeploymentStatus}
    (h : deploymentListStatusValues options.status = some statuses) :
    (if statuses.isEmpty then (st.countAuthorizedDeploymentsByStatus fold access options).all
      else ((splitComma options.status).map
        (st.countAuthorizedDeploymentsByStatus fold access options).ofGroup).sum) =
    st.deployments.rows.countP (st.listed fold access options statuses) := by
  unfold Store.listed
  split
  · rename_i hempty
    rw [Store.all_count]
    simp [hempty]
  · rename_i hne
    unfold deploymentListStatusValues at h
    split at h
    · cases h
      exact absurd rfl hne
    · rw [sum_ofGroup Store.get_count h]
      simp [hne]

/-! ### Pages -/

/-- Pages of one size, one after the other, are an initial segment. -/
theorem flatMap_pages {α : Type} (l : List α) (size n : Nat) :
    (List.range n).flatMap (fun i => (l.drop (i * size)).take size) = l.take (n * size) := by
  induction n with
  | zero => simp
  | succ n ih => rw [List.range_succ, List.flatMap_append, ih, Nat.succ_mul, List.take_add]; simp

theorem Store.exists_withRevision {d : Deployment}
    (h : st.deploymentListQuery fold access options d = true) :
    ∃ r, st.withRevision options d = .ok (d, r) := by
  rw [withRevision]
  split
  · rename_i hmatching
    simp only [deploymentListQuery, hmatching, Bool.not_true, Bool.false_or, Bool.and_eq_true] at h
    obtain ⟨r, hr, hsel⟩ := List.any_eq_true.mp h.1.2
    have hsome : ∃ r, st.contextRevision options d.id = some r := by
      rw [contextRevision]
      cases hmax : ((st.revisions.rows.filter fun r =>
          r.deploymentID = d.id && options.selectsRevision r).map Revision.number).max? with
      | none =>
        rw [List.max?_eq_none_iff, List.map_eq_nil_iff] at hmax
        exact absurd (List.mem_filter.mpr ⟨hr, hsel⟩) (hmax ▸ List.not_mem_nil)
      | some number =>
        obtain ⟨latest, hlatest, rfl⟩ := List.mem_map.mp (List.max?_mem hmax)
        obtain ⟨hin, hlatest⟩ := List.mem_filter.mp hlatest
        have hid : latest.deploymentID = d.id := by simp_all
        exact ⟨latest, hid ▸ Table.find_of_mem hin⟩
    obtain ⟨r, hr⟩ := hsome
    exact ⟨some r, by rw [hr]⟩
  · exact ⟨none, rfl⟩

theorem Store.exists_loadDeploymentPage (fold : Lowering) (access : List RepositoryAccess)
    (st : Store) (options : DeploymentListOptions) (statuses : List DeploymentStatus)
    (limit offset : Nat) :
    ∃ items, st.loadDeploymentPage fold access options statuses limit offset = .ok items ∧
      items.map Prod.fst = ((ordered options.key st.deployments.rows
        (st.listed fold access options statuses)).drop offset).take limit := by
  have hall : ∀ records : List Deployment,
      (∀ d ∈ records, st.deploymentListQuery fold access options d = true) →
      ∃ items, records.mapM (st.withRevision options) = .ok items ∧
        items.map Prod.fst = records := by
    intro records
    induction records with
    | nil => exact fun _ => ⟨[], rfl, rfl⟩
    | cons d records ih =>
      intro hrecords
      obtain ⟨r, hr⟩ := exists_withRevision (hrecords d List.mem_cons_self)
      obtain ⟨items, hitems, hfst⟩ := ih fun e he => hrecords e (List.mem_cons_of_mem d he)
      refine ⟨(d, r) :: items, ?_, by rw [List.map_cons, hfst]⟩
      rw [List.mapM_cons, hr, hitems]
      rfl
  refine hall _ fun d hd => ?_
  have hd := (mem_ordered.mp (List.mem_of_mem_drop (List.mem_of_mem_take hd))).2
  exact (Bool.and_eq_true_iff.mp hd).1

theorem granted_of_query {d : Deployment}
    (h : st.deploymentListQuery fold access options d = true) :
    Granted fold access d.githubInstallationID d.repositoryFullName := by
  obtain ⟨item, hitem, hmatch⟩ := List.any_eq_true.mp (Bool.and_eq_true_iff.mp h).2
  obtain ⟨hid, hname⟩ := Bool.and_eq_true_iff.mp hmatch
  exact granted_of_mem_normalize hitem (by simpa using hid) (by simpa using hname)

namespace Store

def pageSize (limit : Int) : Nat := if limit = 0 then 100 else limit.toNat

/-- Both lists return the same page, with the number of all deployments listed as the total. -/
theorem exists_page (fold : Lowering) (access : List RepositoryAccess) (st : Store)
    (options : DeploymentListOptions) {statuses : List DeploymentStatus}
    (hstatus : deploymentListStatusValues options.status = some statuses)
    (hlimit : 0 ≤ options.limit) (hle : options.limit ≤ 500) (hoffset : 0 ≤ options.offset) :
    ∃ items, st.listAuthorizedDeployments fold access options = .ok (items,
        st.deployments.rows.countP (st.listed fold access options statuses)) ∧
      st.listAuthorizedDeploymentsWithCounts fold access options = .ok (items,
        st.deployments.rows.countP (st.listed fold access options statuses),
        st.countAuthorizedDeploymentsByStatus fold access options) ∧
      items.map Prod.fst = ((ordered options.key st.deployments.rows
        (st.listed fold access options statuses)).drop options.offset.toNat).take
          (pageSize options.limit) := by
  have hpagination : normalizeDeploymentPagination options =
      .ok (pageSize options.limit, options.offset.toNat) := by
    rw [normalizeDeploymentPagination, pageSize]
    split <;> rw [if_neg (by omega)]
    rfl
  obtain ⟨items, hitems, hfst⟩ := st.exists_loadDeploymentPage fold access options statuses
    (pageSize options.limit) options.offset.toNat
  refine ⟨items, ?_, ?_, hfst⟩
  · rw [listAuthorizedDeployments, hpagination]
    simp only [bind, Except.bind, hstatus, hitems]
    rfl
  · rw [listAuthorizedDeploymentsWithCounts, hpagination]
    simp only [bind, Except.bind, hstatus, hitems, total_eq hstatus]
    rfl

end Store

/-- For every accepted filter there is one list of deployments, all of them granted: its length is
the total of both list functions on every page, its pages of any size, one after the
other, are the list, and the numbers of the four groups add up to that of all, which counts
granted deployments only. -/
theorem deployment_list_totals (fold : Lowering) (access : List RepositoryAccess) (st : Store)
    (options : DeploymentListOptions) {statuses : List DeploymentStatus}
    (hstatus : deploymentListStatusValues options.status = some statuses) :
    ∃ (all : List Deployment) (counts : DeploymentStatusCounts),
      all.Nodup ∧
      (∀ d, d ∈ all ↔ d ∈ st.deployments.rows ∧
        st.deploymentListQuery fold access options d = true ∧
          (statuses = [] ∨ d.status ∈ statuses)) ∧
      (∀ limit offset : Int, 0 ≤ limit → limit ≤ 500 → 0 ≤ offset →
        ∃ items,
          st.listAuthorizedDeployments fold access
            { options with limit := limit, offset := offset } = .ok (items, all.length) ∧
          st.listAuthorizedDeploymentsWithCounts fold access
            { options with limit := limit, offset := offset } =
              .ok (items, all.length, counts)) ∧
      (∀ size n : Nat, 1 ≤ size → size ≤ 500 → all.length ≤ n * size →
        ∃ pages : Nat → List (Deployment × Option Revision),
          (∀ i, st.listAuthorizedDeploymentsWithCounts fold access
            { options with limit := size, offset := (i * size : Nat) } =
              .ok (pages i, all.length, counts)) ∧
          ((List.range n).flatMap pages).map Prod.fst = all) ∧
      counts.running + counts.processing + counts.stopped + counts.failed = counts.all ∧
      counts.all = st.deployments.rows.countP (st.deploymentListQuery fold access options) ∧
      ∀ d, st.deploymentListQuery fold access options d = true →
        Granted fold access d.githubInstallationID d.repositoryFullName := by
  have hnodup : (st.deployments.rows.map options.key).Nodup := by
    refine List.Nodup.of_map (fun k => OrderDual.ofDual (ofLex (ofLex k).2).2) ?_
    rw [List.map_map]
    exact st.deployments.nodup
  have hlength : (ordered options.key st.deployments.rows
      (st.listed fold access options statuses)).length =
      st.deployments.rows.countP (st.listed fold access options statuses) := length_ordered ..
  refine ⟨ordered options.key st.deployments.rows (st.listed fold access options statuses),
    st.countAuthorizedDeploymentsByStatus fold access options,
    List.Nodup.of_map _ (nodup_keys_ordered hnodup), ?_, ?_, ?_,
    DeploymentStatusCounts.groups_foldl _ rfl, Store.all_count, fun d => granted_of_query⟩
  · intro d
    rw [mem_ordered, Store.listed]
    simp
  · intro limit offset hlimit hle hoffset
    obtain ⟨items, hlist, hcounts, -⟩ := st.exists_page fold access
      { options with limit := limit, offset := offset } hstatus hlimit hle hoffset
    exact ⟨items, hlength ▸ hlist, hlength ▸ hcounts⟩
  · intro size n hpos hle htotal
    have hpage : ∀ i : Nat, ∃ items,
        st.listAuthorizedDeploymentsWithCounts fold access
          { options with limit := size, offset := (i * size : Nat) } = .ok (items, _, _) ∧
        items.map Prod.fst = _ := fun i =>
      let ⟨items, _, hcounts, hfst⟩ := st.exists_page fold access
        { options with limit := size, offset := (i * size : Nat) } hstatus
        (Int.natCast_nonneg size) (Int.ofNat_le.mpr hle) (Int.natCast_nonneg (i * size))
      ⟨items, hcounts, hfst⟩
    choose pages hpages hfst using hpage
    refine ⟨pages, fun i => hlength ▸ hpages i, ?_⟩
    have hsize : Store.pageSize size = size := by
      rw [Store.pageSize, if_neg (by omega), Int.toNat_natCast]
    simp only [List.map_flatMap, hfst, hsize, Int.toNat_natCast]
    exact (flatMap_pages _ size n).trans (List.take_of_length_le htotal)

/-- A deployment of the first account. -/
def retained (id : String) (status : DeploymentStatus) : Deployment where
  id := id
  accountID := 1
  scope := ⟨.account, 1⟩
  githubInstallationID := 1
  repositoryID := 1
  repositoryFullName := "Owner/App"
  plan := {}
  status := status
  expiresAt := 100

def twoRetained : Store :=
  { Store.empty with
    deployments := (Table.empty.insert (retained "a" .running)).insert (retained "b" .queued) }

/-- A filter with two groups, on which one of two deployments is listed and both are counted. -/
theorem deployment_list_totals_two :
    (twoRetained.listAuthorizedDeploymentsWithCounts .ascii [⟨1, ["owner/app"]⟩]
      { status := "failed,running" }).toOption.map
        (fun r => (r.1.map (·.1.id), r.2)) = some (["a"], 1, ⟨2, 1, 1, 0, 0⟩) ∧
    ∃ (items : List (Deployment × Option Revision)) (total : Nat)
      (counts : DeploymentStatusCounts),
      twoRetained.listAuthorizedDeployments .ascii [⟨1, ["owner/app"]⟩]
        { status := "failed,running" } = .ok (items, total) ∧
      twoRetained.listAuthorizedDeploymentsWithCounts .ascii [⟨1, ["owner/app"]⟩]
        { status := "failed,running" } = .ok (items, total, counts) := by
  refine ⟨by decide +kernel, ?_⟩
  obtain ⟨all, counts, -, -, hpages, -⟩ := deployment_list_totals .ascii [⟨1, ["owner/app"]⟩]
    twoRetained { status := "failed,running" } (show _ = some [.failed, .running] by decide)
  obtain ⟨items, hlist, hcounts⟩ := hpages 0 0 le_rfl (by decide) le_rfl
  exact ⟨items, all.length, counts, hlist, hcounts⟩

end CiRunner.Deployments
