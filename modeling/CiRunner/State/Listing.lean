import CiRunner.State.Access
import CiRunner.State.Requests
import CiRunner.Tables.Merges

/-! The requests of the repositories that a user has access to. The database bounds the
parameters of a query, so that the list is made in batches: each batch has some of the
repositories of one installation, the counts are added, and the first rows of the batches
are merged and cut to the page. -/

namespace CiRunner.State

open Tables Text

/-- Newest first, and by the id where the times are the same. -/
def queueKey (r : RunnerState) : Timeᵒᵈ ×ₗ String := toLex (OrderDual.toDual r.createdAt, r.id)

/-- A condition on the installation and the repository. -/
structure AccessQueryBatch where
  installationID : Int
  repositories : List String

namespace AccessQueryBatch

/-- The parameters of the condition: the installation and each of the repositories. -/
def parameterCount (batch : AccessQueryBatch) : Nat := 1 + batch.repositories.length

/-- The condition as the database tests it. -/
def selects (batch : AccessQueryBatch) (r : RunnerState) : Bool :=
  r.gitHubInstallationID = batch.installationID &&
    batch.repositories.contains (toLower r.repositoryFullName)

end AccessQueryBatch

def maxRunnerRequestRepositoryAccessQueryParameters : Nat := 900

def repositoryAccessQueryBatches (fold : Lowering) (access : List RepositoryAccess)
    (maxParameters : Nat) : List AccessQueryBatch :=
  let maxParameters := if maxParameters < 2 then 2 else maxParameters
  (normalizeRepositoryAccess fold access).flatMap fun item =>
    (chunks (maxParameters - 1) item.repositories.length item.repositories).map fun chunk =>
      ⟨item.installationID, chunk⟩

/-- The rows on a page: any other limit is the highest one. -/
def pageLimit (limit : Int) : Nat := if limit ≤ 0 ∨ 500 < limit then 500 else limit.toNat

def pageOffset (offset : Int) : Nat := if offset < 0 then 0 else offset.toNat

/-- The page of the requests, and how many there are in all. -/
def Requests.listStatesForRepositories (t : Requests) (fold : Lowering)
    (access : List RepositoryAccess) (limit offset : Int) : List RunnerState × Nat :=
  let batches :=
    repositoryAccessQueryBatches fold access maxRunnerRequestRepositoryAccessQueryParameters
  if batches.isEmpty then ([], 0) else
  let limit := pageLimit limit
  let offset := pageOffset offset
  let total := (batches.map fun batch => t.rows.countP batch.selects).sum
  if total ≤ offset then ([], total) else
  let queryLimit := if limit ≤ total - offset then offset + limit else total
  let records := merged queueKey t.rows (batches.map AccessQueryBatch.selects) queryLimit
  ((records.drop offset).take limit, total)

variable {fold : Lowering} {access : List RepositoryAccess} {n : Nat}

/-! ### The batches -/

theorem chunk_pos (maxParameters : Nat) :
    0 < (if maxParameters < 2 then 2 else maxParameters) - 1 := by
  split <;> omega

theorem mem_batches {batch : AccessQueryBatch} :
    batch ∈ repositoryAccessQueryBatches fold access n ↔
      ∃ item ∈ normalizeRepositoryAccess fold access, batch.installationID = item.installationID ∧
        batch.repositories ∈ chunks ((if n < 2 then 2 else n) - 1) item.repositories.length
          item.repositories := by
  simp only [repositoryAccessQueryBatches, List.mem_flatMap, List.mem_map]
  constructor
  · rintro ⟨item, hitem, chunk, hchunk, rfl⟩
    exact ⟨item, hitem, rfl, hchunk⟩
  · rintro ⟨item, hitem, hid, hchunk⟩
    exact ⟨item, hitem, batch.repositories, hchunk, by rw [← hid]⟩

/-- No batch has more parameters than it may have. -/
theorem parameterCount_le {batch : AccessQueryBatch} (hn : 2 ≤ n)
    (h : batch ∈ repositoryAccessQueryBatches fold access n) : batch.parameterCount ≤ n := by
  obtain ⟨item, -, -, hchunk⟩ := mem_batches.mp h
  have hlen := length_of_mem_chunks hchunk
  rw [if_neg (by omega)] at hlen
  unfold AccessQueryBatch.parameterCount
  omega

theorem exists_selects {r : RunnerState} :
    (∃ batch ∈ repositoryAccessQueryBatches fold access n, batch.selects r = true) ↔
      ∃ item ∈ normalizeRepositoryAccess fold access,
        item.installationID = r.gitHubInstallationID ∧
        toLower r.repositoryFullName ∈ item.repositories := by
  simp only [mem_batches, AccessQueryBatch.selects, Bool.and_eq_true, decide_eq_true_eq,
    List.contains_iff_mem]
  constructor
  · rintro ⟨batch, ⟨item, hitem, hid, hchunk⟩, hinst, hmem⟩
    refine ⟨item, hitem, by rw [hinst, hid], ?_⟩
    rw [← flatten_chunks (chunk_pos n) _ (le_refl item.repositories.length)]
    exact List.mem_flatten.mpr ⟨_, hchunk, hmem⟩
  · rintro ⟨item, hitem, hinst, hmem⟩
    rw [← flatten_chunks (chunk_pos n) _ (le_refl item.repositories.length)] at hmem
    obtain ⟨chunk, hchunk, hmem⟩ := List.mem_flatten.mp hmem
    exact ⟨⟨item.installationID, chunk⟩, ⟨item, hitem, rfl, hchunk⟩, hinst.symm, hmem⟩

/-- No row is selected by two of the batches. -/
theorem disjoint_batches (fold : Lowering) (access : List RepositoryAccess) (n : Nat)
    (rows : List RunnerState) :
    DisjointBranches rows ((repositoryAccessQueryBatches fold access n).map AccessQueryBatch.selects) := by
  unfold DisjointBranches
  rw [List.pairwise_map]
  have hsame : ∀ {b b' : AccessQueryBatch} {r : RunnerState}, b.selects r = true →
      b'.selects r = true → b.installationID = b'.installationID ∧
        toLower r.repositoryFullName ∈ b.repositories ∧
        toLower r.repositoryFullName ∈ b'.repositories := by
    intro b b' r h h'
    simp only [AccessQueryBatch.selects, Bool.and_eq_true, decide_eq_true_eq,
      List.contains_iff_mem] at h h'
    exact ⟨h.1.symm.trans h'.1, h.2, h'.2⟩
  simp only [repositoryAccessQueryBatches]
  rw [List.pairwise_flatMap]
  constructor
  · -- Within an installation: no repository is in two of the chunks.
    intro item hitem
    have hnodup := nodup_repositories hitem
    rw [← flatten_chunks (chunk_pos n) _ (le_refl item.repositories.length),
      List.nodup_flatten] at hnodup
    rw [List.pairwise_map]
    refine hnodup.2.imp fun hdisj r _ ⟨h, h'⟩ => ?_
    obtain ⟨-, hmem, hmem'⟩ := hsame h h'
    exact hdisj hmem hmem'
  · -- Across installations.
    refine (List.pairwise_map.mp (nodup_normalize fold access)).imp ?_
    intro item item' hne b hb b' hb' r _ ⟨h, h'⟩
    obtain ⟨chunk, -, rfl⟩ := List.mem_map.mp hb
    obtain ⟨chunk', -, rfl⟩ := List.mem_map.mp hb'
    exact hne (hsame h h').1

/-! ### The list -/

theorem any_selects {r : RunnerState} (h : Ascii r.repositoryFullName) :
    (((repositoryAccessQueryBatches fold access n).map AccessQueryBatch.selects).any (· r)) =
      decide (Granted fold access r.gitHubInstallationID r.repositoryFullName) := by
  rw [Bool.eq_iff_iff, decide_eq_true_eq, granted_iff h, ← exists_selects (n := n), List.any_map,
    List.any_eq_true]
  rfl

theorem nodup_queueKey (t : Requests) : (t.rows.map queueKey).Nodup := by
  have hid : t.rows.map RunnerState.id = (t.rows.map queueKey).map fun k => (ofLex k).2 := by
    rw [List.map_map]
    rfl
  exact List.Nodup.of_map _ (hid ▸ t.nodup)

/-- The rows that are granted, newest first. -/
def Requests.grantedStates (t : Requests) (fold : Lowering) (access : List RepositoryAccess) :
    List RunnerState :=
  ordered queueKey t.rows fun r =>
    decide (Granted fold access r.gitHubInstallationID r.repositoryFullName)

/-- A page of what is merged from enough of each batch is a page of the whole. -/
theorem page_of_take {α : Type} {l all : List α} {limit offset : Nat}
    (hlen : l.length ≤ all.length)
    (htake : ∀ q, q = (if limit ≤ all.length - offset then offset + limit else all.length) →
      l.take q = all.take q) :
    (l.drop offset).take limit = (all.drop offset).take limit := by
  have htake := htake _ rfl
  split at htake
  · have hdrop := congrArg (List.drop offset) htake
    rwa [List.drop_take, List.drop_take, Nat.add_sub_cancel_left] at hdrop
  · rw [List.take_of_length_le hlen, List.take_length] at htake
    rw [htake]

/-- The list in batches is a page of one query for all that is granted, with its total; no batch has
too many parameters and no row is counted twice. -/
theorem batched_list_eq_query (t : Requests) (hascii : ∀ r ∈ t.rows, Ascii r.repositoryFullName)
    (fold : Lowering) (access : List RepositoryAccess) (limit offset : Int) :
    t.listStatesForRepositories fold access limit offset =
      (((t.grantedStates fold access).drop (pageOffset offset)).take (pageLimit limit),
        (t.grantedStates fold access).length) ∧
    (∀ batch ∈ repositoryAccessQueryBatches fold access
        maxRunnerRequestRepositoryAccessQueryParameters,
      batch.parameterCount ≤ maxRunnerRequestRepositoryAccessQueryParameters) ∧
    (repositoryAccessQueryBatches fold access
      maxRunnerRequestRepositoryAccessQueryParameters).Pairwise fun batch batch' =>
        ∀ r ∈ t.rows, ¬ (batch.selects r = true ∧ batch'.selects r = true) := by
  have hdisj := disjoint_batches fold access maxRunnerRequestRepositoryAccessQueryParameters t.rows
  refine ⟨?_, fun batch hbatch => parameterCount_le (by decide) hbatch, List.pairwise_map.mp hdisj⟩
  -- The rows that some batch selects are those that are granted.
  have hall : (ordered queueKey t.rows fun r =>
      ((repositoryAccessQueryBatches fold access maxRunnerRequestRepositoryAccessQueryParameters).map
        AccessQueryBatch.selects).any (· r)) = t.grantedStates fold access :=
    ordered_congr fun r hr => any_selects (hascii r hr)
  have htotal : ((repositoryAccessQueryBatches fold access
      maxRunnerRequestRepositoryAccessQueryParameters).map fun batch =>
        t.rows.countP batch.selects).sum = (t.grantedStates fold access).length := by
    rw [← hall, length_ordered, ← sum_countP hdisj, List.map_map]
    rfl
  unfold Requests.listStatesForRepositories
  dsimp only
  split
  · rename_i hempty
    rw [List.isEmpty_iff] at hempty
    rw [← hall, hempty]
    have hnone : (ordered queueKey t.rows fun r =>
        (([] : List AccessQueryBatch).map AccessQueryBatch.selects).any (· r)) = [] := by
      rw [List.eq_nil_iff_forall_not_mem]
      intro r hr
      simpa using (mem_ordered.mp hr).2
    rw [hnone]
    simp
  · rw [htotal]
    split
    · rename_i hle
      rw [List.drop_eq_nil_of_le hle, List.take_nil]
    · refine Prod.ext (page_of_take ?_ ?_) rfl
      · rw [← hall]
        exact length_merged_le (nodup_queueKey t)
      · rintro q rfl
        rw [take_merged (nodup_queueKey t), hall]

/-- Two requests of a repository, the later one first, for a user who has it twice in their list. -/
theorem batched_list_eq_query_twice :
    let t : Requests := (Table.empty.insert
      { id := "1", gitHubInstallationID := 3, repositoryFullName := "Owner/App", createdAt := 5 }).insert
      { id := "2", gitHubInstallationID := 3, repositoryFullName := "owner/app", createdAt := 6 }
    let access : List RepositoryAccess := [⟨3, ["owner/APP", " "]⟩, ⟨0, ["a/b"]⟩, ⟨3, ["Owner/app "]⟩]
    ((t.listStatesForRepositories .ascii access 1 0).1.map RunnerState.id = ["2"] ∧
      (t.listStatesForRepositories .ascii access 1 0).2 = 2) ∧
    t.listStatesForRepositories .ascii access 1 0 =
      (((t.grantedStates .ascii access).drop 0).take 1, (t.grantedStates .ascii access).length) :=
  ⟨by decide +kernel, (batched_list_eq_query _ (by unfold Ascii; decide +kernel) _ _ 1 0).1⟩

end CiRunner.State
