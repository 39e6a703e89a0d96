import CiRunner.Deployments.Scheduler
import CiRunner.Tables.Walks

/-! Pages of deployment work. Whatever the kind of work, a page is the first rows behind the
cursor that are on the list, so that a walk over the pages meets each of them once; and
the three lanes share out the deployments that need work. -/

namespace CiRunner.Deployments

open Tables
open CiRunner.State (Time)

namespace Contents

variable (contents : Contents) (kind : WorkKind) (limit : Nat)

/-- The page behind an id. -/
def listWork (afterID : String) : Option (List Deployment × Bool) :=
  contents.store.listDeploymentWork kind afterID limit contents.now

/-- All the work behind an id, in the order of the ids. -/
def workAfter (afterID : String) : List Deployment :=
  contents.store.workAfter kind afterID contents.now

/-- Page after page behind the last id, so many pages at most. -/
def walkWork (pages : Nat) (afterID : String) : Option (List Deployment) :=
  walk (fun _ c => contents.listWork kind limit c) Deployment.id pages 0 afterID

variable {contents limit} in
theorem keyset_listWork (hnow : contents.now ≠ 0) (hpos : 0 < limit) (hle : limit ≤ 100) :
    Keyset Deployment.id (fun _ c => contents.listWork kind limit c) Deployment.id
      (fun _ => contents.store.deployments.rows) (fun _ d => d.isWork contents.now kind)
      (fun c id => decide (c < id)) limit where
  nodup _ := contents.store.deployments.nodup
  read_eq _ c := by
    refine Store.listDeploymentWork_eq_page contents.named ?_ kind c
    rintro (h | h | h)
    · omega
    · omega
    · exact hnow h
  behind_cursor _ _ := rfl
  behind_of_lt _ _ _ h hlt := decide_eq_true ((of_decide_eq_true h).trans hlt)

end Contents

def Deployment.lane (d : Deployment) (now : Time) : Option LaneKind :=
  match d.status with
  | .queued | .planning | .creating => some (if now < d.expiresAt then .provision else .cleanup)
  | .running => some (if now < d.expiresAt then .monitor else .cleanup)
  | .stopping => some .cleanup
  | .failed => if d.sandboxID = "" then none else some .cleanup
  | .completed | .expired => none

theorem isWork_iff_lane (d : Deployment) (now : Time) (l : LaneKind) :
    d.isWork now l.work = true ↔ d.lane now = some l := by
  unfold Deployment.isWork Deployment.lane
  cases l <;> cases hs : d.status <;> simp [LaneKind.work] <;> split <;> simp_all

theorem isWork_all_iff_lane (d : Deployment) (now : Time) :
    d.isWork now .all = true ↔ (d.lane now).isSome = true := by
  unfold Deployment.isWork Deployment.lane
  cases hs : d.status <;> simp [DeploymentStatus.active]

/-- A page has the first rows behind the cursor that are on the list, and says whether there are
more; a walk over the pages reads all of them, each once and in the order of the ids. The
lanes share out the deployments that are active or have failed with a sandbox left. -/
theorem deployment_work_pages (contents : Contents) (hnow : contents.now ≠ 0) :
    (∀ (kind : WorkKind) (limit : Nat) (afterID : String), 1 ≤ limit → limit ≤ 100 →
      ∃ all : List Deployment, (all.map Deployment.id).Pairwise (· < ·) ∧
        (∀ d, d ∈ all ↔
          d ∈ contents.store.deployments.rows ∧ d.isWork contents.now kind ∧ afterID < d.id) ∧
        contents.listWork kind limit afterID = some (all.take limit, decide (limit < all.length)) ∧
        ∀ pages > all.length, contents.walkWork kind limit pages afterID = some all) ∧
    ∀ (d : Deployment) (now : Time),
      ((d.status.active ∨ d.status = .failed ∧ d.sandboxID ≠ "") →
        ∃! l : LaneKind, d.isWork now l.work) ∧
      (¬ (d.status.active ∨ d.status = .failed ∧ d.sandboxID ≠ "") →
        ∀ l : LaneKind, ¬ d.isWork now l.work) := by
  constructor
  · intro kind limit afterID hpos hle
    have hkeyset := contents.keyset_listWork kind hnow hpos hle
    refine ⟨contents.workAfter kind afterID, ordered_lt contents.store.deployments.nodup, ?_, ?_, ?_⟩
    · intro d
      rw [Contents.workAfter, Store.workAfter, mem_ordered, Bool.and_eq_true, decide_eq_true_eq]
    · exact (hkeyset.read_eq 0 afterID).trans (congrArg some page_eq)
    · exact fun pages hpages => hkeyset.walk_eq_ordered hpos (fun _ => rfl) hpages
  · intro d now
    have hall : d.status.active ∨ d.status = .failed ∧ d.sandboxID ≠ "" ↔
        (d.lane now).isSome = true := by
      rw [← isWork_all_iff_lane]
      simp [Deployment.isWork]
    simp only [isWork_iff_lane, hall]
    cases d.lane now with
    | none => simp
    | some l => exact ⟨fun _ => ⟨l, rfl, fun l' h => (Option.some.inj h).symm⟩, by simp⟩

def stopping (id : String) : Deployment where
  id := id
  accountID := 1
  scope := ⟨.account, 1⟩
  githubInstallationID := 1
  repositoryID := 1
  repositoryFullName := "owner/app"
  plan := {}
  status := .stopping
  expiresAt := 100

def twoStopping : Contents where
  store := { Store.empty with
    deployments := (Table.empty.insert (stopping "b")).insert (stopping "a") }
  now := 5
  named := by decide +kernel

/-- Two deployments to clean up, on pages of one. -/
theorem deployment_work_pages_two :
    (twoStopping.listWork .cleanup 1 "").map (fun page => (page.1.map Deployment.id, page.2)) =
      some (["a"], true) ∧
    (twoStopping.walkWork .cleanup 1 3 "").map (·.map Deployment.id) = some ["a", "b"] ∧
    ∃ all : List Deployment, twoStopping.listWork .cleanup 1 "" =
      some (all.take 1, decide (1 < all.length)) := by
  refine ⟨by decide +kernel, by decide +kernel, ?_⟩
  obtain ⟨all, -, -, hpage, -⟩ := (deployment_work_pages twoStopping (by decide)).1 .cleanup 1 ""
    le_rfl (by decide)
  exact ⟨all, hpage⟩

end CiRunner.Deployments
