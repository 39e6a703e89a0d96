import Mathlib.Data.String.Basic
import Mathlib.Logic.Relation
import CiRunner.Tables.Pages
import CiRunner.Deployments.Calls

/-! The scheduler of the deployment worker. Three lanes with a capacity each walk over
their lists of deployments, page by page and in the order of the ids, and start a call
for each deployment that has none under way. A cycle of a lane goes from the first id to
the end of the list; it may take several passes, between which the store changes as it
likes. Beside the variables of the scheduler the state keeps what each cycle has read
and passed. -/

namespace CiRunner.Deployments

open Tables
open CiRunner.State (Time)

/-! ### Pages of work -/

def DeploymentStatus.provisions (status : DeploymentStatus) : Bool :=
  status == .queued || status == .planning || status == .creating

/-- The page after an id: the deployments and whether there are more. The branches of a condition
are bounded before they are merged. -/
def Store.listDeploymentWork (st : Store) (kind : WorkKind) (afterID : String) (limit : Nat)
    (now : Time) : Option (List Deployment × Bool) :=
  if limit = 0 ∨ 100 < limit ∨ now = 0 then none
  else
    let rows := st.deployments.rows
    let workIDs := fun predicate : Deployment → Bool =>
      candidates Deployment.id rows (fun d => predicate d && decide (afterID < d.id)) limit
    let query : Deployment → Bool :=
      match kind with
      | .provision => fun d => d.status.provisions && decide (now < d.expiresAt)
      | .monitor => fun d => d.status == .running && decide (now < d.expiresAt)
      | .cleanup => fun d =>
        decide (d.id ∈ [fun d : Deployment => d.status == .stopping,
          fun d => d.status == .failed && d.sandboxID != "",
          fun d => (d.status.provisions || d.status == .running) && decide (d.expiresAt ≤ now)].flatMap
            workIDs)
      | .all => fun d =>
        decide (d.id ∈ [fun d : Deployment => d.status.active,
          fun d => d.status == .failed && d.sandboxID != ""].flatMap workIDs)
    some (page Deployment.id rows
      (fun d => query d && (decide (afterID = "") || decide (afterID < d.id))) limit)

theorem empty_lt {id : String} (h : id ≠ "") : "" < id := by
  rw [String.lt_iff_toList_lt]
  rcases hl : id.toList with _ | ⟨c, cs⟩
  · exact absurd (String.toList_eq_nil_iff.mp hl) h
  · exact List.nil_lt_cons c cs

/-- The work behind an id, in the order of the ids. -/
def Store.workAfter (st : Store) (kind : WorkKind) (afterID : String) (now : Time) :
    List Deployment :=
  ordered Deployment.id st.deployments.rows fun d =>
    d.isWork now kind && decide (afterID < d.id)

theorem Store.listDeploymentWork_eq_page {st : Store} {limit : Nat} {now : Time}
    (hnamed : ∀ d ∈ st.deployments.rows, d.id ≠ "") (hvalid : ¬ (limit = 0 ∨ 100 < limit ∨ now = 0))
    (kind : WorkKind) (afterID : String) :
    st.listDeploymentWork kind afterID limit now = some (page Deployment.id st.deployments.rows
      (fun d => d.isWork now kind && decide (afterID < d.id)) limit) := by
  have hcursor : ∀ d ∈ st.deployments.rows,
      (decide (afterID = "") || decide (afterID < d.id)) = decide (afterID < d.id) := by
    intro d hd
    by_cases he : afterID = ""
    · simp [he, empty_lt (hnamed d hd)]
    · simp [he]
  unfold listDeploymentWork
  rw [if_neg hvalid]
  refine congrArg some (page_congr ?_)
  cases kind with
  | provision | monitor =>
    refine congrArg (List.take _) (ordered_congr fun d hd => ?_)
    rw [hcursor d hd]
    rfl
  | cleanup | all =>
    rw [ordered_congr fun d hd => congrArg (_ && ·) (hcursor d hd)]
    refine take_ordered_candidates st.deployments.nodup fun d => ?_
    simp [Deployment.isWork, DeploymentStatus.provisions, or_assoc]

theorem Store.listDeploymentWork_spec {st : Store} {kind : WorkKind} {afterID : String}
    {limit : Nat} {now : Time} {items : List Deployment} {more : Bool}
    (hnamed : ∀ d ∈ st.deployments.rows, d.id ≠ "")
    (h : st.listDeploymentWork kind afterID limit now = some (items, more)) :
    items = (st.workAfter kind afterID now).take limit ∧
      more = decide (limit < (st.workAfter kind afterID now).length) := by
  have hvalid : ¬ (limit = 0 ∨ 100 < limit ∨ now = 0) := fun hinvalid => by
    rw [listDeploymentWork, if_pos hinvalid] at h
    cases h
  rw [listDeploymentWork_eq_page hnamed hvalid, page_eq] at h
  cases h
  exact ⟨rfl, rfl⟩

/-- What a page is read from. A row without an id is never inserted. -/
structure Contents where
  store : Store
  now : Time
  named : ∀ d ∈ store.deployments.rows, d.id ≠ ""

theorem Store.named_createDeployment {st st' : Store} {d : Deployment} {now : Time}
    (h : st.createDeployment d now = .ok st')
    (hnamed : ∀ d ∈ st.deployments.rows, d.id ≠ "") : ∀ d ∈ st'.deployments.rows, d.id ≠ "" := by
  obtain ⟨d', hn, -, -, rfl⟩ := createDeployment_ok h
  intro row hrow
  rcases Table.find_insert_cases (Table.find_of_mem hrow) with ⟨-, rfl, -⟩ | hold
  · intro hid
    have hempty : Text.trimSpace d'.id = "" := by
      rw [show d'.id = "" from hid]
      decide +kernel
    obtain ⟨name, plan, template, rfl⟩ := normalizeDeployment_ok hn
    rw [Text.trimSpace_trimSpace] at hempty
    simp [normalizeDeployment, hempty] at hn
  · exact hnamed row (Table.mem_of_find hold)

def Contents.work (contents : Contents) (kind : WorkKind) : List String :=
  (contents.store.deployments.rows.filter (·.isWork contents.now kind)).map Deployment.id

/-! ### The scheduler -/

inductive LaneKind where
  | provision | monitor | cleanup
  deriving DecidableEq, Repr

def LaneKind.work : LaneKind → WorkKind
  | .provision => .provision
  | .monitor => .monitor
  | .cleanup => .cleanup

def LaneKind.capacity : LaneKind → Nat
  | .provision => 4
  | .monitor => 8
  | .cleanup => 4

structure Lane where
  active : Nat := 0
  afterID : String := ""
  exhausted : Bool := false

/-- What a lane has done in one walk over its list: the ids on the list whenever it has read a page,
and the ids that it has passed, the last one first, with whether it started a call; there was one
under way if it did not. -/
structure Cycle where
  pages : List (List String) := []
  passed : List (String × Bool) := []

structure Scheduler where
  lanes : LaneKind → Lane := fun _ => {}
  inFlight : List String := []
  /-- The calls whose completion has not been received, with the lane that started them. -/
  calls : List (String × LaneKind) := []
  cycles : LaneKind → Cycle := fun _ => {}
  /-- The cycles at whose end the lane was marked exhausted. -/
  finished : List (LaneKind × Cycle) := []

namespace Scheduler

def setLane (s : Scheduler) (l : LaneKind) (lane : Lane) : Scheduler :=
  { s with lanes := Function.update s.lanes l lane }

def setCycle (s : Scheduler) (l : LaneKind) (cycle : Cycle) : Scheduler :=
  { s with cycles := Function.update s.cycles l cycle }

/-- The cursor of a lane moves to an id. A call is started unless one is under way. -/
def passItem (s : Scheduler) (l : LaneKind) (id : String) : Scheduler :=
  let lane := { s.lanes l with afterID := id }
  let cycle := s.cycles l
  if id ∈ s.inFlight then
    (s.setLane l lane).setCycle l { cycle with passed := (id, false) :: cycle.passed }
  else
    { (s.setLane l { lane with active := lane.active + 1 }).setCycle l
        { cycle with passed := (id, true) :: cycle.passed } with
      inFlight := id :: s.inFlight
      calls := (id, l) :: s.calls }

/-- Pass the items of a page until the lane is full, and whether all were passed. -/
def takeItems (l : LaneKind) : List String → Scheduler → Scheduler × Bool
  | [], s => (s, true)
  | id :: ids, s =>
    if (s.lanes l).active = l.capacity then (s, false) else takeItems l ids (s.passItem l id)

def exhaust (s : Scheduler) (l : LaneKind) : Scheduler :=
  { (s.setLane l { s.lanes l with exhausted := true, afterID := "" }).setCycle l {} with
    finished := (l, s.cycles l) :: s.finished }

/-- Pass a page that was read when the given ids were on the list. -/
def takePage (s : Scheduler) (l : LaneKind) (work : List String) (items : List Deployment)
    (more : Bool) : Scheduler :=
  let cycle := s.cycles l
  let (s, consumed) := takeItems l (items.map Deployment.id)
    (s.setCycle l { cycle with pages := work :: cycle.pages })
  if !more && consumed then s.exhaust l else s

/-- The room of a lane, and room to skip the calls under way. -/
def limit (s : Scheduler) (l : LaneKind) : Nat := l.capacity - (s.lanes l).active + s.inFlight.length

def wants (s : Scheduler) (l : LaneKind) : Bool :=
  !(s.lanes l).exhausted && decide ((s.lanes l).active < l.capacity)

/-- A scheduling pass of a lane. Each page is read from a store of its own, or fails; there is no
result where the pass asks for more pages than are given. -/
def schedule (l : LaneKind) : List (Option Contents) → Scheduler → Option Scheduler
  | [], s => if s.wants l then none else some s
  | answer :: answers, s =>
    if s.wants l then
      match answer with
      | none => some s
      | some contents =>
        match contents.store.listDeploymentWork l.work (s.lanes l).afterID (s.limit l)
            contents.now with
        | none => some s
        | some (items, more) =>
          schedule l answers (s.takePage l (contents.work l.work) items more)
    else some s

def reset (s : Scheduler) (l : LaneKind) : Scheduler :=
  s.setLane l { s.lanes l with exhausted := false }

def complete (s : Scheduler) (id : String) (l : LaneKind) : Scheduler :=
  { s.setLane l { s.lanes l with active := (s.lanes l).active - 1 } with
    inFlight := s.inFlight.erase id
    calls := s.calls.erase (id, l) }

/-- The lanes in the order in which they are scheduled. -/
def laneKinds : List LaneKind := [.provision, .monitor, .cleanup]

/-- What the loop of the scheduler receives, with what the store answers. -/
inductive Event where
  | tick (answers : LaneKind → List (Option Contents))
  | notify (answers : LaneKind → List (Option Contents))
  | completed (id : String) (l : LaneKind) (answers : List (Option Contents))

def handle (s : Scheduler) : Event → Option Scheduler
  | .tick answers => laneKinds.foldlM (fun s l => schedule l (answers l) (s.reset l)) s
  | .notify answers =>
    laneKinds.foldlM (fun s l => schedule l (answers l) s) (s.reset .provision)
  | .completed id l answers =>
    if (id, l) ∈ s.calls then schedule l answers (s.complete id l) else none

end Scheduler

end CiRunner.Deployments
