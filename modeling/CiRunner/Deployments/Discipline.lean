import CiRunner.Deployments.Scheduler

/-! The discipline of the scheduler: one call for a deployment at a time, no lane over its
capacity, the ids of a cycle in ascending order, and no id left out that was on the list
all the time. A pass of a lane reads one page at most, since a page has room for the
calls under way. -/

namespace CiRunner.Deployments

open Tables
open CiRunner.State (Time)

namespace Scheduler

variable {s s' : Scheduler} {l : LaneKind} {id : String}

/-! ### Passing items -/

theorem takeItems_induction {P : Scheduler → Prop}
    (h : ∀ s id, (s.lanes l).active ≠ l.capacity → P s → P (s.passItem l id)) (ids : List String)
    (hs : P s) : P (takeItems l ids s).1 := by
  induction ids generalizing s with
  | nil => exact hs
  | cons id ids ih =>
    rw [takeItems]
    split
    · exact hs
    · exact ih (h s id ‹_› hs)

theorem passItem_cases (s : Scheduler) (l : LaneKind) (id : String) :
    (id ∈ s.inFlight ∧ s.passItem l id = (s.setLane l { s.lanes l with afterID := id }).setCycle l
      { s.cycles l with passed := (id, false) :: (s.cycles l).passed }) ∨
    (id ∉ s.inFlight ∧ s.passItem l id =
      { (s.setLane l
            { s.lanes l with afterID := id, active := (s.lanes l).active + 1 }).setCycle l
          { s.cycles l with passed := (id, true) :: (s.cycles l).passed } with
        inFlight := id :: s.inFlight
        calls := (id, l) :: s.calls }) := by
  unfold passItem
  by_cases h : id ∈ s.inFlight
  · exact .inl ⟨h, if_pos h⟩
  · exact .inr ⟨h, if_neg h⟩

/-- The cursor is at the last id that was passed. -/
def AtCursor (s : Scheduler) (l : LaneKind) : Prop :=
  (s.lanes l).afterID = ((s.cycles l).passed.head?.map Prod.fst).getD ""

theorem atCursor_passItem (s : Scheduler) (l : LaneKind) (id : String) :
    (s.passItem l id).AtCursor l := by
  rcases s.passItem_cases l id with ⟨-, he⟩ | ⟨-, he⟩ <;>
    simp [he, AtCursor, setLane, setCycle]

/-- Nothing changes for the other lanes, in the pages read and in the cycles finished. -/
structure Frame (l : LaneKind) (s s' : Scheduler) : Prop where
  lanes : ∀ l', l' ≠ l → s'.lanes l' = s.lanes l'
  cycles : ∀ l', l' ≠ l → s'.cycles l' = s.cycles l'
  pages : (s'.cycles l).pages = (s.cycles l).pages
  finished : s'.finished = s.finished

theorem frame_passItem (s : Scheduler) (l : LaneKind) (id : String) :
    Frame l s (s.passItem l id) := by
  rcases s.passItem_cases l id with ⟨-, he⟩ | ⟨-, he⟩ <;> rw [he] <;>
    constructor <;> simp +contextual [setLane, setCycle]

theorem frame_takeItems (s : Scheduler) (l : LaneKind) (ids : List String) :
    Frame l s (takeItems l ids s).1 := by
  refine takeItems_induction (P := Frame l s) ?_ ids ⟨fun _ _ => rfl, fun _ _ => rfl, rfl, rfl⟩
  intro t id _ h
  have hstep := frame_passItem t l id
  exact ⟨fun l' hl => (hstep.lanes l' hl).trans (h.lanes l' hl),
    fun l' hl => (hstep.cycles l' hl).trans (h.cycles l' hl), hstep.pages.trans h.pages,
    hstep.finished.trans h.finished⟩

/-- The ids that a lane has passed in its cycle, the last one first. -/
def passedIDs (s : Scheduler) (l : LaneKind) : List String := (s.cycles l).passed.map Prod.fst

theorem passedIDs_passItem (s : Scheduler) (l : LaneKind) (id : String) :
    (s.passItem l id).passedIDs l = id :: s.passedIDs l := by
  rcases s.passItem_cases l id with ⟨-, he⟩ | ⟨-, he⟩ <;>
    simp [he, passedIDs, setLane, setCycle]

theorem passedIDs_takeItems (s : Scheduler) (l : LaneKind) (ids : List String) :
    ∃ n, (takeItems l ids s).1.passedIDs l = (ids.take n).reverse ++ s.passedIDs l ∧
      ((takeItems l ids s).2 = true → ids.length ≤ n) ∧
      ((takeItems l ids s).2 = false → ((takeItems l ids s).1.lanes l).active = l.capacity) := by
  induction ids generalizing s with
  | nil => exact ⟨0, rfl, fun _ => Nat.le_refl _, fun h => by cases h⟩
  | cons id ids ih =>
    rw [takeItems]
    split
    · exact ⟨0, rfl, (by simp), fun _ => ‹_›⟩
    · obtain ⟨n, hpassed, hall, hfull⟩ := ih (s.passItem l id)
      refine ⟨n + 1, ?_, fun h => Nat.succ_le_succ (hall h), hfull⟩
      rw [hpassed, passedIDs_passItem, List.take_succ_cons, List.reverse_cons, List.append_assoc]
      rfl

/-! ### Counting calls -/

structure Counted (s : Scheduler) : Prop where
  flight : s.inFlight = s.calls.map Prod.fst
  once : s.inFlight.Nodup
  active : ∀ l, (s.lanes l).active = s.calls.countP fun c => decide (c.2 = l)
  capacity : ∀ l, (s.lanes l).active ≤ l.capacity

theorem Counted.passItem (h : s.Counted) (hl : (s.lanes l).active ≠ l.capacity) (id : String) :
    (s.passItem l id).Counted := by
  have hlt : (s.lanes l).active < l.capacity := Nat.lt_of_le_of_ne (h.capacity l) hl
  rcases s.passItem_cases l id with ⟨-, he⟩ | ⟨hid, he⟩
  · have hactive (l' : LaneKind) : ((s.passItem l id).lanes l').active = (s.lanes l').active := by
      by_cases hl' : l' = l <;> simp [he, setLane, setCycle, hl']
    refine ⟨?_, ?_, fun l' => ?_, fun l' => ?_⟩
    · rw [he]
      exact h.flight
    · rw [he]
      exact h.once
    · rw [hactive, h.active, he]
      rfl
    · rw [hactive]
      exact h.capacity l'
  · have hactive (l' : LaneKind) : ((s.passItem l id).lanes l').active =
        (s.lanes l').active + if l = l' then 1 else 0 := by
      by_cases hl' : l' = l
      · simp [he, setLane, setCycle, hl']
      · simp [he, setLane, setCycle, hl', Ne.symm hl']
    refine ⟨?_, ?_, fun l' => ?_, fun l' => ?_⟩
    · rw [he]
      exact congrArg (id :: ·) h.flight
    · rw [he]
      exact List.nodup_cons.mpr ⟨hid, h.once⟩
    · rw [hactive, h.active, he, List.countP_cons]
      simp only [decide_eq_true_eq]
    · rw [hactive]
      split
      · subst l'
        exact hlt
      · exact h.capacity l'

theorem Counted.takeItems (h : s.Counted) (l : LaneKind) (ids : List String) :
    (takeItems l ids s).1.Counted :=
  takeItems_induction (P := Counted) (fun _ id hl h => h.passItem hl id) ids h

theorem active_takeItems {ids : List String} (hids : ids.Nodup)
    (h : (Scheduler.takeItems l ids s).2 = true) :
    ((Scheduler.takeItems l ids s).1.lanes l).active + ids.countP (fun id => decide (id ∈ s.inFlight)) =
      (s.lanes l).active + ids.length := by
  induction ids generalizing s with
  | nil => rfl
  | cons id ids ih =>
    rw [takeItems] at h ⊢
    split at h
    · cases h
    · rename_i hl
      rw [if_neg hl]
      obtain ⟨hid, hids⟩ := List.nodup_cons.mp hids
      have hrest := ih hids h
      rcases s.passItem_cases l id with ⟨hbusy, he⟩ | ⟨hfree, he⟩
      · have hactive : ((s.passItem l id).lanes l).active = (s.lanes l).active := by
          simp [he, setLane, setCycle]
        have hflight : (s.passItem l id).inFlight = s.inFlight := by
          rw [he]
          rfl
        rw [hactive, hflight] at hrest
        rw [List.countP_cons_of_pos (by simpa using hbusy), List.length_cons]
        omega
      · have hactive : ((s.passItem l id).lanes l).active = (s.lanes l).active + 1 := by
          simp [he, setLane, setCycle]
        have hflight : (s.passItem l id).inFlight = id :: s.inFlight := by
          rw [he]
        have hcount : ids.countP (fun x => decide (x ∈ id :: s.inFlight)) =
            ids.countP (fun x => decide (x ∈ s.inFlight)) := by
          refine List.countP_congr fun x hx => ?_
          have hne : x ≠ id := fun e => hid (e ▸ hx)
          simp [hne]
        rw [hactive, hflight, hcount] at hrest
        rw [List.countP_cons_of_neg (by simpa using hfree), List.length_cons]
        omega

end Scheduler

/-! ### Cycles -/

/-- The ids of the pages that were read, as far as they were on the list each time. -/
def Cycle.Lasting (c : Cycle) (id : String) : Prop := ∀ page ∈ c.pages, id ∈ page

/-- The ids were passed in ascending order, with no lasting id left out on the way. -/
structure Cycle.Walks (c : Cycle) : Prop where
  order : (c.passed.map Prod.fst).Pairwise (· > ·)
  covered : ∀ id, c.Lasting id → (∃ x ∈ c.passed.map Prod.fst, id ≤ x) →
    id ∈ c.passed.map Prod.fst

/-- No lasting id was left out at all. -/
structure Cycle.Complete (c : Cycle) : Prop where
  order : (c.passed.map Prod.fst).Pairwise (· > ·)
  covered : ∀ id, c.Lasting id → id ∈ c.passed.map Prod.fst

theorem Cycle.walks_empty : Cycle.Walks {} := ⟨.nil, fun _ _ ⟨_, h, _⟩ => by cases h⟩

section Page

variable {c c' : Cycle} {contents : Contents} {kind : WorkKind} {afterID id : String}

/-- The ids of the work behind the cursor. -/
def Contents.after (contents : Contents) (kind : WorkKind) (afterID : String) : List String :=
  (contents.store.workAfter kind afterID contents.now).map Deployment.id

theorem Contents.after_lt (contents : Contents) (kind : WorkKind) (afterID : String) :
    (contents.after kind afterID).Pairwise (· < ·) :=
  ordered_lt contents.store.deployments.nodup

theorem Contents.mem_after : id ∈ contents.after kind afterID ↔
    id ∈ contents.work kind ∧ afterID < id := by
  simp only [after, Store.workAfter, work, List.mem_map, mem_ordered, List.mem_filter,
    Bool.and_eq_true, decide_eq_true_eq]
  constructor
  · rintro ⟨d, ⟨hd, hwork, hlt⟩, rfl⟩
    exact ⟨⟨d, ⟨hd, hwork⟩, rfl⟩, hlt⟩
  · rintro ⟨⟨d, ⟨hd, hwork⟩, rfl⟩, hlt⟩
    exact ⟨d, ⟨hd, hwork, hlt⟩, rfl⟩

theorem Cycle.Walks.le_cursor (h : c.Walks)
    (hafter : afterID = (c.passed.head?.map Prod.fst).getD "") (hid : id ∈ c.passed.map Prod.fst) :
    id ≤ afterID := by
  obtain ⟨pages, passed⟩ := c
  cases passed with
  | nil => cases hid
  | cons p passed =>
    obtain rfl : afterID = p.1 := hafter
    rcases List.mem_cons.mp hid with rfl | hid
    · exact le_refl _
    · exact le_of_lt ((List.pairwise_cons.mp h.order).1 id hid)

theorem Cycle.cursor_lt (hafter : afterID = (c.passed.head?.map Prod.fst).getD "")
    (hne : id ≠ "") (hnot : ¬∃ x ∈ c.passed.map Prod.fst, id ≤ x) : afterID < id := by
  obtain ⟨pages, passed⟩ := c
  cases passed with
  | nil =>
    obtain rfl : afterID = "" := hafter
    exact empty_lt hne
  | cons p passed =>
    obtain rfl : afterID = p.1 := hafter
    exact lt_of_not_ge fun hle => hnot ⟨p.1, List.mem_cons_self, hle⟩

theorem Cycle.mem_after_of_lasting (hafter : afterID = (c.passed.head?.map Prod.fst).getD "")
    (hpages : c'.pages = contents.work kind :: c.pages) (hlasting : c'.Lasting id)
    (hnot : ¬∃ x ∈ c.passed.map Prod.fst, id ≤ x) : id ∈ contents.after kind afterID := by
  have hwork : id ∈ contents.work kind := hlasting _ (hpages ▸ List.mem_cons_self)
  refine Contents.mem_after.mpr ⟨hwork, Cycle.cursor_lt hafter ?_ hnot⟩
  obtain ⟨d, hd, rfl⟩ := List.mem_map.mp hwork
  exact contents.named d (List.mem_filter.mp hd).1

theorem Cycle.Walks.page (h : c.Walks)
    (hafter : afterID = (c.passed.head?.map Prod.fst).getD "")
    (hpages : c'.pages = contents.work kind :: c.pages) {n : Nat}
    (hpassed : c'.passed.map Prod.fst =
      ((contents.after kind afterID).take n).reverse ++ c.passed.map Prod.fst) :
    c'.Walks ∧ ((contents.after kind afterID).length ≤ n → c'.Complete) := by
  have hold {id : String} (hlasting : c'.Lasting id)
      (hle : ∃ x ∈ c.passed.map Prod.fst, id ≤ x) : id ∈ c'.passed.map Prod.fst := by
    rw [hpassed]
    refine List.mem_append_right _ (h.covered id (fun page hp => hlasting page ?_) hle)
    exact hpages ▸ List.mem_cons_of_mem _ hp
  have horder : (c'.passed.map Prod.fst).Pairwise (· > ·) := by
    rw [hpassed, List.pairwise_append]
    refine ⟨?_, h.order, fun x hx y hy => ?_⟩
    · exact List.pairwise_reverse.mpr
        ((contents.after_lt kind afterID).sublist (List.take_sublist ..))
    · have hlt := (Contents.mem_after.mp (List.mem_of_mem_take (List.mem_reverse.mp hx))).2
      exact lt_of_le_of_lt (h.le_cursor hafter hy) hlt
  refine ⟨⟨horder, fun id hlasting ⟨x, hx, hle⟩ => ?_⟩, fun hall => ⟨horder, fun id hlasting => ?_⟩⟩
  · by_cases hnot : ∃ x ∈ c.passed.map Prod.fst, id ≤ x
    · exact hold hlasting hnot
    · have hmem := Cycle.mem_after_of_lasting hafter hpages hlasting hnot
      rw [hpassed, List.mem_append, List.mem_reverse] at hx ⊢
      rcases hx with hx | hx
      · exact .inl (mem_take_of_le (contents.after_lt kind afterID) hmem hx hle)
      · exact absurd ⟨x, hx, hle⟩ hnot
  · by_cases hnot : ∃ x ∈ c.passed.map Prod.fst, id ≤ x
    · exact hold hlasting hnot
    · have hmem := Cycle.mem_after_of_lasting hafter hpages hlasting hnot
      rw [hpassed, List.mem_append, List.mem_reverse, List.take_of_length_le hall]
      exact .inl hmem

end Page

/-! ### Passes -/

namespace Scheduler

variable {s s' : Scheduler} {l : LaneKind} {contents : Contents} {items : List Deployment}
  {more : Bool}

structure Inv (s : Scheduler) : Prop extends s.Counted where
  cursor : ∀ l, s.AtCursor l
  walks : ∀ l, (s.cycles l).Walks
  finished : ∀ c ∈ s.finished, c.2.Complete

/-- The state in which the items of a page are taken. -/
def withPage (s : Scheduler) (l : LaneKind) (work : List String) : Scheduler :=
  s.setCycle l { s.cycles l with pages := work :: (s.cycles l).pages }

theorem takePage_eq (s : Scheduler) (l : LaneKind) (work : List String) (items : List Deployment)
    (more : Bool) : s.takePage l work items more =
      if !more && (takeItems l (items.map Deployment.id) (s.withPage l work)).2 then
        (takeItems l (items.map Deployment.id) (s.withPage l work)).1.exhaust l
      else (takeItems l (items.map Deployment.id) (s.withPage l work)).1 := rfl

theorem Counted.withPage (h : s.Counted) (l : LaneKind) (work : List String) :
    (s.withPage l work).Counted :=
  ⟨h.flight, h.once, h.active, h.capacity⟩

theorem Counted.exhaust (h : s.Counted) (l : LaneKind) : (s.exhaust l).Counted := by
  have hactive (l' : LaneKind) : ((s.exhaust l).lanes l').active = (s.lanes l').active := by
    by_cases hl : l' = l <;> simp [Scheduler.exhaust, setLane, setCycle, hl]
  exact ⟨h.flight, h.once, fun l' => (hactive l').trans (h.active l'),
    fun l' => (hactive l').trans_le (h.capacity l')⟩

theorem Inv.exhaust (h : s.Inv) (hc : (s.cycles l).Complete) : (s.exhaust l).Inv where
  toCounted := h.toCounted.exhaust l
  cursor l' := by
    by_cases hl : l' = l
    · simp [AtCursor, Scheduler.exhaust, setLane, setCycle, hl]
    · have := h.cursor l'
      simpa [AtCursor, Scheduler.exhaust, setLane, setCycle, hl] using this
  walks l' := by
    by_cases hl : l' = l
    · simpa [Scheduler.exhaust, setLane, setCycle, hl] using Cycle.walks_empty
    · simpa [Scheduler.exhaust, setLane, setCycle, hl] using h.walks l'
  finished c hc' := by
    rcases List.mem_cons.mp hc' with rfl | hc'
    · exact hc
    · exact h.finished c hc'

/-- The items of a page are the first of the work behind the cursor. -/
structure IsPage (s : Scheduler) (l : LaneKind) (contents : Contents) (items : List Deployment)
    (more : Bool) : Prop where
  items : items.map Deployment.id =
    (contents.after l.work (s.lanes l).afterID).take (s.limit l)
  more : more = decide (s.limit l < (contents.after l.work (s.lanes l).afterID).length)

theorem isPage_of_list (h : contents.store.listDeploymentWork l.work (s.lanes l).afterID (s.limit l)
    contents.now = some (items, more)) : s.IsPage l contents items more := by
  obtain ⟨hitems, hmore⟩ := Store.listDeploymentWork_spec contents.named h
  exact ⟨by rw [hitems, List.map_take]; rfl, by rw [hmore, Contents.after, List.length_map]⟩

theorem Inv.takePage (h : s.Inv) (hpage : s.IsPage l contents items more) :
    (s.takePage l (contents.work l.work) items more).Inv := by
  rw [takePage_eq]
  generalize ht : takeItems l (items.map Deployment.id) (s.withPage l (contents.work l.work)) = t
  have hframe := frame_takeItems (s.withPage l (contents.work l.work)) l (items.map Deployment.id)
  obtain ⟨n, hpassed, hall, -⟩ :=
    passedIDs_takeItems (s.withPage l (contents.work l.work)) l (items.map Deployment.id)
  have hcursor : t.1.AtCursor l := by
    rw [← ht]
    refine takeItems_induction (P := fun s => s.AtCursor l)
      (fun s id _ _ => atCursor_passItem s l id) _ ?_
    simpa [AtCursor, withPage, setCycle] using h.cursor l
  rw [ht] at hframe hpassed hall
  have hpages : (t.1.cycles l).pages = contents.work l.work :: (s.cycles l).pages := by
    rw [hframe.pages]
    simp [withPage, setCycle]
  have hpassed' : (t.1.cycles l).passed.map Prod.fst =
      ((contents.after l.work (s.lanes l).afterID).take (min n (s.limit l))).reverse ++
        (s.cycles l).passed.map Prod.fst := by
    have hbefore : (s.withPage l (contents.work l.work)).passedIDs l =
        (s.cycles l).passed.map Prod.fst := by
      simp [passedIDs, withPage, setCycle]
    rw [hpage.items, List.take_take, hbefore] at hpassed
    exact hpassed
  obtain ⟨hwalks, hcomplete⟩ := (h.walks l).page (h.cursor l) hpages hpassed'
  have hinv : t.1.Inv := by
    refine ⟨?_, fun l' => ?_, fun l' => ?_, ?_⟩
    · rw [← ht]
      exact (h.toCounted.withPage l _).takeItems l _
    · by_cases hl : l' = l
      · exact hl ▸ hcursor
      · have := h.cursor l'
        rw [AtCursor, hframe.lanes l' hl, hframe.cycles l' hl]
        simpa [AtCursor, withPage, setCycle, hl] using this
    · by_cases hl : l' = l
      · exact hl ▸ hwalks
      · rw [hframe.cycles l' hl]
        simpa [withPage, setCycle, hl] using h.walks l'
    · rw [hframe.finished]
      exact h.finished
  split
  · rename_i hend
    rw [Bool.and_eq_true, Bool.not_eq_true', hpage.more, decide_eq_false_iff_not] at hend
    refine hinv.exhaust (hcomplete ?_)
    have hlength := hall hend.2
    rw [hpage.items, List.length_take] at hlength
    omega
  · exact hinv

theorem Inv.schedule (h : s.Inv) {answers : List (Option Contents)}
    (hs : schedule l answers s = some s') : s'.Inv := by
  induction answers generalizing s with
  | nil =>
    unfold Scheduler.schedule at hs
    split at hs
    · cases hs
    · cases hs
      exact h
  | cons answer answers ih =>
    unfold Scheduler.schedule at hs
    split at hs
    · split at hs
      · cases hs
        exact h
      · split at hs
        · cases hs
          exact h
        · rename_i hlist
          exact ih (h.takePage (isPage_of_list hlist)) hs
    · cases hs
      exact h

/-! ### A pass ends -/

theorem countP_mem_le {ids busy : List String} (h : ids.Nodup) :
    ids.countP (fun id => decide (id ∈ busy)) ≤ busy.length := by
  rw [List.countP_eq_length_filter]
  refine ((h.filter _).subperm fun id hid => ?_).length_le
  simpa using (List.mem_filter.mp hid).2

theorem full_of_more (h : s.Counted) (hpage : s.IsPage l contents items true)
    (hall : (takeItems l (items.map Deployment.id) (s.withPage l (contents.work l.work))).2 = true) :
    ((takeItems l (items.map Deployment.id)
      (s.withPage l (contents.work l.work))).1.lanes l).active = l.capacity := by
  have hcounted := (h.withPage l (contents.work l.work)).takeItems l (items.map Deployment.id)
  have hids : (items.map Deployment.id).Nodup := by
    rw [hpage.items]
    exact ((contents.after_lt _ _).imp ne_of_lt).sublist (List.take_sublist ..)
  have hlength : (items.map Deployment.id).length = s.limit l := by
    have hmore := of_decide_eq_true hpage.more.symm
    rw [hpage.items, List.length_take]
    omega
  have hactive := active_takeItems (s := s.withPage l (contents.work l.work)) hids hall
  have hbusy := @countP_mem_le _ s.inFlight hids
  have hroom := h.capacity l
  have hcapacity := hcounted.capacity l
  rw [hlength, limit] at hactive
  change _ + _ = (s.lanes l).active + _ at hactive
  change _ + (items.map Deployment.id).countP (fun id => decide (id ∈ s.inFlight)) = _ at hactive
  omega

theorem not_wants_takePage (h : s.Counted) (hpage : s.IsPage l contents items more) :
    (s.takePage l (contents.work l.work) items more).wants l = false := by
  rw [takePage_eq]
  split
  · simp [wants, exhaust, setLane, setCycle]
  · rename_i hend
    suffices hfull : ((takeItems l (items.map Deployment.id)
        (s.withPage l (contents.work l.work))).1.lanes l).active = l.capacity by
      simp [wants, hfull]
    rcases hall : (takeItems l (items.map Deployment.id)
        (s.withPage l (contents.work l.work))).2 with _ | _
    · obtain ⟨n, -, -, hfull⟩ :=
        passedIDs_takeItems (s.withPage l (contents.work l.work)) l (items.map Deployment.id)
      exact hfull hall
    · cases more with
      | true => exact full_of_more h hpage hall
      | false => simp [hall] at hend

theorem isSome_schedule (h : s.Counted) (l : LaneKind) (answer : Option Contents)
    (answers : List (Option Contents)) : (schedule l (answer :: answers) s).isSome := by
  unfold schedule
  split
  · split
    · rfl
    · split
      · rfl
      · rename_i hlist
        have hdone := not_wants_takePage h (isPage_of_list hlist)
        cases answers with
        | nil => simp [schedule, hdone]
        | cons => simp [schedule, hdone]
  · rfl

/-! ### Runs -/

/-- The steps that the events of the scheduler are made of. -/
inductive Step : Scheduler → Scheduler → Prop where
  | reset {s : Scheduler} (l : LaneKind) : Step s (s.reset l)
  | schedule {s s' : Scheduler} {l : LaneKind} {answers : List (Option Contents)}
      (h : schedule l answers s = some s') : Step s s'
  | complete {s : Scheduler} {id : String} {l : LaneKind} (h : (id, l) ∈ s.calls) :
      Step s (s.complete id l)

/-- The states that the scheduler goes through. -/
abbrev Reached : Scheduler → Prop := Relation.ReflTransGen Step {}

theorem steps_foldlM {f : Scheduler → LaneKind → Option Scheduler}
    (hf : ∀ s l s', f s l = some s' → Relation.ReflTransGen Step s s') {ls : List LaneKind}
    (h : ls.foldlM f s = some s') : Relation.ReflTransGen Step s s' := by
  induction ls generalizing s with
  | nil => cases h; exact .refl
  | cons l ls ih =>
    rw [List.foldlM_cons] at h
    obtain ⟨t, ht, hs'⟩ := Option.bind_eq_some_iff.mp h
    exact (hf s l t ht).trans (ih hs')

/-- Every event is made of such steps. -/
theorem reached_handle (hs : Reached s) {e : Event} (h : s.handle e = some s') : Reached s' := by
  refine hs.trans ?_
  cases e with
  | tick answers =>
    refine steps_foldlM (fun s l s' h => ?_) h
    exact .head (.reset l) (.single (.schedule h))
  | notify answers =>
    refine .head (.reset .provision) (steps_foldlM (fun s l s' h => ?_) h)
    exact .single (.schedule h)
  | completed id l answers =>
    simp only [handle] at h
    split at h
    · exact .head (.complete ‹_›) (.single (.schedule h))
    · cases h

theorem Inv.reset (h : s.Inv) (l : LaneKind) : (s.reset l).Inv := by
  have hactive (l' : LaneKind) : ((s.reset l).lanes l').active = (s.lanes l').active := by
    by_cases hl : l' = l <;> simp [Scheduler.reset, setLane, hl]
  have hafter (l' : LaneKind) : ((s.reset l).lanes l').afterID = (s.lanes l').afterID := by
    by_cases hl : l' = l <;> simp [Scheduler.reset, setLane, hl]
  exact ⟨⟨h.flight, h.once, fun l' => (hactive l').trans (h.active l'),
    fun l' => (hactive l').trans_le (h.capacity l')⟩, fun l' => (hafter l').trans (h.cursor l'),
    h.walks, h.finished⟩

theorem map_fst_erase {calls : List (String × LaneKind)} {id : String}
    (hn : (calls.map Prod.fst).Nodup) (h : (id, l) ∈ calls) :
    (calls.erase (id, l)).map Prod.fst = (calls.map Prod.fst).erase id := by
  induction calls with
  | nil => cases h
  | cons c calls ih =>
    obtain ⟨hc, hn⟩ := List.nodup_cons.mp hn
    rcases List.mem_cons.mp h with rfl | h
    · rw [List.erase_cons_head, List.map_cons, List.erase_cons_head]
    · have hne : c.1 ≠ id := fun e => hc (e ▸ List.mem_map_of_mem h)
      have hne' : c ≠ (id, l) := fun e => hne (congrArg Prod.fst e)
      rw [List.erase_cons_tail (by simpa using hne'), List.map_cons, List.map_cons,
        List.erase_cons_tail (by simpa using hne), ih hn h]

theorem Inv.complete (h : s.Inv) {id : String} (hc : (id, l) ∈ s.calls) : (s.complete id l).Inv := by
  have hafter (l' : LaneKind) : ((s.complete id l).lanes l').afterID = (s.lanes l').afterID := by
    by_cases hl : l' = l <;> simp [Scheduler.complete, setLane, hl]
  have hactive (l' : LaneKind) : ((s.complete id l).lanes l').active =
      (s.calls.erase (id, l)).countP fun c => decide (c.2 = l') := by
    have hcount := (List.perm_cons_erase hc).countP_eq fun c => decide (c.2 = l')
    rw [List.countP_cons, ← h.active l'] at hcount
    by_cases hl : l' = l
    · subst hl
      simp only [Scheduler.complete, setLane, Function.update_self]
      simp only [decide_true, if_true] at hcount
      omega
    · simp only [Scheduler.complete, setLane, Function.update_of_ne hl]
      simpa [Ne.symm hl] using hcount
  refine ⟨⟨?_, h.once.erase id, hactive, fun l' => ?_⟩, fun l' => (hafter l').trans (h.cursor l'),
    h.walks, h.finished⟩
  · have hn : (s.calls.map Prod.fst).Nodup := h.flight ▸ h.once
    exact (congrArg (List.erase · id) h.flight).trans (map_fst_erase hn hc).symm
  · refine (hactive l').trans_le (le_trans ?_ (h.capacity l'))
    rw [h.active l']
    exact List.Sublist.countP_le (List.erase_sublist ..)

theorem inv_initial : Inv {} where
  flight := rfl
  once := .nil
  active _ := rfl
  capacity _ := Nat.zero_le _
  cursor _ := rfl
  walks _ := Cycle.walks_empty
  finished _ h := by cases h

theorem inv_of_reached (h : Reached s) : s.Inv := by
  induction h with
  | refl => exact inv_initial
  | tail _ hstep ih =>
    cases hstep with
    | reset l => exact ih.reset l
    | schedule h => exact ih.schedule h
    | complete h => exact ih.complete h

end Scheduler

/-- The ids that a cycle has started calls for, in the order in which it did. -/
def Cycle.started (c : Cycle) : List String := ((c.passed.filter Prod.snd).map Prod.fst).reverse

theorem Cycle.started_lt {c : Cycle} (h : (c.passed.map Prod.fst).Pairwise (· > ·)) :
    c.started.Pairwise (· < ·) :=
  List.pairwise_reverse.mpr (h.sublist (List.filter_sublist.map Prod.fst))

theorem Cycle.mem_started {c : Cycle} {id : String} (h : id ∈ c.passed.map Prod.fst) :
    id ∈ c.started ∨ (id, false) ∈ c.passed := by
  obtain ⟨⟨id, started⟩, hmem, rfl⟩ := List.mem_map.mp h
  cases started with
  | true =>
    refine .inl (List.mem_reverse.mpr (List.mem_map.mpr ⟨(id, true), ?_, rfl⟩))
    exact List.mem_filter.mpr ⟨hmem, rfl⟩
  | false => exact .inr hmem

/-- In every state that the scheduler goes through, and at every moment of a pass: each deployment
has one call at most, and each lane counts its own calls and is within its capacity. The starts of a
cycle are in ascending order; when a lane is marked exhausted, an id that was on its list all the
time was started, or had a call under way when its turn came. And a pass asks for one page at
most. -/
theorem scheduler_discipline {s : Scheduler} (h : s.Reached) :
    s.Counted ∧ (∀ l ids, (Scheduler.takeItems l ids s).1.Counted) ∧
    (∀ l, (s.cycles l).started.Pairwise (· < ·)) ∧
    (∀ c ∈ s.finished, c.2.started.Pairwise (· < ·) ∧
      ∀ id, c.2.Lasting id → id ∈ c.2.started ∨ (id, false) ∈ c.2.passed) ∧
    ∀ l answer answers, (Scheduler.schedule l (answer :: answers) s).isSome := by
  have hinv := Scheduler.inv_of_reached h
  refine ⟨hinv.toCounted, fun l ids => hinv.toCounted.takeItems l ids, fun l => ?_, fun c hc => ?_,
    fun l answer answers => Scheduler.isSome_schedule hinv.toCounted l answer answers⟩
  · exact Cycle.started_lt (hinv.walks l).order
  · have hcomplete := hinv.finished c hc
    exact ⟨Cycle.started_lt hcomplete.order, fun id hid =>
      Cycle.mem_started (hcomplete.covered id hid)⟩

/-- A deployment that waits until the given time. -/
def waiting (id : String) (expiresAt : Time) : Deployment where
  id := id
  accountID := 1
  scope := ⟨.account, 1⟩
  githubInstallationID := 1
  repositoryID := 1
  repositoryFullName := "owner/app"
  plan := {}
  expiresAt := expiresAt

/-- Two deployments that wait, and one whose time is over. -/
def threeDeployments : Contents where
  store := { Store.empty with
    deployments := ((Table.empty.insert (waiting "b" 100)).insert (waiting "a" 100)).insert
      (waiting "c" 1) }
  now := 5
  named := by decide +kernel

theorem scheduler_discipline_first_tick :
    ∃ s : Scheduler, s.Reached ∧ s.Counted ∧
      s.calls = [("c", .cleanup), ("b", .provision), ("a", .provision)] ∧
      (s.finished.filter fun c => c.1 = .provision).map (fun c => c.2.started) = [["a", "b"]] := by
  have htick : (Scheduler.handle {} (.tick fun _ => [some threeDeployments])).any (fun s =>
      s.calls == [("c", .cleanup), ("b", .provision), ("a", .provision)] &&
      (s.finished.filter fun c => c.1 = .provision).map (fun c => c.2.started) == [["a", "b"]]) =
        true := by
    decide +kernel
  obtain ⟨s, hs, hp⟩ := (Option.any_eq_true ..).mp htick
  simp only [Bool.and_eq_true, beq_iff_eq] at hp
  have hreached := Scheduler.reached_handle .refl hs
  exact ⟨s, hreached, (scheduler_discipline hreached).1, hp.1, hp.2⟩

end CiRunner.Deployments
