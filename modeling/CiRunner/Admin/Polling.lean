import CiRunner.Admin.Requests

/-! The list of runner requests in the browser, and the poll that brings it up to date. The poll
reads the list from its start until it meets the oldest request that was loaded, five
pages at most. Where it meets it on a page with more behind, it keeps the cursor and the
old rows, also those that are no longer on the list; else it replaces all of them. -/

namespace CiRunner.Admin

open Tables
open CiRunner.State (Time)

def adminRunnerRequestPageSize : Nat := 100

def adminRunnerPollPageBudget : Nat := 5

def adminRunnerRefreshWindow : Nat := adminRunnerRequestPageSize * adminRunnerPollPageBudget

/-! ### Polling -/

/-- A cursor is the key of the request that it comes behind; its text is never empty. -/
abbrev Cursor : Type := Timeᵒᵈ ×ₗ String

structure AdminRunnerPage where
  items : List RequestRow
  nextCursor : Option Cursor
  hasMore : Bool

structure AdminRunnerPollResult extends AdminRunnerPage where
  windowReset : Bool := false
  preservePagination : Bool

/-- The rows whose ids were not seen before, each id once. -/
def unseen (seen : List String) : List RequestRow → List RequestRow
  | [] => []
  | runner :: rest =>
    if runner.id ∈ seen then unseen seen rest else runner :: unseen (runner.id :: seen) rest

def mergeAdminRunnerPages (primary existing : List RequestRow) : List RequestRow :=
  unseen [] (primary ++ existing)

def reconcileAdminRunnerPages (primary existing : List RequestRow) (completeWindow : Bool) :
    List RequestRow :=
  if !completeWindow then mergeAdminRunnerPages primary existing
  else mergeAdminRunnerPages primary []

section Collect

variable (requestPage : Option Cursor → Except String AdminRunnerPage) (current : AdminRunnerPage)

/-- The id of the oldest row that is loaded; an empty id does not count. -/
def oldestLoadedID : Option String :=
  current.items.getLast?.bind fun runner => if runner.id = "" then none else some runner.id

def repeatedCursor : String := "Repeated Runner request cursor"

/-- Read page after page while the budget lasts beyond the page at hand. The cursors that were
visited are those of the pages that were requested; they are returned with the result. -/
def collectPages (left : Nat) (visited : List (Option Cursor)) (items : List RequestRow)
    (cursor : Option Cursor) : Except String AdminRunnerPollResult × List (Option Cursor) :=
  if cursor ∈ visited then (.error repeatedCursor, visited)
  else
    match requestPage cursor with
    | .error e => (.error e, cursor :: visited)
    | .ok page =>
      let items := items ++ page.items
      let oldestIndex := (oldestLoadedID current).bind fun id => items.findIdx? (·.id = id)
      match oldestIndex with
      | some oldestIndex =>
        if !page.hasMore then (.ok ⟨⟨items, none, false⟩, false, false⟩, cursor :: visited)
        else (.ok ⟨⟨items.take (oldestIndex + 1), current.nextCursor, current.hasMore⟩, false, true⟩,
          cursor :: visited)
      | none =>
        if !page.hasMore || page.nextCursor.isNone then
          (.ok ⟨⟨items, none, false⟩, false, false⟩, cursor :: visited)
        else
          match left with
          | 0 => (.ok ⟨⟨items, page.nextCursor, true⟩, (oldestLoadedID current).isSome, false⟩,
              cursor :: visited)
          | left + 1 => collectPages left (cursor :: visited) items page.nextCursor

def collectAdminRunnerPoll : Except String AdminRunnerPollResult × List (Option Cursor) :=
  let pageBudget := if (oldestLoadedID current).isSome then adminRunnerPollPageBudget else 1
  collectPages requestPage current (pageBudget - 1) [] [] none

end Collect

structure RunnerList where
  runners : List RequestRow
  cursor : Option Cursor
  hasMore : Bool
  /-- More than the first page was loaded. -/
  historyLoaded : Bool
  /-- The list is shown, not the overview. -/
  shown : Bool
  /-- A page is being loaded. -/
  pageLoading : Bool
  windowReset : Bool := false
  error : String := ""

namespace RunnerList

variable (requestPage : Option Cursor → Except String AdminRunnerPage) (s : RunnerList)

def requestAdminRunnerPoll : Except String AdminRunnerPollResult × List (Option Cursor) :=
  if !s.shown || !s.historyLoaded then
    ((requestPage none).map fun page => ⟨page, false, false⟩, [none])
  else collectAdminRunnerPoll requestPage ⟨s.runners, s.cursor, s.hasMore⟩

/-- There is no poll while a page is being loaded or when too many rows are loaded. -/
def paused : Bool :=
  s.pageLoading ||
    (s.shown && s.historyLoaded && adminRunnerRefreshWindow ≤ s.runners.length)

def accept (result : AdminRunnerPollResult) : RunnerList :=
  { s with
    error := ""
    windowReset := result.windowReset
    runners := reconcileAdminRunnerPages result.items s.runners (!result.preservePagination)
    cursor := if !result.preservePagination then result.nextCursor else s.cursor
    hasMore := if !result.preservePagination then result.hasMore else s.hasMore }

/-- One poll: the list after it, and the cursors of the pages that were requested. -/
def poll : RunnerList × List (Option Cursor) :=
  if s.paused then (s, [])
  else
    match s.requestAdminRunnerPoll requestPage with
    | (.error e, requested) => ({ s with error := e }, requested)
    | (.ok result, requested) => (s.accept result, requested)

end RunnerList

/-! ### Pages of the list -/

section Pages

variable (contents : Contents) (matching : RequestRow → Bool)

def Contents.listed : List RequestRow := ordered RequestRow.key contents.requests.rows matching

def Contents.listedBehind (cursor : Option Cursor) : List RequestRow :=
  ordered RequestRow.key contents.requests.rows
    (fun r => matching r && cursor.all fun k => k < r.key)

def requestAdminRunnerPage (cursor : Option Cursor) : Except String AdminRunnerPage :=
  let (items, hasMore) := contents.keyPage matching adminRunnerRequestPageSize cursor
  .ok ⟨items, if hasMore then items.getLast?.map RequestRow.key else none, hasMore⟩

def cursorText (reader : CursorReader) (filterKey : String) (cursor : Cursor) : String :=
  encodeAdminRunnerRequestCursor
    (cursorOf reader filterKey (OrderDual.ofDual (ofLex cursor).1) (ofLex cursor).2)

variable {contents matching}

theorem handleListRunners_requestAdminRunnerPage {reader : CursorReader} {fold : State.Lowering}
    {query : RunnerQuery} {options : RunnerRequestListOptions} {raw : String}
    {cursor : Option Cursor} (hquery : readRunnerQuery fold query = .ok options)
    (hlimit : options.limit = adminRunnerRequestPageSize)
    (hmatching : filterRunnerRequestList fold options = some matching)
    (hraw : StandsFor reader (options.filterKey reader) raw cursor) :
    handleListRunners reader fold contents { query with cursor := raw } =
      (requestAdminRunnerPage contents matching cursor).map fun page =>
        ⟨page.items, page.nextCursor.map (cursorText reader (options.filterKey reader)),
          page.hasMore⟩ := by
  rw [handleListRunners_eq hquery hmatching hraw, hlimit, requestAdminRunnerPage]
  cases contents.keyPage matching adminRunnerRequestPageSize cursor with
  | mk items hasMore =>
    cases hasMore with
    | false => rfl
    | true =>
      simp only [if_true, Except.map, Option.map_map]
      rfl

theorem nodup_listed : ((contents.listed matching).map RequestRow.requestID).Nodup :=
  ((List.perm_insertionSort _ _).map _).nodup_iff.mpr
    (contents.requests.nodup.sublist (List.filter_sublist.map _))

theorem listedBehind_none : contents.listedBehind matching none = contents.listed matching :=
  ordered_congr fun _ _ => Bool.and_true _

theorem listedBehind_getLast? {n : Nat} {v : RequestRow}
    (hv : ((contents.listed matching).take n).getLast? = some v) :
    contents.listedBehind matching (some v.key) = (contents.listed matching).drop n :=
  ordered_behind_getLast? (nodup_key contents) hv

theorem requestAdminRunnerPage_eq (cursor : Option Cursor) :
    requestAdminRunnerPage contents matching cursor =
      .ok ⟨(contents.listedBehind matching cursor).take adminRunnerRequestPageSize,
        if adminRunnerRequestPageSize < (contents.listedBehind matching cursor).length then
          ((contents.listedBehind matching cursor).take adminRunnerRequestPageSize).getLast?.map
            RequestRow.key
        else none,
        decide (adminRunnerRequestPageSize < (contents.listedBehind matching cursor).length)⟩ := by
  rw [requestAdminRunnerPage, Contents.keyPage, page_eq]
  simp only [decide_eq_true_eq]
  rfl

end Pages

/-! ### What a poll collects -/

section Collected

variable {contents : Contents} {matching : RequestRow → Bool} {current : AdminRunnerPage}
  {i left : Nat} {visited : List (Option Cursor)} {items : List RequestRow}
  {cursor : Option Cursor}

/-- So many pages have been read from the start of the list, and the oldest row that was loaded is
on none of them. -/
structure Collected (contents : Contents) (matching : RequestRow → Bool)
    (current : AdminRunnerPage) (i : Nat) (visited : List (Option Cursor))
    (items : List RequestRow) (cursor : Option Cursor) : Prop where
  items_eq : items = (contents.listed matching).take (i * adminRunnerRequestPageSize)
  behind_eq : contents.listedBehind matching cursor =
    (contents.listed matching).drop (i * adminRunnerRequestPageSize)
  length_visited : visited.length = i
  visited_below : ∀ c ∈ visited, ∃ k, cursor = some k ∧ c.all (· < k) = true
  unmet : ∀ id ∈ oldestLoadedID current, ∀ r ∈ items, r.id ≠ id

theorem collected_start (contents : Contents) (matching : RequestRow → Bool)
    (current : AdminRunnerPage) : Collected contents matching current 0 [] [] none where
  items_eq := by rw [Nat.zero_mul, List.take_zero]
  behind_eq := by rw [Nat.zero_mul, List.drop_zero, listedBehind_none]
  length_visited := rfl
  visited_below _ h := by cases h
  unmet _ _ _ h := by cases h

namespace Collected

variable (h : Collected contents matching current i visited items cursor)
include h

theorem notMem_visited : cursor ∉ visited := by
  intro hmem
  obtain ⟨k, rfl, hlt⟩ := h.visited_below cursor hmem
  exact absurd (of_decide_eq_true hlt) (lt_irrefl k)

theorem append_page : items ++ (contents.listedBehind matching cursor).take
      adminRunnerRequestPageSize =
    (contents.listed matching).take ((i + 1) * adminRunnerRequestPageSize) := by
  rw [h.items_eq, h.behind_eq, Nat.succ_mul, List.take_add]

theorem more_iff : adminRunnerRequestPageSize < (contents.listedBehind matching cursor).length ↔
    (i + 1) * adminRunnerRequestPageSize < (contents.listed matching).length := by
  rw [h.behind_eq, List.length_drop, Nat.succ_mul]
  omega

theorem exists_last
    (hmore : (i + 1) * adminRunnerRequestPageSize < (contents.listed matching).length) :
    ∃ v ∈ contents.listedBehind matching cursor,
      ((contents.listedBehind matching cursor).take adminRunnerRequestPageSize).getLast? = some v ∧
      ((contents.listed matching).take ((i + 1) * adminRunnerRequestPageSize)).getLast? =
        some v := by
  have hne : (contents.listedBehind matching cursor).take adminRunnerRequestPageSize ≠ [] := by
    intro hnil
    have hlength := congrArg List.length hnil
    have hmore := h.more_iff.mpr hmore
    rw [List.length_take, List.length_nil, adminRunnerRequestPageSize] at hlength
    rw [adminRunnerRequestPageSize] at hmore
    omega
  obtain ⟨v, hv⟩ := Option.isSome_iff_exists.mp (List.getLast?_isSome.mpr hne)
  refine ⟨v, List.mem_of_mem_take (List.mem_of_getLast? hv), hv, ?_⟩
  rw [← h.append_page, List.getLast?_append, hv]
  rfl

theorem next {v : RequestRow} (hv : v ∈ contents.listedBehind matching cursor)
    (hlast : ((contents.listed matching).take ((i + 1) * adminRunnerRequestPageSize)).getLast? =
      some v)
    (hunmet : ∀ id ∈ oldestLoadedID current, ∀ r ∈ (contents.listed matching).take
      ((i + 1) * adminRunnerRequestPageSize), r.id ≠ id) :
    Collected contents matching current (i + 1) (cursor :: visited)
      ((contents.listed matching).take ((i + 1) * adminRunnerRequestPageSize))
      (some v.key) where
  items_eq := rfl
  behind_eq := listedBehind_getLast? hlast
  length_visited := by rw [List.length_cons, h.length_visited]
  visited_below := by
    have hbehind : cursor.all (· < v.key) = true :=
      (Bool.and_eq_true_iff.mp (mem_ordered.mp hv).2).2
    intro c hc
    refine ⟨v.key, rfl, ?_⟩
    rcases List.mem_cons.mp hc with rfl | hc
    · exact hbehind
    · obtain ⟨k, rfl, hlt⟩ := h.visited_below c hc
      cases c with
      | none => rfl
      | some k' => exact decide_eq_true ((of_decide_eq_true hlt).trans (of_decide_eq_true hbehind))
  unmet := hunmet

end Collected

/-- The row is on the page with the given number, and there is more behind that page. -/
structure OnPage (list : List RequestRow) (i m : Nat) : Prop where
  budget : i < adminRunnerPollPageBudget
  from_start : i * adminRunnerRequestPageSize ≤ m
  to_end : m < (i + 1) * adminRunnerRequestPageSize
  more : (i + 1) * adminRunnerRequestPageSize < list.length

/-- What the poll finds on the list. -/
inductive Outcome (current : AdminRunnerPage) (list : List RequestRow) :
    AdminRunnerPollResult → Prop
  /-- The list has been read to its end. -/
  | whole : Outcome current list ⟨⟨list, none, false⟩, false, false⟩
  /-- The oldest row that was loaded is on a page with more behind it. -/
  | met {b : RequestRow} {i m : Nat} (hlast : current.items.getLast? = some b)
      (hfound : list.findIdx? (fun r => r.id = b.id) = some m) (hpage : OnPage list i m) :
      Outcome current list
        ⟨⟨list.take (m + 1), current.nextCursor, current.hasMore⟩, false, true⟩
  /-- The budget is spent. -/
  | first {n : Nat} {v : RequestRow} {reset : Bool} (hmore : n < list.length)
      (hlast : (list.take n).getLast? = some v) :
      Outcome current list ⟨⟨list.take n, some v.key, true⟩, reset, false⟩

theorem exists_oldest {id : String} (h : oldestLoadedID current = some id) :
    ∃ b, current.items.getLast? = some b ∧ b.id = id := by
  obtain ⟨b, hb, hid⟩ := Option.bind_eq_some_iff.mp h
  split at hid
  · cases hid
  · exact ⟨b, hb, Option.some.inj hid⟩

theorem findIdx?_take_iff {list : List RequestRow} {p : RequestRow → Bool} {n m : Nat} :
    (list.take n).findIdx? p = some m ↔ list.findIdx? p = some m ∧ m < n := by
  rw [List.findIdx?_take]
  cases list.findIdx? p with
  | none => simp
  | some k =>
    simp only [Option.bind_some, Option.guard, Option.some.injEq]
    grind

theorem met_or_unmet (current : AdminRunnerPage) (l : List RequestRow) :
    (∃ id m, oldestLoadedID current = some id ∧ l.findIdx? (fun r => r.id = id) = some m) ∨
      ∀ id ∈ oldestLoadedID current, ∀ r ∈ l, r.id ≠ id := by
  cases hid : oldestLoadedID current with
  | none => exact .inr fun _ h => nomatch h
  | some id =>
    cases hm : l.findIdx? (fun r => r.id = id) with
    | some m => exact .inl ⟨id, m, rfl, hm⟩
    | none =>
      refine .inr fun id' hid' r hr => ?_
      cases hid'
      exact of_decide_eq_false (List.findIdx?_eq_none_iff.mp hm r hr)

theorem Collected.le_of_found {id : String} {m : Nat}
    (h : Collected contents matching current i visited items cursor)
    (hid : oldestLoadedID current = some id)
    (hfound : (contents.listed matching).findIdx? (fun r => r.id = id) = some m) :
    i * adminRunnerRequestPageSize ≤ m := by
  obtain ⟨hlt, hm, -⟩ := List.findIdx?_eq_some_iff_getElem.mp hfound
  by_contra hle
  have hmem : (contents.listed matching)[m] ∈ items := by
    rw [h.items_eq]
    exact List.mem_take_iff_getElem.mpr ⟨m, by omega, rfl⟩
  exact h.unmet id hid _ hmem (of_decide_eq_true hm)

theorem collectPages_met (h : Collected contents matching current i visited items cursor)
    {id : String} {m : Nat} (hid : oldestLoadedID current = some id)
    (hm : ((contents.listed matching).take ((i + 1) * adminRunnerRequestPageSize)).findIdx?
      (fun r => r.id = id) = some m)
    (hmore : (i + 1) * adminRunnerRequestPageSize < (contents.listed matching).length) :
    collectPages (requestAdminRunnerPage contents matching) current left visited items cursor =
      (.ok ⟨⟨(contents.listed matching).take (m + 1), current.nextCursor, current.hasMore⟩, false,
        true⟩, cursor :: visited) := by
  rw [collectPages.eq_def, if_neg h.notMem_visited, requestAdminRunnerPage_eq]
  dsimp only
  rw [h.append_page, hid, Option.bind_some, hm, decide_eq_true (h.more_iff.mpr hmore)]
  dsimp only
  rw [List.take_take, min_eq_left (Nat.succ_le_of_lt (findIdx?_take_iff.mp hm).2)]
  rfl

theorem collectPages_whole (h : Collected contents matching current i visited items cursor)
    (hend : (contents.listed matching).length ≤ (i + 1) * adminRunnerRequestPageSize) :
    collectPages (requestAdminRunnerPage contents matching) current left visited items cursor =
      (.ok ⟨⟨contents.listed matching, none, false⟩, false, false⟩, cursor :: visited) := by
  rw [collectPages.eq_def, if_neg h.notMem_visited, requestAdminRunnerPage_eq]
  dsimp only
  rw [h.append_page, List.take_of_length_le hend,
    decide_eq_false fun hmore => not_lt.mpr hend (h.more_iff.mp hmore)]
  split <;> rfl

/-- Where the row is not met and there is more, the next page is read if the budget allows it. -/
theorem collectPages_unmet (left : Nat)
    (h : Collected contents matching current i visited items cursor)
    (hunmet : ∀ id ∈ oldestLoadedID current, ∀ r ∈ (contents.listed matching).take
      ((i + 1) * adminRunnerRequestPageSize), r.id ≠ id)
    (hmore : (i + 1) * adminRunnerRequestPageSize < (contents.listed matching).length) :
    ∃ v, ((contents.listed matching).take ((i + 1) * adminRunnerRequestPageSize)).getLast? =
        some v ∧
      Collected contents matching current (i + 1) (cursor :: visited)
        ((contents.listed matching).take ((i + 1) * adminRunnerRequestPageSize)) (some v.key) ∧
      collectPages (requestAdminRunnerPage contents matching) current left visited items cursor =
        match left with
        | 0 => (.ok ⟨⟨(contents.listed matching).take ((i + 1) * adminRunnerRequestPageSize),
            some v.key, true⟩, (oldestLoadedID current).isSome, false⟩, cursor :: visited)
        | left + 1 => collectPages (requestAdminRunnerPage contents matching) current left
            (cursor :: visited)
            ((contents.listed matching).take ((i + 1) * adminRunnerRequestPageSize))
            (some v.key) := by
  obtain ⟨v, hv, hpage, hlast⟩ := h.exists_last hmore
  refine ⟨v, hlast, h.next hv hlast hunmet, ?_⟩
  have hnone : ((oldestLoadedID current).bind fun id =>
      ((contents.listed matching).take ((i + 1) * adminRunnerRequestPageSize)).findIdx?
        (fun r => r.id = id)) = none := by
    refine Option.bind_eq_none_iff.mpr fun id hid => List.findIdx?_eq_none_iff.mpr fun r hr => ?_
    exact decide_eq_false (hunmet id hid r hr)
  rw [collectPages.eq_def, if_neg h.notMem_visited, requestAdminRunnerPage_eq]
  dsimp only
  rw [h.append_page, hnone, decide_eq_true (h.more_iff.mpr hmore),
    if_pos (h.more_iff.mpr hmore), hpage]
  rfl

theorem outcome_collectPages {i : Nat} {visited : List (Option Cursor)} {items : List RequestRow}
    {cursor : Option Cursor} (left : Nat)
    (h : Collected contents matching current i visited items cursor)
    (hbudget : i + left < adminRunnerPollPageBudget) :
    ∃ result requested, collectPages (requestAdminRunnerPage contents matching) current left visited
        items cursor = (.ok result, requested) ∧
      Outcome current (contents.listed matching) result ∧ requested.length ≤ i + left + 1 := by
  have hlength : (cursor :: visited).length = i + 1 := by rw [List.length_cons, h.length_visited]
  rcases lt_or_ge ((i + 1) * adminRunnerRequestPageSize) (contents.listed matching).length with
    hmore | hend
  · rcases met_or_unmet current
      ((contents.listed matching).take ((i + 1) * adminRunnerRequestPageSize)) with
      ⟨id, m, hid, hm⟩ | hunmet
    · obtain ⟨b, hb, rfl⟩ := exists_oldest hid
      obtain ⟨hfound, hlt⟩ := findIdx?_take_iff.mp hm
      exact ⟨_, _, collectPages_met h hid hm hmore,
        .met hb hfound ⟨by omega, h.le_of_found hid hfound, hlt, hmore⟩, by omega⟩
    · obtain ⟨v, hlast, hnext, heq⟩ := collectPages_unmet left h hunmet hmore
      cases left with
      | zero => exact ⟨_, _, heq, .first hmore hlast, by omega⟩
      | succ left =>
        obtain ⟨result, requested, heq', hresult, hle⟩ :=
          outcome_collectPages left hnext (by omega)
        exact ⟨result, requested, heq.trans heq', hresult, by omega⟩
  · exact ⟨_, _, collectPages_whole h hend, .whole, by omega⟩

theorem collectPages_of_onPage {j : Nat} {visited : List (Option Cursor)} {items : List RequestRow}
    {cursor : Option Cursor} {id : String} {m : Nat} (left : Nat)
    (h : Collected contents matching current j visited items cursor)
    (hid : oldestLoadedID current = some id)
    (hfound : (contents.listed matching).findIdx? (fun r => r.id = id) = some m)
    (hpage : OnPage (contents.listed matching) i m) (hj : j ≤ i) (hleft : i ≤ j + left) :
    ∃ requested, collectPages (requestAdminRunnerPage contents matching) current left visited items
        cursor =
      (.ok ⟨⟨(contents.listed matching).take (m + 1), current.nextCursor, current.hasMore⟩, false,
        true⟩, requested) := by
  obtain ⟨_, -, hbefore⟩ := List.findIdx?_eq_some_iff_getElem.mp hfound
  rcases hj.eq_or_lt with rfl | hj
  · exact ⟨_, collectPages_met h hid (findIdx?_take_iff.mpr ⟨hfound, hpage.to_end⟩) hpage.more⟩
  · have hend : (j + 1) * adminRunnerRequestPageSize ≤ i * adminRunnerRequestPageSize :=
      Nat.mul_le_mul_right _ hj
    have hunmet : ∀ id ∈ oldestLoadedID current, ∀ r ∈ (contents.listed matching).take
        ((j + 1) * adminRunnerRequestPageSize), r.id ≠ id := by
      intro id' hid' r hr
      cases hid.symm.trans hid'
      obtain ⟨k, hk, rfl⟩ := List.mem_take_iff_getElem.mp hr
      have hkm : k < m := by have := hpage.from_start; omega
      simpa using hbefore k hkm
    have hmore : (j + 1) * adminRunnerRequestPageSize < (contents.listed matching).length := by
      have := hpage.from_start
      omega
    obtain ⟨v, -, hnext, heq⟩ := collectPages_unmet left h hunmet hmore
    cases left with
    | zero => omega
    | succ left =>
      obtain ⟨requested, heq'⟩ :=
        collectPages_of_onPage left hnext hid hfound hpage hj (by omega)
      exact ⟨requested, heq.trans heq'⟩

end Collected

/-! ### Merging -/

theorem unseen_append (seen : List String) (rest : List RequestRow) {l : List RequestRow}
    (hnodup : (l.map RequestRow.requestID).Nodup) (hnew : ∀ r ∈ l, r.id ∉ seen) :
    ∃ seen', (∀ id, id ∈ seen' ↔ id ∈ seen ∨ ∃ r ∈ l, r.id = id) ∧
      unseen seen (l ++ rest) = l ++ unseen seen' rest := by
  induction l generalizing seen with
  | nil => exact ⟨seen, by simp, rfl⟩
  | cons a l ih =>
    rw [List.map_cons, List.nodup_cons] at hnodup
    obtain ⟨ha, hnew⟩ := List.forall_mem_cons.mp hnew
    have hrest : ∀ r ∈ l, r.id ∉ a.id :: seen := by
      intro r hr hmem
      rcases List.mem_cons.mp hmem with heq | hmem
      · exact hnodup.1 (List.mem_map.mpr ⟨r, hr, heq⟩)
      · exact hnew r hr hmem
    obtain ⟨seen', hseen', heq⟩ := ih (a.id :: seen) hnodup.2 hrest
    refine ⟨seen', fun id => ?_, ?_⟩
    · rw [hseen', List.mem_cons, List.exists_mem_cons_iff, eq_comm, or_comm (a := a.id = id),
        or_assoc]
    · rw [List.cons_append, unseen, if_neg ha, heq, List.cons_append]

theorem unseen_eq_nil {seen : List String} {l : List RequestRow} (h : ∀ r ∈ l, r.id ∈ seen) :
    unseen seen l = [] := by
  induction l with
  | nil => rfl
  | cons a l ih =>
    obtain ⟨ha, hl⟩ := List.forall_mem_cons.mp h
    rw [unseen, if_pos ha, ih hl]

theorem mergeAdminRunnerPages_eq {l existing : List RequestRow}
    (hnodup : (l.map RequestRow.requestID).Nodup)
    (h : ∀ r ∈ existing, ∃ r' ∈ l, r'.id = r.id) : mergeAdminRunnerPages l existing = l := by
  obtain ⟨seen, hseen, heq⟩ := unseen_append [] existing hnodup
    fun _ _ => List.not_mem_nil
  rw [mergeAdminRunnerPages, heq, unseen_eq_nil fun r hr => (hseen r.id).mpr (.inr (h r hr)),
    List.append_nil]

theorem exists_mem_unseen {seen : List String} {l : List RequestRow} {r : RequestRow} (hr : r ∈ l)
    (hid : r.id ∉ seen) : ∃ r' ∈ unseen seen l, r'.id = r.id := by
  induction l generalizing seen with
  | nil => cases hr
  | cons a l ih =>
    rw [unseen]
    by_cases ha : a.id ∈ seen
    · rw [if_pos ha]
      rcases List.mem_cons.mp hr with rfl | hr
      · exact absurd ha hid
      · exact ih hr hid
    · rw [if_neg ha]
      by_cases heq : a.id = r.id
      · exact ⟨a, List.mem_cons_self, heq⟩
      · have hr : r ∈ l := (List.mem_cons.mp hr).resolve_left fun h => heq (h ▸ rfl)
        obtain ⟨r', hr', hid'⟩ := ih hr (List.not_mem_cons_of_ne_of_not_mem (Ne.symm heq) hid)
        exact ⟨r', List.mem_cons_of_mem _ hr', hid'⟩

theorem exists_mem_mergeAdminRunnerPages {primary existing : List RequestRow} {r : RequestRow}
    (hr : r ∈ existing) : ∃ r' ∈ mergeAdminRunnerPages primary existing, r'.id = r.id :=
  exists_mem_unseen (List.mem_append_right primary hr) List.not_mem_nil

/-! ### Polls -/

namespace RunnerList

variable {contents : Contents} {matching : RequestRow → Bool} {s : RunnerList}

/-- The browser shows the first rows of a list, and has the cursor behind them if there are more. -/
structure Shows (s : RunnerList) (list : List RequestRow) (n : Nat) : Prop where
  runners_eq : s.runners = list.take n
  hasMore_iff : s.hasMore = true ↔ n < list.length
  cursor_eq : s.hasMore = true → s.cursor = s.runners.getLast?.map RequestRow.key

/-- Where the poll meets the oldest row that was loaded on a page with more behind it, that row has
kept its place, every other row that was loaded is still listed before it, and there were
more rows before. -/
def Kept (s : RunnerList) (list : List RequestRow) : Prop :=
  s.shown = true → s.historyLoaded = true → ∀ b i m, s.runners.getLast? = some b →
    list.findIdx? (fun r => r.id = b.id) = some m → OnPage list i m →
    s.hasMore = true ∧ (∀ r ∈ s.runners, ∃ r' ∈ list.take (m + 1), r'.id = r.id) ∧
      ∀ r ∈ list[m]?, r.key = b.key

theorem Shows.listedBehind_cursor {n : Nat} (h : s.Shows (contents.listed matching) n)
    (hmore : s.hasMore = true) :
    contents.listedBehind matching s.cursor = (contents.listed matching).drop n := by
  rw [h.cursor_eq hmore, h.runners_eq]
  cases hlast : ((contents.listed matching).take n).getLast? with
  | some v => exact listedBehind_getLast? hlast
  | none =>
    have hn := h.hasMore_iff.mp hmore
    rw [List.getLast?_eq_none_iff, List.take_eq_nil_iff] at hlast
    rcases hlast with rfl | hnil
    · rw [List.drop_zero, Option.map_none, listedBehind_none]
    · rw [hnil] at hn
      exact absurd hn (Nat.not_lt_zero n)

/-- A poll that is made comes to one of the outcomes. -/
theorem outcome_poll (contents : Contents) (matching : RequestRow → Bool)
    (hpaused : s.paused = false) :
    ∃ result requested, s.poll (requestAdminRunnerPage contents matching) =
        (s.accept result, requested) ∧ requested.length ≤ adminRunnerPollPageBudget ∧
      Outcome ⟨s.runners, s.cursor, s.hasMore⟩ (contents.listed matching) result ∧
      (result.preservePagination = true → s.shown = true ∧ s.historyLoaded = true) := by
  rw [poll, hpaused, requestAdminRunnerPoll]
  by_cases hfirst : (!s.shown || !s.historyLoaded) = true
  · rw [if_pos hfirst, requestAdminRunnerPage_eq, listedBehind_none]
    refine ⟨_, [none], rfl, by decide, ?_, by simp⟩
    by_cases hmore : adminRunnerRequestPageSize < (contents.listed matching).length
    · have hne : (contents.listed matching).take adminRunnerRequestPageSize ≠ [] := by
        rw [Ne, List.take_eq_nil_iff]
        rintro (hzero | hnil)
        · cases hzero
        · rw [hnil] at hmore
          exact absurd hmore (Nat.not_lt_zero _)
      obtain ⟨v, hv⟩ := Option.isSome_iff_exists.mp (List.getLast?_isSome.mpr hne)
      rw [decide_eq_true hmore, if_pos hmore, hv]
      exact .first hmore hv
    · rw [decide_eq_false hmore, if_neg hmore, List.take_of_length_le (not_lt.mp hmore)]
      exact .whole
  · rw [if_neg hfirst, collectAdminRunnerPoll]
    have hbudget : ∀ b : Bool, 0 + ((if b then adminRunnerPollPageBudget else 1) - 1) <
        adminRunnerPollPageBudget := by decide
    obtain ⟨result, requested, heq, hresult, hlength⟩ :=
      outcome_collectPages _ (collected_start contents matching ⟨s.runners, s.cursor, s.hasMore⟩)
        (hbudget (oldestLoadedID ⟨s.runners, s.cursor, s.hasMore⟩).isSome)
    refine ⟨result, requested, ?_, hlength.trans (hbudget _), hresult, fun _ => by simpa using hfirst⟩
    rw [heq]
    rfl

theorem reconcile_take (contents : Contents) (matching : RequestRow → Bool) (n : Nat)
    (existing : List RequestRow) :
    reconcileAdminRunnerPages ((contents.listed matching).take n) existing true =
      (contents.listed matching).take n := by
  refine mergeAdminRunnerPages_eq ?_ fun _ h => nomatch h
  rw [List.map_take]
  exact nodup_listed.sublist (List.take_sublist _ _)

/-- After the poll the first rows of the list are shown. -/
theorem exists_shows_accept {list : List RequestRow} {n₀ : Nat} {result : AdminRunnerPollResult}
    (hshows : s.Shows list n₀) (hkept : s.Kept (contents.listed matching))
    (hloaded : result.preservePagination = true → s.shown = true ∧ s.historyLoaded = true)
    (h : Outcome ⟨s.runners, s.cursor, s.hasMore⟩ (contents.listed matching) result) :
    ∃ n, (s.accept result).Shows (contents.listed matching) n := by
  cases h with
  | whole =>
    have hall := reconcile_take contents matching (contents.listed matching).length s.runners
    rw [List.take_length] at hall
    exact ⟨_, hall.trans List.take_length.symm, iff_of_false Bool.false_ne_true (lt_irrefl _), nofun⟩
  | @first n v reset hmore hlast =>
    have hrows := reconcile_take contents matching n s.runners
    refine ⟨n, hrows, iff_of_true rfl hmore, fun _ => ?_⟩
    show some v.key = (reconcileAdminRunnerPages _ s.runners true).getLast?.map RequestRow.key
    rw [hrows, hlast, Option.map_some]
  | @met b i m hlast hfound hpage =>
    obtain ⟨hshown, hhistory⟩ := hloaded rfl
    obtain ⟨hmore, hlisted, hkey⟩ := hkept hshown hhistory b i m hlast hfound hpage
    have hrows : mergeAdminRunnerPages ((contents.listed matching).take (m + 1)) s.runners =
        (contents.listed matching).take (m + 1) := by
      refine mergeAdminRunnerPages_eq ?_ hlisted
      rw [List.map_take]
      exact nodup_listed.sublist (List.take_sublist _ _)
    have hlt : m + 1 < (contents.listed matching).length :=
      lt_of_le_of_lt (Nat.succ_le_of_lt hpage.to_end) hpage.more
    refine ⟨m + 1, hrows, iff_of_true hmore hlt, fun _ => ?_⟩
    have hlast' : ((contents.listed matching).take (m + 1)).getLast? =
        some (contents.listed matching)[m] := by
      rw [List.getLast?_take, List.getElem?_eq_getElem (by omega)]
      simp
    have hcursor : s.cursor = some b.key := by
      rw [hshows.cursor_eq hmore, show s.runners.getLast? = some b from hlast]
      rfl
    show s.cursor = (mergeAdminRunnerPages _ _).getLast?.map RequestRow.key
    rw [hrows, hlast', hcursor, Option.map_some,
      hkey _ (List.getElem?_eq_getElem (Nat.lt_of_succ_lt hlt))]

/-- Where the oldest row that was loaded is met with more behind it, every row stays. -/
theorem exists_mem_poll {b r : RequestRow} {i m : Nat} (hpaused : s.paused = false)
    (hshown : s.shown = true) (hhistory : s.historyLoaded = true)
    (hlast : s.runners.getLast? = some b) (hid : b.id ≠ "")
    (hfound : (contents.listed matching).findIdx? (fun r => r.id = b.id) = some m)
    (hpage : OnPage (contents.listed matching) i m) (hr : r ∈ s.runners) :
    ∃ r' ∈ (s.poll (requestAdminRunnerPage contents matching)).1.runners, r'.id = r.id := by
  have holdest : oldestLoadedID ⟨s.runners, s.cursor, s.hasMore⟩ = some b.id := by
    rw [oldestLoadedID, hlast, Option.bind_some, if_neg hid]
  obtain ⟨requested, hcollect⟩ := collectPages_of_onPage (adminRunnerPollPageBudget - 1)
    (collected_start contents matching ⟨s.runners, s.cursor, s.hasMore⟩) holdest hfound hpage
    (Nat.zero_le i) (by have := hpage.budget; omega)
  rw [poll, hpaused, requestAdminRunnerPoll, hshown, hhistory, collectAdminRunnerPoll, holdest]
  simp only [Bool.not_true, Bool.or_self, Bool.false_eq_true, if_false, Option.isSome_some, if_true,
    hcollect]
  exact exists_mem_mergeAdminRunnerPages hr

/-! ### Lists of numbered requests -/

/-- Requests by their number, the newest first. -/
def numbered (n : Nat) : RequestRow := { id := longID (n + 1), createdAt := 1000 - n }

theorem numbered_id_inj {m n : Nat} : (numbered m).id = (numbered n).id ↔ m = n := by
  refine ⟨fun h => ?_, fun h => h ▸ rfl⟩
  have hlength := congrArg (fun id => id.toList.length) h
  simp only [numbered, length_longID] at hlength
  omega

theorem numbered_id_ne (n : Nat) : (numbered n).id ≠ "" := by
  intro hempty
  have hlength := length_longID (n + 1)
  rw [show longID (n + 1) = "" from hempty] at hlength
  cases hlength

/-- The requests with a number below the bound that are listed. -/
def numberedContents (p : Nat → Bool) (bound : Nat) (hbound : bound ≤ 1000) : Contents where
  requests := ⟨((List.range bound).filter p).map numbered, by
    rw [List.map_map]
    exact List.Nodup.map (fun _ _ h => numbered_id_inj.mp h) (List.nodup_range.filter p)⟩
  named := by
    intro r hr
    obtain ⟨n, -, rfl⟩ := List.mem_map.mp hr
    exact numbered_id_ne n
  dated := by
    intro r hr hzero
    obtain ⟨n, hn, rfl⟩ := List.mem_map.mp hr
    have hlt := List.mem_range.mp (List.mem_filter.mp hn).1
    have hzero : 1000 - n = 0 := hzero
    omega

theorem listed_numberedContents {p : Nat → Bool} {bound : Nat} {hbound : bound ≤ 1000} :
    (numberedContents p bound hbound).listed (fun _ => true) =
      ((List.range bound).filter p).map numbered := by
  have hkeys : (((List.range bound).filter p).map numbered).Pairwise fun a b => a.key ≤ b.key := by
    refine List.pairwise_map.mpr ((List.pairwise_lt_range.filter p).imp_of_mem ?_)
    intro m n _ hn hlt
    have hn := List.mem_range.mp (List.mem_filter.mp hn).1
    have hlt : 1000 - n < 1000 - m := by omega
    exact Prod.Lex.toLex_le_toLex.mpr (.inl (OrderDual.toDual_lt_toDual.mpr hlt))
  rw [Contents.listed, ordered, List.filter_true]
  exact hkeys.insertionSort_eq

theorem findIdx?_numbered (ns : List Nat) (b : Nat) :
    (ns.map numbered).findIdx? (fun r => r.id = (numbered b).id) = ns.findIdx? (· = b) := by
  rw [List.findIdx?_map]
  exact congrArg ns.findIdx? (funext fun n => decide_eq_decide.mpr numbered_id_inj)

/-- The history is loaded up to a request, and there is more. -/
def loadedUpTo (ns : List Nat) (last : Nat) : RunnerList where
  runners := ns.map numbered
  cursor := some (numbered last).key
  hasMore := true
  historyLoaded := true
  shown := true
  pageLoading := false

theorem shows_loadedUpTo {all : List Nat} {n last : Nat} (hn : n < all.length)
    (hlast : (all.take n).getLast? = some last) :
    (loadedUpTo (all.take n) last).Shows (all.map numbered) n where
  runners_eq := List.map_take
  hasMore_iff := iff_of_true rfl (by rwa [List.length_map])
  cursor_eq _ := by rw [loadedUpTo, List.getLast?_map, hlast]; rfl

end RunnerList

end CiRunner.Admin
