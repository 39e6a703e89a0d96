import Mathlib.Data.Int.ConditionallyCompleteOrder
import Mathlib.Data.List.Chain
import Mathlib.Data.Set.BooleanAlgebra
import Mathlib.Order.CompletePartialOrder
import Mathlib.Order.ConditionallyCompleteLattice.Basic
import Mathlib.Order.Interval.Set.Basic
import Mathlib.Tactic.Ring
import CiRunner.Admin.Requests

/-! The pages of a user's runners. A page is asked for by its limit and offset, only within a
window of the newest runners, and its answer links to the page before it and to the next one. The
numbers are those of the machine, with 64 bits. -/

namespace CiRunner.Users

open Admin Text

/-- The values of each name of a query. -/
abbrev Query := String → List String

def Query.get (query : Query) (name : String) : String := (query name).head?.getD ""

def Query.set (query : Query) (name value : String) : Query := Function.update query name [value]

@[simp] theorem Query.get_set (query : Query) (name value : String) :
    (query.set name value).get name = value := by
  simp [Query.get, Query.set]

theorem Query.get_set_of_ne (query : Query) {name other : String} (h : other ≠ name)
    (value : String) : (query.set name value).get other = query.get other := by
  simp [Query.get, Query.set, h]

/-- The number of 64 bits that is left of a result. -/
def int64 (n : Int) : Int := n.bmod (2 ^ 64)

theorem int64_of_bounds {n : Int} (hlow : -2 ^ 63 ≤ n) (hhigh : n < 2 ^ 63) : int64 n = n :=
  Int.bmod_eq_of_le (by omega) (by omega)

theorem int64_of_overflow {n : Int} (hlow : 2 ^ 63 ≤ n) (hhigh : n < 2 ^ 64) : int64 n < 0 := by
  rw [int64, Int.bmod_def, Int.emod_eq_of_lt (by omega) (by omega), if_neg (by omega)]
  omega

inductive Rel where
  | prev
  | next
  deriving DecidableEq, Repr

/-- The headers of an answer: the numbers of the page and the links to other ones. -/
structure Page where
  total : Int
  limit : Int
  offset : Int
  links : List (Rel × Query)

def Page.next (page : Page) : Option Query := page.links.lookup .next

def pageURL (query : Query) (limit offset : Int) : Query :=
  (query.set "limit" (toString limit)).set "offset" (toString offset)

def writePaginationHeadersWithinWindow (query : Query) (total limit offset maxWindow : Int) :
    Page :=
  let linkTotal := if maxWindow > 0 ∧ total > maxWindow then maxWindow else total
  let prev :=
    if offset > 0 then
      let prevOffset := int64 (offset - limit)
      [(Rel.prev, pageURL query limit (if prevOffset < 0 then 0 else prevOffset))]
    else []
  let nextOffset := int64 (offset + limit)
  let next :=
    if nextOffset < linkTotal then
      let nextLimit :=
        if maxWindow > 0 ∧ int64 (nextOffset + limit) > maxWindow then
          int64 (maxWindow - nextOffset)
        else limit
      if nextLimit > 0 then [(Rel.next, pageURL query nextLimit nextOffset)] else []
    else []
  ⟨total, limit, offset, prev ++ next⟩

theorem limit_writePaginationHeaders (query : Query) (total limit offset maxWindow : Int) :
    (writePaginationHeadersWithinWindow query total limit offset maxWindow).limit = limit := rfl

theorem offset_writePaginationHeaders (query : Query) (total limit offset maxWindow : Int) :
    (writePaginationHeadersWithinWindow query total limit offset maxWindow).offset = offset := rfl

/-- The answer to a request for a page; the window of the source is 500, as is its highest limit,
and its default is 100. -/
def handleUserListRunners (defaultLimit maxLimit : Nat) (window total : Int) (query : Query) :
    Except String Page := do
  let (limit, offset) ←
    parsePagination (query.get "limit") (query.get "offset") defaultLimit maxLimit
  if offset > int64 (window - limit) then
    .error ("requested page exceeds the " ++ toString window ++ "-runner history window")
  else .ok (writePaginationHeadersWithinWindow query total limit offset window)

/-- The pages of a client that follows the links to the next page until there is none. -/
inductive Walk (answer : Query → Except String Page) : Query → List Page → Prop
  | last {query : Query} {page : Page} (hanswer : answer query = .ok page)
      (hnext : page.next = none) : Walk answer query [page]
  | more {query query' : Query} {page : Page} {pages : List Page}
      (hanswer : answer query = .ok page) (hnext : page.next = some query')
      (hpages : Walk answer query' pages) : Walk answer query (page :: pages)

/-! ### One page -/

theorem trimSpace_toString {n : Int} (h : 0 ≤ n) : trimSpace (toString n) = toString n := by
  obtain ⟨n, rfl⟩ := Int.eq_ofNat_of_zero_le h
  have hdigit : ∀ c ∈ (toString (n : Int)).toList, c.isDigit = true := by
    intro c hc
    have hc : c ∈ n.repr.toList := hc
    rw [Nat.toList_repr] at hc
    exact isDigit_of_mem_toDigits hc
  have htrimmed : Trimmed (toString (n : Int)).toList :=
    ⟨fun c hc => isSpace_of_isDigit (hdigit c (List.mem_of_mem_head? hc)),
      fun c hc => isSpace_of_isDigit (hdigit c (List.mem_of_getLast? hc))⟩
  rw [trimSpace, htrimmed.trim_eq, String.ofList_toList]

theorem toString_ne_empty {n : Int} (h : 0 ≤ n) : toString n ≠ "" := by
  obtain ⟨n, rfl⟩ := Int.eq_ofNat_of_zero_le h
  intro hempty
  have hdigits : Nat.toDigits 10 n = [] := by
    rw [← Nat.toList_repr]
    exact congrArg String.toList hempty
  exact Nat.toDigits_ne_nil hdigits

theorem parse_pageURL (query : Query) {limit offset : Int} (defaultLimit : Nat) {maxLimit : Nat}
    (hpos : 0 < limit) (hlimit : limit < 2 ^ 63) (hoffset : 0 ≤ offset)
    (hhigh : offset < 2 ^ 63) (hmax : maxLimit = 0 ∨ limit ≤ maxLimit) :
    parsePagination ((pageURL query limit offset).get "limit")
        ((pageURL query limit offset).get "offset") defaultLimit maxLimit =
      .ok (limit.toNat, offset.toNat) := by
  have hget : (pageURL query limit offset).get "limit" = toString limit := by
    rw [pageURL, Query.get_set_of_ne _ (by decide), Query.get_set]
  have hclamp : ¬ (maxLimit > 0 ∧ limit.toNat > maxLimit) := by omega
  rw [hget, pageURL, Query.get_set, parsePagination, trimSpace_toString hpos.le,
    trimSpace_toString hoffset, if_neg (toString_ne_empty hpos.le),
    if_neg (toString_ne_empty hoffset), parseInt_toString (by omega) hlimit,
    parseInt_toString (by omega) hhigh, Option.bind_some, if_neg (by omega)]
  simp only [if_neg hclamp, if_neg (not_lt.mpr hoffset)]

/-- The link to the next page is there if the page ends before the runners within the window. -/
theorem next_writePaginationHeaders (query : Query) (total : Int) {limit offset window : Int}
    (hpos : 0 < limit) (hoffset : 0 ≤ offset) (hwithin : offset + limit ≤ window)
    (hwindow : window < 2 ^ 63) :
    (writePaginationHeadersWithinWindow query total limit offset window).next =
      if offset + limit < min total window then
        some (pageURL query
          (if int64 (offset + limit + limit) > window then window - (offset + limit) else limit)
          (offset + limit))
      else none := by
  have hnext : int64 (offset + limit) = offset + limit := int64_of_bounds (by omega) (by omega)
  have hrest : int64 (window - (offset + limit)) = window - (offset + limit) :=
    int64_of_bounds (by omega) (by omega)
  have hlinkTotal : (if total > window then window else total) = min total window := by
    split <;> omega
  have hprev : ∀ links : List (Rel × Query), (List.lookup Rel.next
      ((if offset > 0 then
        [(Rel.prev, pageURL query limit
          (if int64 (offset - limit) < 0 then 0 else int64 (offset - limit)))]
      else []) ++ links)) = List.lookup Rel.next links := by
    intro links
    split <;> rfl
  simp only [writePaginationHeadersWithinWindow, Page.next, hprev, hnext, hrest,
    and_iff_right (show window > 0 by omega), hlinkTotal]
  by_cases hless : offset + limit < min total window
  · rw [if_pos hless, if_pos hless, if_pos]
    · rfl
    · split <;> omega
  · rw [if_neg hless, if_neg hless]
    rfl

/-- Where the sum does not overflow, the limit of the next page is that of the page or what is left
of the window. -/
theorem nextLimit_eq {limit next window : Int} (hpos : 0 < limit) (hnext : 0 ≤ next)
    (hfits : next + limit < 2 ^ 63) :
    (if int64 (next + limit) > window then window - next else limit) =
      min limit (window - next) := by
  rw [int64_of_bounds (by omega) hfits]
  split <;> omega

theorem nextLimit_of_overflow {limit next window : Int} (hwindow : 0 ≤ window)
    (hover : 2 ^ 63 ≤ next + limit) (hhigh : next + limit < 2 ^ 64) :
    (if int64 (next + limit) > window then window - next else limit) = limit := by
  have hneg := int64_of_overflow hover hhigh
  exact if_neg (by omega)

theorem handleUserListRunners_of_within {defaultLimit maxLimit limit offset : Nat}
    {window : Int} (total : Int) {query : Query}
    (hparse : parsePagination (query.get "limit") (query.get "offset") defaultLimit maxLimit =
      .ok (limit, offset)) (hwithin : (offset : Int) + limit ≤ window) (hwindow : window < 2 ^ 63) :
    handleUserListRunners defaultLimit maxLimit window total query =
      .ok (writePaginationHeadersWithinWindow query total limit offset window) := by
  have hrest : int64 (window - limit) = window - limit := int64_of_bounds (by omega) (by omega)
  simp only [handleUserListRunners, hparse, hrest, bind, Except.bind]
  exact if_neg (by omega)

/-! ### All pages -/

/-- The runners that a page shows, of all that there are. -/
def Page.range (page : Page) (total : Int) : Set Int :=
  Set.Ico page.offset (min (page.offset + page.limit) total)

/-- The pages follow each other from an offset on and show every runner behind it, within the
window, once. -/
structure ShowsAll (window total offset : Int) (pages : List Page) : Prop where
  first : pages.head?.map Page.offset = some offset
  consecutive : pages.IsChain fun page page' => page'.offset = page.offset + page.limit
  within : ∀ page ∈ pages,
    0 < page.limit ∧ offset ≤ page.offset ∧ page.offset + page.limit ≤ window
  disjoint : pages.Pairwise fun page page' => Disjoint (page.range total) (page'.range total)
  union : ∀ i, (∃ page ∈ pages, i ∈ page.range total) ↔ i ∈ Set.Ico offset (min total window)

section
variable {window total limit offset : Int} {page : Page} (hlimit : page.limit = limit)
  (hoffset : page.offset = offset) (hpos : 0 < limit)
include hlimit hoffset hpos

theorem ShowsAll.last (hwithin : offset + limit ≤ window) (hend : min total window ≤ offset + limit) :
    ShowsAll window total offset [page] where
  first := congrArg some hoffset
  consecutive := .singleton page
  within := by
    simp only [List.mem_singleton, forall_eq, hlimit, hoffset]
    exact ⟨hpos, le_rfl, hwithin⟩
  disjoint := List.pairwise_singleton _ _
  union i := by
    simp only [List.mem_singleton, exists_eq_left, Page.range, Set.mem_Ico, hlimit, hoffset]
    omega

theorem ShowsAll.cons {pages : List Page} (hwithin : offset + limit < min total window)
    (h : ShowsAll window total (offset + limit) pages) :
    ShowsAll window total offset (page :: pages) where
  first := congrArg some hoffset
  consecutive := h.consecutive.cons fun page' hpage' => by
    have hfirst := h.first
    rw [hpage'] at hfirst
    rw [hlimit, hoffset]
    exact Option.some.inj hfirst
  within page' hpage' := by
    obtain rfl | hpage' := List.mem_cons.mp hpage'
    · omega
    · have hnext := h.within page' hpage'
      omega
  disjoint := by
    refine List.pairwise_cons.mpr ⟨fun page' hpage' => ?_, h.disjoint⟩
    have hnext := h.within page' hpage'
    rw [Set.disjoint_left]
    intro i hi hi'
    simp only [Page.range, Set.mem_Ico] at hi hi'
    omega
  union i := by
    simp only [List.mem_cons, or_and_right, exists_or, exists_eq_left, h.union i]
    simp only [Page.range, Set.mem_Ico]
    omega

end

theorem add_le_rounded {limit offset bound : Int} (hpos : 0 < limit) (hdvd : limit ∣ offset)
    (hlt : offset < bound) : offset + limit ≤ (bound + limit - 1) / limit * limit := by
  obtain ⟨k, rfl⟩ := hdvd
  have hk : k + 1 ≤ (bound + limit - 1) / limit := by
    rw [Int.le_ediv_iff_mul_le hpos, Int.add_mul, Int.mul_comm k]
    omega
  calc limit * k + limit = (k + 1) * limit := by ring
    _ ≤ (bound + limit - 1) / limit * limit := Int.mul_le_mul_of_nonneg_right hk hpos.le

section
variable {defaultLimit maxLimit first : Nat} {window total : Int} (hwindow : window < 2 ^ 63)
  (hpos : 0 < first) (hmax : maxLimit = 0 ∨ first ≤ maxLimit)
  (hfits : (min total window + first - 1) / first * first < 2 ^ 63)
include hwindow hpos hmax hfits

/-- From a page on, the links lead to the end of the runners within the window. Every page but the
last one has the first limit, so that it begins at a multiple of it. -/
theorem exists_walk (n : Nat) {query : Query} {limit offset : Nat}
    (hparse : parsePagination (query.get "limit") (query.get "offset") defaultLimit maxLimit =
      .ok (limit, offset)) (hlimit : 0 < limit) (hwithin : (offset : Int) + limit ≤ window)
    (hpage : limit = first ∧ first ∣ offset ∨ (offset : Int) + limit = window)
    (hn : window - offset ≤ n) :
    ∃ pages, Walk (handleUserListRunners defaultLimit maxLimit window total) query pages ∧
      ShowsAll window total offset pages := by
  induction n generalizing query limit offset with
  | zero => omega
  | succ n ih =>
    have hanswer := handleUserListRunners_of_within total hparse hwithin hwindow
    have hmultiple : (offset : Int) + limit < min total window →
        limit = first ∧ (first : Int) ∣ offset + limit := by
      intro hless
      obtain ⟨rfl, hdvd⟩ := hpage.resolve_right (by omega)
      exact ⟨rfl, Int.dvd_add (Int.natCast_dvd_natCast.mpr hdvd) (Int.dvd_refl _)⟩
    have hnext := next_writePaginationHeaders query total (Int.ofNat_lt.mpr hlimit)
      (Int.natCast_nonneg offset) hwithin hwindow
    by_cases hless : (offset : Int) + limit < min total window
    · obtain ⟨rfl, hdvd⟩ := hmultiple hless
      have hsum := (add_le_rounded (by omega) hdvd hless).trans_lt hfits
      rw [if_pos hless, nextLimit_eq (by omega) (by omega) hsum] at hnext
      have hlimit' : 0 < min (limit : Int) (window - (offset + limit)) := by omega
      have hoffset' : ((offset + limit : Int)).toNat = offset + limit := by omega
      have hparse' := parse_pageURL query defaultLimit hlimit' (by omega)
        (show 0 ≤ (offset + limit : Int) by omega) (by omega) (hmax.imp_right fun h => by omega)
      rw [hoffset'] at hparse'
      obtain ⟨pages, hwalk, hpages⟩ := ih hparse' (by omega) (by omega)
        (by
          by_cases hshort : (limit : Int) ≤ window - (offset + limit)
          · rw [min_eq_left hshort]
            exact .inl ⟨by omega, by exact_mod_cast hdvd⟩
          · exact .inr (by omega))
        (by omega)
      rw [Int.natCast_add] at hpages
      exact ⟨_, .more hanswer hnext hwalk, .cons (limit_writePaginationHeaders ..)
        (offset_writePaginationHeaders ..) (Int.ofNat_lt.mpr hlimit) hless hpages⟩
    · rw [if_neg hless] at hnext
      exact ⟨_, .last hanswer hnext, .last (limit_writePaginationHeaders ..)
        (offset_writePaginationHeaders ..) (Int.ofNat_lt.mpr hlimit) hwithin (not_lt.mp hless)⟩

end

theorem limit_le_of_parsePagination {limit offset : String} {defaultLimit maxLimit n m : Nat}
    (h : parsePagination limit offset defaultLimit maxLimit = .ok (n, m)) :
    maxLimit = 0 ∨ n ≤ maxLimit := by
  simp only [parsePagination] at h
  split at h
  · cases h
  · split at h
    · cases h
    · split at h
      · cases h
      · cases h
        split <;> omega

theorem not_walk_of_error {answer : Query → Except String Page} {query : Query} {e : String}
    (h : answer query = .error e) {pages : List Page} : ¬ Walk answer query pages := by
  rintro (hanswer | ⟨hanswer, -, -⟩) <;> rw [h] at hanswer <;> cases hanswer

theorem Walk.tail {answer : Query → Except String Page} {query query' : Query} {page : Page}
    {pages : List Page} (h : Walk answer query pages) (hanswer : answer query = .ok page)
    (hnext : page.next = some query') : ∃ rest, Walk answer query' rest := by
  cases h with
  | last hanswer' hnext' =>
    cases hanswer.symm.trans hanswer'
    cases hnext.symm.trans hnext'
  | more hanswer' hnext' hpages =>
    cases hanswer.symm.trans hanswer'
    cases hnext.symm.trans hnext'
    exact ⟨_, hpages⟩

theorem lt_of_lt_rounded {limit offset bound : Int} (hpos : 0 < limit) (hdvd : limit ∣ offset)
    (hlt : offset < (bound + limit - 1) / limit * limit) : offset < bound := by
  obtain ⟨k, rfl⟩ := hdvd
  have hk : k + 1 ≤ (bound + limit - 1) / limit := by
    rw [Int.mul_comm limit k] at hlt
    exact Int.lt_of_mul_lt_mul_right hlt hpos.le
  rw [Int.le_ediv_iff_mul_le hpos, Int.add_mul, Int.mul_comm k] at hk
  omega

section
variable {defaultLimit maxLimit limit : Nat} {window total : Int} (hwindow : window < 2 ^ 63)
  (hpos : 0 < limit) (hmax : maxLimit = 0 ∨ limit ≤ maxLimit)
  (hover : 2 ^ 63 ≤ (min total window + limit - 1) / limit * limit)
include hwindow hpos hmax hover

/-- Where the runners within the window, rounded up to whole pages, are too many, the sum for the
last page overflows and its limit is not shortened, so that the link to it is refused. -/
theorem not_walk_of_overflow (n : Nat) {query : Query} {offset : Nat}
    (hparse : parsePagination (query.get "limit") (query.get "offset") defaultLimit maxLimit =
      .ok (limit, offset)) (hwithin : (offset : Int) + limit ≤ window) (hdvd : limit ∣ offset)
    (hn : window - offset ≤ n) (pages : List Page) :
    ¬ Walk (handleUserListRunners defaultLimit maxLimit window total) query pages := by
  induction n generalizing query offset pages with
  | zero => omega
  | succ n ih =>
    intro hwalk
    have hpos' : 0 < (limit : Int) := Int.ofNat_lt.mpr hpos
    have hdvd' : (limit : Int) ∣ offset + limit :=
      Int.dvd_add (Int.natCast_dvd_natCast.mpr hdvd) (Int.dvd_refl _)
    have hless : (offset : Int) + limit < min total window :=
      lt_of_lt_rounded hpos' hdvd' (by omega)
    have hanswer := handleUserListRunners_of_within total hparse hwithin hwindow
    have hnext := next_writePaginationHeaders query total hpos' (Int.natCast_nonneg offset)
      hwithin hwindow
    have hoffset' : ((offset + limit : Int)).toNat = offset + limit := by omega
    have hparse' := parse_pageURL query defaultLimit hpos' (by omega)
      (show 0 ≤ (offset + limit : Int) by omega) (by omega) (hmax.imp_right Int.ofNat_le.mpr)
    rw [hoffset', Int.toNat_natCast] at hparse'
    by_cases hsum : (offset : Int) + limit + limit < 2 ^ 63
    · have hless' : (offset : Int) + limit + limit < min total window :=
        lt_of_lt_rounded hpos' (Int.dvd_add hdvd' (Int.dvd_refl _)) (by omega)
      rw [if_pos hless, nextLimit_eq hpos' (by omega) hsum, min_eq_left (by omega)] at hnext
      obtain ⟨rest, hrest⟩ := hwalk.tail hanswer hnext
      exact ih hparse' (by omega) (Nat.dvd_add hdvd (Nat.dvd_refl _)) (by omega) rest hrest
    · rw [if_pos hless, nextLimit_of_overflow (by omega) (by omega) (by omega)] at hnext
      obtain ⟨rest, hrest⟩ := hwalk.tail hanswer hnext
      have hrefused : int64 (window - limit) = window - limit :=
        int64_of_bounds (by omega) (by omega)
      have herror : handleUserListRunners defaultLimit maxLimit window total
          (pageURL query limit (offset + limit)) = .error ("requested page exceeds the " ++
            toString window ++ "-runner history window") := by
        simp only [handleUserListRunners, hparse', hrefused, bind, Except.bind]
        exact if_pos (by omega)
      exact not_walk_of_error herror hrest

end

end CiRunner.Users
