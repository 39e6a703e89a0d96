import CiRunner.State.Context
import CiRunner.Text.Cuts
import CiRunner.Text.Numbers
import Mathlib.Data.List.Infix

/-! The link of a job with the number of its pull request in the query. A URL is a base, a query
behind the first question mark and a fragment behind the first number sign. The number is written
at the end of the URL, which is the end of the query only if there is no fragment. -/

namespace CiRunner.State

open Text

/-! ### The parts of a URL -/

def beforeFragment (url : List Char) : List Char := url.takeWhile (· != '#')

def fragmentPart (url : List Char) : List Char := url.dropWhile (· != '#')

def basePart (url : List Char) : List Char := (beforeFragment url).takeWhile (· != '?')

/-- What comes behind the first question mark, up to the fragment. -/
def queryPart (url : List Char) : Option (List Char) :=
  match (beforeFragment url).dropWhile (· != '?') with
  | [] => none
  | _ :: query => some query

def parameters (url : List Char) : List (List Char) :=
  match queryPart url with
  | none => []
  | some query => query.splitOn '&'

def parameterName (parameter : List Char) : List Char := parameter.takeWhile (· != '=')

def HasParameter (url name : List Char) : Prop :=
  ∃ parameter ∈ parameters url, parameterName parameter = name

instance (url name : List Char) : Decidable (HasParameter url name) :=
  inferInstanceAs (Decidable (∃ parameter ∈ parameters url, parameterName parameter = name))

/-! ### The scanner of the source -/

/-- The loop over the fields of a query: each is cut off at the next separator, up to the last one
or to the end of the text. -/
def scanFields (name rawQuery : List Char) : Bool :=
  if rawQuery = [] then false
  else if (cut '=' (cut '&' rawQuery).1).1 = name then true
  else if (cut '&' rawQuery).2.2 = true then scanFields name (cut '&' rawQuery).2.1
  else false
termination_by rawQuery.length
decreasing_by exact length_cut_lt ‹_›

/-- The search of the source, by the positions of the first question mark and the first number
sign. -/
def scanParameter (rawURL name : List Char) : Bool :=
  match rawURL.findIdx? (· == '?') with
  | none => false
  | some queryStart =>
    match rawURL.findIdx? (· == '#') with
    | none => scanFields name (rawURL.drop (queryStart + 1))
    | some fragmentStart =>
      if fragmentStart < queryStart then false
      else scanFields name ((rawURL.take fragmentStart).drop (queryStart + 1))

theorem queryFields_front {front : List Char} (h : '&' ∉ front) (back : List Char) :
    queryFields (front ++ '&' :: back) = front :: queryFields back := by
  have hsplit : (front ++ '&' :: back).splitOn '&' = front :: back.splitOn '&' :=
    List.splitOnP_append_cons_of_forall_mem (fun c hc => by simpa using ne_of_notMem h c hc) '&'
      (by simp) back
  have hne : back.splitOn '&' ≠ [] := List.splitOn_ne_nil '&' back
  simp only [queryFields, hsplit, List.getLast?_cons_of_ne_nil hne,
    List.dropLast_cons_of_ne_nil hne]
  split <;> rfl

theorem queryFields_of_notMem {query : List Char} (h : '&' ∉ query) (hne : query ≠ []) :
    queryFields query = [query] := by
  rw [queryFields, List.splitOn_eq_singleton h]
  simp [hne]

theorem scanFields_eq (name query : List Char) :
    scanFields name query =
      (queryFields query).any fun field => field.takeWhile (· != '=') = name := by
  induction hn : query.length using Nat.strong_induction_on generalizing query with
  | _ n ih =>
    subst hn
    rw [scanFields, cut_fst '=']
    by_cases hnil : query = []
    · subst hnil
      rfl
    rw [if_neg hnil]
    by_cases hmem : '&' ∈ query
    · obtain ⟨front, back, rfl, hfront⟩ := List.eq_append_cons_of_mem hmem
      have hlt : back.length < (front ++ '&' :: back).length := by
        rw [List.length_append, List.length_cons]
        omega
      rw [queryFields_front hfront, cut_front hfront, if_pos rfl, ih _ hlt back rfl, List.any_cons]
      split <;> simp [*]
    · rw [queryFields_of_notMem hmem hnil, cut_of_notMem hmem]
      simp

/-! ### The parts of a URL, put together -/

/-- Nothing, or a number sign and what follows it. -/
def AtFragment (rest : List Char) : Prop := rest = [] ∨ ∃ text, rest = '#' :: text

/-- Every URL has a part without either sign, then a query or none, and then a fragment or none. -/
theorem url_cases (url : List Char) :
    (∃ base rest, url = base ++ rest ∧ '?' ∉ base ∧ '#' ∉ base ∧ AtFragment rest) ∨
    ∃ base query rest, url = base ++ '?' :: (query ++ rest) ∧ '?' ∉ base ∧ '#' ∉ base ∧
      '#' ∉ query ∧ AtFragment rest := by
  have hfragment : ∀ l : List Char, ∃ front rest, l = front ++ rest ∧ '#' ∉ front ∧
      AtFragment rest := by
    intro l
    by_cases hmem : '#' ∈ l
    · obtain ⟨front, back, rfl, hfront⟩ := List.eq_append_cons_of_mem hmem
      exact ⟨front, '#' :: back, rfl, hfront, .inr ⟨back, rfl⟩⟩
    · exact ⟨l, [], (List.append_nil l).symm, hmem, .inl rfl⟩
  obtain ⟨front, rest, rfl, hfront, hrest⟩ := hfragment url
  by_cases hmem : '?' ∈ front
  · obtain ⟨base, query, rfl, hbase⟩ := List.eq_append_cons_of_mem hmem
    simp only [List.mem_append, List.mem_cons, not_or] at hfront
    exact .inr ⟨base, query, rest, by simp, hbase, hfront.1, hfront.2.2, hrest⟩
  · exact .inl ⟨front, rest, rfl, hmem, hfront, hrest⟩

theorem takeWhile_atFragment {front rest : List Char} (h : '#' ∉ front) (hrest : AtFragment rest) :
    (front ++ rest).takeWhile (· != '#') = front := by
  obtain rfl | ⟨text, rfl⟩ := hrest
  · rw [List.append_nil, takeWhile_of_notMem h]
  · rw [takeWhile_front h]

theorem takeWhile_either {base : List Char} (hq : '?' ∉ base) (hf : '#' ∉ base)
    (back : List Char) :
    ((base ++ back).takeWhile fun c => c != '?' && c != '#') =
      base ++ back.takeWhile fun c => c != '?' && c != '#' := by
  refine List.takeWhile_append_of_pos fun c hc => ?_
  rw [Bool.and_eq_true]
  exact ⟨ne_of_notMem hq c hc, ne_of_notMem hf c hc⟩

section
variable {base rest : List Char} (hq : '?' ∉ base) (hf : '#' ∉ base) (hrest : AtFragment rest)
include hq hf hrest

theorem queryPart_base : queryPart (base ++ rest) = none := by
  rw [queryPart, beforeFragment, takeWhile_atFragment hf hrest, dropWhile_of_notMem hq]

theorem basePart_base : basePart (base ++ rest) = base := by
  rw [basePart, beforeFragment, takeWhile_atFragment hf hrest, takeWhile_of_notMem hq]

theorem rawQuery_base : rawQuery (base ++ rest) = none := by
  rw [rawQuery, takeWhile_either hq hf]
  obtain rfl | ⟨text, rfl⟩ := hrest
  · simp
  · simp

theorem scanParameter_base (name : List Char) : scanParameter (base ++ rest) name = false := by
  obtain rfl | ⟨text, rfl⟩ := hrest
  · rw [List.append_nil, scanParameter, findIdx?_of_notMem hq]
  · by_cases hmem : '?' ∈ text
    -- The question mark is one of the fragment.
    · obtain ⟨front, back, rfl, hfront⟩ := List.eq_append_cons_of_mem hmem
      have hq' : '?' ∉ base ++ '#' :: front := by simp [hq, hfront]
      have hurl : base ++ '#' :: (front ++ '?' :: back) = (base ++ '#' :: front) ++ '?' :: back := by
        simp
      have hstart := findIdx?_front hq' back
      rw [← hurl] at hstart
      rw [scanParameter, hstart, findIdx?_front hf]
      exact if_pos (by rw [List.length_append, List.length_cons]; omega)
    · rw [scanParameter, findIdx?_of_notMem (by simp [hq, hmem])]

variable {query : List Char} (hquery : '#' ∉ query)
include hquery

omit hq in
theorem beforeFragment_query :
    beforeFragment (base ++ '?' :: (query ++ rest)) = base ++ '?' :: query := by
  have hfront : '#' ∉ base ++ '?' :: query := by simp [hf, hquery]
  rw [beforeFragment, ← List.cons_append, ← List.append_assoc,
    takeWhile_atFragment hfront hrest]

theorem queryPart_query : queryPart (base ++ '?' :: (query ++ rest)) = some query := by
  rw [queryPart, beforeFragment_query hf hrest hquery, dropWhile_front hq]

theorem basePart_query : basePart (base ++ '?' :: (query ++ rest)) = base := by
  rw [basePart, beforeFragment_query hf hrest hquery, takeWhile_front hq]

theorem rawQuery_query : rawQuery (base ++ '?' :: (query ++ rest)) = some query := by
  rw [rawQuery, takeWhile_either hq hf]
  simp only [bne_self_eq_false, Bool.false_and, Bool.false_eq_true, not_false_eq_true,
    List.takeWhile_cons_of_neg, List.append_nil, List.drop_left, takeWhile_atFragment hquery hrest]

theorem scanParameter_query (name : List Char) :
    scanParameter (base ++ '?' :: (query ++ rest)) name = scanFields name query := by
  rw [scanParameter, findIdx?_front hq]
  obtain rfl | ⟨text, rfl⟩ := hrest
  · rw [findIdx?_of_notMem (by simp [hf, hquery])]
    simp
  · have hf' : '#' ∉ base ++ '?' :: query := by simp [hf, hquery]
    have hurl : base ++ '?' :: (query ++ '#' :: text) = (base ++ '?' :: query) ++ '#' :: text := by
      simp
    have hlength : ¬ (base ++ '?' :: query).length < base.length := by
      rw [List.length_append]
      omega
    rw [hurl, findIdx?_front hf']
    simp only [if_neg hlength, List.take_left]
    simp

end

theorem scanParameter_eq (rawURL name : String) :
    scanParameter rawURL.toList name.toList = hasRawQueryParameter rawURL name := by
  rw [hasRawQueryParameter]
  obtain ⟨base, rest, hurl, hq, hf, hrest⟩ | ⟨base, query, rest, hurl, hq, hf, hquery, hrest⟩ :=
    url_cases rawURL.toList
  · rw [hurl, scanParameter_base hq hf hrest, rawQuery_base hq hf hrest]
  · rw [hurl, scanParameter_query hq hf hrest hquery, rawQuery_query hq hf hrest hquery,
      scanFields_eq]

theorem rawQuery_eq (url : List Char) : rawQuery url = queryPart url := by
  obtain ⟨base, rest, rfl, hq, hf, hrest⟩ | ⟨base, query, rest, rfl, hq, hf, hquery, hrest⟩ :=
    url_cases url
  · rw [rawQuery_base hq hf hrest, queryPart_base hq hf hrest]
  · rw [rawQuery_query hq hf hrest hquery, queryPart_query hq hf hrest hquery]

theorem mem_queryFields_iff {query field : List Char} (h : field ≠ []) :
    field ∈ queryFields query ↔ field ∈ query.splitOn '&' := by
  simp only [queryFields]
  split
  · rename_i hlast
    have hfields := List.dropLast_append_getLast? [] hlast
    constructor
    · exact fun hfield => List.dropLast_subset _ hfield
    · intro hfield
      rw [← hfields, List.mem_append, List.mem_singleton] at hfield
      exact hfield.resolve_right h
  · rfl

theorem hasRawQueryParameter_iff {rawURL name : String} (h : name ≠ "") :
    hasRawQueryParameter rawURL name = true ↔ HasParameter rawURL.toList name.toList := by
  rw [hasRawQueryParameter, rawQuery_eq, HasParameter, parameters]
  cases queryPart rawURL.toList with
  | none => simp
  | some query =>
    simp only [List.any_eq_true, decide_eq_true_eq, parameterName]
    refine exists_congr fun field => and_congr_left fun hname => mem_queryFields_iff ?_
    rintro rfl
    exact h (String.toList_inj.mp hname.symm)

/-! ### The number of the pull request -/

def pullRequestParameter (prNumber : Int) : String := "pr=" ++ toString prNumber

theorem notMem_pullRequestParameter {prNumber : Int} (hpos : 0 < prNumber) {sep : Char}
    (hsep : sep ∉ ['p', 'r', '=']) (hdigit : sep.isDigit = false) :
    sep ∉ (pullRequestParameter prNumber).toList := by
  obtain ⟨n, rfl⟩ := Int.eq_ofNat_of_zero_le hpos.le
  rw [pullRequestParameter, String.toList_append, List.mem_append]
  rintro (hmem | hmem)
  · exact hsep hmem
  · have hdigits : sep ∈ Nat.toDigits 10 n := by
      rw [← Nat.toList_repr]
      exact hmem
    rw [isDigit_of_mem_toDigits hdigits] at hdigit
    cases hdigit

theorem parameterName_pullRequest (prNumber : Int) :
    parameterName (pullRequestParameter prNumber).toList = "pr".toList := by
  have hname : '=' ∉ ['p', 'r'] := by decide
  rw [pullRequestParameter, String.toList_append]
  exact takeWhile_front hname _

theorem contains_question_iff (s : String) : contains s "?" = true ↔ '?' ∈ s.toList :=
  hasInfix_iff.trans (List.singleton_infix_iff '?' s.toList)

/-- What the parameter is written behind. -/
def linkSeparator (rawURL : String) : String := if contains rawURL "?" then "&" else "?"

theorem appendPullRequestQuery_of_parameter {rawURL : String}
    (h : HasParameter rawURL.toList "pr".toList) (prNumber : Int) :
    appendPullRequestQuery rawURL prNumber = rawURL := by
  rw [appendPullRequestQuery, if_pos ((hasRawQueryParameter_iff (by decide)).mpr h), ite_self]

theorem appendPullRequestQuery_of_none {rawURL : String} {prNumber : Int} (hpos : 0 < prNumber)
    (hne : rawURL ≠ "") (h : ¬ HasParameter rawURL.toList "pr".toList) :
    appendPullRequestQuery rawURL prNumber =
      rawURL ++ linkSeparator rawURL ++ pullRequestParameter prNumber := by
  have hnone : ¬ (rawURL = "" ∨ prNumber ≤ 0) := by
    rintro (hempty | hle)
    · exact hne hempty
    · omega
  rw [appendPullRequestQuery, if_neg hnone,
    if_neg (fun hhas => h ((hasRawQueryParameter_iff (by decide)).mp hhas)),
    linkSeparator, pullRequestParameter]
  exact String.append_assoc

theorem parts_of_base {base : List Char} (hq : '?' ∉ base) (hf : '#' ∉ base) :
    basePart base = base ∧ parameters base = [] := by
  have hbase := basePart_base hq hf (.inl rfl)
  have hquery := queryPart_base hq hf (.inl rfl)
  rw [List.append_nil] at hbase hquery
  exact ⟨hbase, by rw [parameters, hquery]⟩

theorem parts_of_query {base query : List Char} (hq : '?' ∉ base) (hf : '#' ∉ base)
    (hquery : '#' ∉ query) :
    basePart (base ++ '?' :: query) = base ∧
      parameters (base ++ '?' :: query) = query.splitOn '&' := by
  have hbase := basePart_query hq hf (.inl rfl) hquery
  have hsome := queryPart_query hq hf (.inl rfl) hquery
  rw [List.append_nil] at hbase hsome
  exact ⟨hbase, by rw [parameters, hsome]⟩

/-- A URL without a fragment gets the parameter at the end of its query. -/
theorem parts_append {rawURL : String} (hfragment : '#' ∉ rawURL.toList) {prNumber : Int}
    (hpos : 0 < prNumber) :
    let linked := (rawURL ++ linkSeparator rawURL ++ pullRequestParameter prNumber).toList
    '#' ∉ linked ∧ basePart linked = basePart rawURL.toList ∧
      parameters linked =
        parameters rawURL.toList ++ [(pullRequestParameter prNumber).toList] := by
  have hsharp : '#' ∉ (pullRequestParameter prNumber).toList :=
    notMem_pullRequestParameter hpos (by decide) (by decide)
  have hamp : '&' ∉ (pullRequestParameter prNumber).toList :=
    notMem_pullRequestParameter hpos (by decide) (by decide)
  intro linked
  by_cases hmem : '?' ∈ rawURL.toList
  · obtain ⟨base, query, hurl, hbase⟩ := List.eq_append_cons_of_mem hmem
    have hlinked : linked =
        base ++ '?' :: (query ++ '&' :: (pullRequestParameter prNumber).toList) := by
      simp [linked, linkSeparator, (contains_question_iff rawURL).mpr hmem, hurl]
    have hparts : '#' ∉ base ∧ '#' ∉ query := by
      simpa [hurl] using hfragment
    have hquery : '#' ∉ query ++ '&' :: (pullRequestParameter prNumber).toList := by
      simp [hparts.2, hsharp]
    have hsplit : (query ++ '&' :: (pullRequestParameter prNumber).toList).splitOn '&' =
        query.splitOn '&' ++ (pullRequestParameter prNumber).toList.splitOn '&' :=
      List.splitOnP_append_cons _ _ (by simp)
    obtain ⟨hbase', hparameters'⟩ := parts_of_query hbase hparts.1 hquery
    obtain ⟨hbase, hparameters⟩ := parts_of_query hbase hparts.1 hparts.2
    rw [hlinked, hurl, hbase', hbase, hparameters', hparameters, hsplit,
      List.splitOn_eq_singleton hamp]
    exact ⟨by simp [hparts.1, hquery], rfl, rfl⟩
  · have hlinked : linked = rawURL.toList ++ '?' :: (pullRequestParameter prNumber).toList := by
      simp [linked, linkSeparator, mt (contains_question_iff rawURL).mp hmem]
    obtain ⟨hbase', hparameters'⟩ := parts_of_query hmem hfragment hsharp
    obtain ⟨hbase, hparameters⟩ := parts_of_base hmem hfragment
    rw [hlinked, hbase', hbase, hparameters', hparameters, List.splitOn_eq_singleton hamp]
    exact ⟨by simp [hfragment, hsharp], rfl, rfl⟩

end CiRunner.State
