import CiRunner.Text

/-! Clean paths. Cleaning a relative path drops the elements that say nothing and resolves the
steps back up; what is left is a shortest path, which cleaning leaves as it is. -/

namespace CiRunner.Text

/-! ### Elements -/

theorem of_mem_splitOn {l element : List Char} {sep : Char} (h : element ∈ l.splitOn sep) :
    sep ∉ element ∧ element ⊆ l := by
  induction l generalizing element with
  | nil =>
    obtain rfl : element = [] := by simpa using h
    exact ⟨List.not_mem_nil, List.nil_subset _⟩
  | cons c l ih =>
    have hrest : ∀ element ∈ l.splitOn sep, sep ∉ element ∧ element ⊆ c :: l :=
      fun element h => ⟨(ih h).1, List.subset_cons_of_subset c (ih h).2⟩
    rw [List.splitOn_cons_eq_if_modifyHead] at h
    split at h
    · rcases List.mem_cons.mp h with rfl | h
      · exact ⟨List.not_mem_nil, List.nil_subset _⟩
      · exact hrest element h
    · rename_i hc
      cases hl : l.splitOn sep with
      | nil => exact absurd hl (List.splitOn_ne_nil sep l)
      | cons first rest =>
        rw [hl, List.modifyHead_cons] at h
        rw [hl, List.forall_mem_cons] at hrest
        rcases List.mem_cons.mp h with rfl | h
        · rw [List.mem_cons, not_or]
          exact ⟨⟨fun heq => hc (beq_iff_eq.mpr heq.symm), hrest.1.1⟩,
            List.cons_subset.mpr ⟨List.mem_cons_self, hrest.1.2⟩⟩
        · exact hrest.2 element h

/-- The elements of a shortest path, in reverse: a step back up only follows another one. -/
inductive Shortest : List (List Char) → Prop where
  | nil : Shortest []
  | cons {element : List Char} {kept : List (List Char)} (hne : element ≠ [])
      (hdot : element ≠ ['.']) (hslash : '/' ∉ element)
      (hup : element = ['.', '.'] → ∀ last ∈ kept.head?, last = ['.', '.'])
      (h : Shortest kept) : Shortest (element :: kept)

namespace Shortest

variable {kept : List (List Char)} {element : List Char}

theorem forall_mem (h : Shortest kept) : ∀ element ∈ kept, element ≠ [] ∧ '/' ∉ element := by
  induction h with
  | nil => exact fun _ h => absurd h List.not_mem_nil
  | cons hne _ hslash _ _ ih => exact List.forall_mem_cons.mpr ⟨⟨hne, hslash⟩, ih⟩

theorem pushElement (h : Shortest kept) (hslash : '/' ∉ element) :
    Shortest (pushElement false kept element) := by
  unfold Text.pushElement
  split
  · exact h
  · rename_i hplain
    rw [not_or] at hplain
    split
    · rename_i hup
      cases h with
      | nil => exact .cons hplain.1 hplain.2 hslash (by simp) .nil
      | cons hne hdot hnone hlast hkept =>
        dsimp only
        split
        · rename_i heq
          exact .cons hplain.1 hplain.2 hslash (by simp [heq]) (.cons hne hdot hnone hlast hkept)
        · exact hkept
    · rename_i hup
      exact .cons hplain.1 hplain.2 hslash (fun heq => absurd heq hup) h

theorem foldl {elements : List (List Char)} (h : Shortest kept)
    (hslash : ∀ element ∈ elements, '/' ∉ element) :
    Shortest (elements.foldl (Text.pushElement false) kept) := by
  induction elements generalizing kept with
  | nil => exact h
  | cons element elements ih =>
    rw [List.forall_mem_cons] at hslash
    exact ih (h.pushElement hslash.1) hslash.2

theorem foldl_reverse (h : Shortest kept) :
    kept.reverse.foldl (Text.pushElement false) [] = kept := by
  induction h with
  | nil => rfl
  | @cons element kept hne hdot _ hup _ ih =>
    rw [List.reverse_cons, List.foldl_append, ih, List.foldl_cons, List.foldl_nil]
    unfold Text.pushElement
    rw [if_neg (not_or.mpr ⟨hne, hdot⟩)]
    split
    · rename_i heq
      cases kept with
      | nil => rfl
      | cons last rest => exact if_pos (hup heq last rfl)
    · rfl

end Shortest

theorem mem_foldl_pushElement {rooted : Bool} {elements kept : List (List Char)}
    {element : List Char} (h : element ∈ elements.foldl (pushElement rooted) kept) :
    element ∈ kept ∨ element ∈ elements := by
  induction elements generalizing kept with
  | nil => exact .inl h
  | cons first elements ih =>
    rcases ih h with h | h
    · unfold pushElement at h
      grind
    · exact .inr (List.mem_cons_of_mem first h)

/-! ### Sizes -/

/-- The bytes of the elements, with a slash for each. -/
def weight (elements : List (List Char)) : Nat :=
  (elements.map fun element => (String.ofList element).utf8ByteSize + 1).sum

theorem weight_pushElement (rooted : Bool) (kept : List (List Char)) (element : List Char) :
    weight (pushElement rooted kept element) ≤
      weight kept + ((String.ofList element).utf8ByteSize + 1) := by
  unfold pushElement weight
  grind

theorem weight_foldl (rooted : Bool) (elements kept : List (List Char)) :
    weight (elements.foldl (pushElement rooted) kept) ≤ weight kept + weight elements := by
  induction elements generalizing kept with
  | nil => exact Nat.le_refl _
  | cons element elements ih =>
    have hpush := weight_pushElement rooted kept element
    have hrest := ih (pushElement rooted kept element)
    have hcons : weight (element :: elements) =
        (String.ofList element).utf8ByteSize + 1 + weight elements := by
      rw [weight, List.map_cons, List.sum_cons, weight]
    rw [List.foldl_cons]
    omega

theorem utf8ByteSize_intercalate {elements : List (List Char)} (h : elements ≠ []) :
    (String.ofList (['/'].intercalate elements)).utf8ByteSize + 1 = weight elements := by
  induction elements with
  | nil => exact absurd rfl h
  | cons element elements ih =>
    cases elements with
    | nil => simp [weight]
    | cons next rest =>
      have hrest := ih (List.cons_ne_nil next rest)
      rw [List.intercalate_cons_cons, String.ofList_append, String.ofList_append,
        String.utf8ByteSize_append, String.utf8ByteSize_append, weight, List.map_cons,
        List.sum_cons, ← weight, ← hrest]
      have hslash : (String.ofList ['/']).utf8ByteSize = 1 := by decide
      omega

/-! ### Clean paths -/

/-- The text neither starts nor ends with a slash. -/
structure Unslashed (l : List Char) : Prop where
  head : l.head? ≠ some '/'
  last : l.getLast? ≠ some '/'

theorem unslashed_intercalate {elements : List (List Char)} (hne : elements ≠ [])
    (h : ∀ element ∈ elements, element ≠ [] ∧ '/' ∉ element) :
    ['/'].intercalate elements ≠ [] ∧ Unslashed (['/'].intercalate elements) := by
  have hslash : ∀ {element : List Char}, element ≠ [] ∧ '/' ∉ element →
      element ≠ [] ∧ Unslashed element := fun he =>
    ⟨he.1, fun hhead => he.2 (List.mem_of_mem_head? hhead),
      fun hlast => he.2 (List.mem_of_getLast? hlast)⟩
  induction elements with
  | nil => exact absurd rfl hne
  | cons element elements ih =>
    rw [List.forall_mem_cons] at h
    obtain ⟨hfirst, hun⟩ := hslash h.1
    cases elements with
    | nil => simpa using ⟨hfirst, hun⟩
    | cons next rest =>
      obtain ⟨hrest, hunrest⟩ := ih (List.cons_ne_nil next rest) h.2
      rw [List.intercalate_cons_cons]
      refine ⟨by simp [hfirst], ?_, ?_⟩
      · rw [List.append_assoc, List.head?_append_of_ne_nil _ hfirst]
        exact hun.head
      · rw [List.getLast?_append_of_ne_nil _ hrest]
        exact hunrest.last

/-- The elements that are left of a relative path, in reverse. -/
def kept (s : String) : List (List Char) := (s.toList.splitOn '/').foldl (pushElement false) []

theorem shortest_kept (s : String) : Shortest (kept s) :=
  Shortest.nil.foldl fun _ h => (of_mem_splitOn h).1

variable {s : String}

theorem startsWith_slash (s : String) : startsWith s "/" = (s.toList.head? == some '/') := by
  rw [startsWith]
  cases s.toList with
  | nil => rfl
  | cons c cs => exact (Bool.and_true _).trans Bool.beq_comm

theorem unslashed_kept (hkept : kept s ≠ []) :
    ['/'].intercalate (kept s).reverse ≠ [] ∧ Unslashed (['/'].intercalate (kept s).reverse) :=
  unslashed_intercalate (by simpa using hkept)
    fun element h => (shortest_kept s).forall_mem element (List.mem_reverse.mp h)

theorem cleanPath_eq (h : startsWith s "/" = false) :
    cleanPath s =
      if kept s = [] then "." else String.ofList (['/'].intercalate (kept s).reverse) := by
  rw [cleanPath, ← startsWith_slash, h, if_neg Bool.false_ne_true, ← kept]
  by_cases hkept : kept s = []
  · rw [hkept]
    rfl
  · rw [if_neg hkept, if_neg (unslashed_kept hkept).1]

theorem kept_cleanPath (h : startsWith s "/" = false) : kept (cleanPath s) = kept s := by
  rw [cleanPath_eq h]
  split
  · rename_i hkept
    rw [hkept]
    rfl
  · rename_i hkept
    have hsplit : (['/'].intercalate (kept s).reverse).splitOn '/' = (kept s).reverse :=
      List.splitOn_intercalate '/'
        (fun element h => ((shortest_kept s).forall_mem element (List.mem_reverse.mp h)).2)
        (by simpa using hkept)
    conv_lhs => rw [kept, String.toList_ofList, hsplit]
    exact (shortest_kept s).foldl_reverse

theorem unslashed_cleanPath (h : startsWith s "/" = false) : Unslashed (cleanPath s).toList := by
  rw [cleanPath_eq h]
  split
  · exact ⟨by decide, by decide⟩
  · rename_i hkept
    rw [String.toList_ofList]
    exact (unslashed_kept hkept).2

theorem startsWith_cleanPath (h : startsWith s "/" = false) :
    startsWith (cleanPath s) "/" = false := by
  rw [startsWith_slash, beq_eq_false_iff_ne]
  exact (unslashed_cleanPath h).head

theorem cleanPath_cleanPath (h : startsWith s "/" = false) :
    cleanPath (cleanPath s) = cleanPath s := by
  rw [cleanPath_eq (startsWith_cleanPath h), kept_cleanPath h, ← cleanPath_eq h]

theorem cleanPath_ne_empty (h : startsWith s "/" = false) : cleanPath s ≠ "" := by
  rw [cleanPath_eq h]
  split
  · decide
  · rename_i hkept
    intro hempty
    refine (unslashed_kept hkept).1 ?_
    rw [← String.toList_ofList (l := ['/'].intercalate _), hempty]
    rfl

theorem utf8ByteSize_cleanPath_le (h : startsWith s "/" = false) (hne : s ≠ "") :
    (cleanPath s).utf8ByteSize ≤ s.utf8ByteSize := by
  have hs : s.utf8ByteSize + 1 = weight (s.toList.splitOn '/') := by
    rw [← utf8ByteSize_intercalate (List.splitOn_ne_nil '/' _), List.intercalate_splitOn,
      String.ofList_toList]
  rw [cleanPath_eq h]
  split
  · have hpos : s.utf8ByteSize ≠ 0 := by simpa using hne
    have hdot : (".".utf8ByteSize : Nat) = 1 := by decide
    omega
  · rename_i hkept
    have hsize := utf8ByteSize_intercalate (List.reverse_ne_nil_iff.mpr hkept)
    have hreverse : weight (kept s).reverse = weight (kept s) := by
      rw [weight, List.map_reverse, List.sum_reverse, weight]
    have hle := weight_foldl false (s.toList.splitOn '/') []
    have hnil : weight [] = 0 := rfl
    rw [← kept] at hle
    omega

theorem mem_of_mem_cleanPath {c : Char} (h : startsWith s "/" = false)
    (hc : c ∈ (cleanPath s).toList) : c = '/' ∨ c = '.' ∨ c ∈ s.toList := by
  rw [cleanPath_eq h] at hc
  split at hc
  · exact .inr (.inl (by simpa using hc))
  · rw [String.toList_ofList] at hc
    have hmem : ∀ elements : List (List Char), c ∈ ['/'].intercalate elements →
        c = '/' ∨ ∃ element ∈ elements, c ∈ element := by
      intro elements
      induction elements with
      | nil => simp
      | cons element elements ih =>
        cases elements with
        | nil => simpa using Or.inr
        | cons next rest =>
          rw [List.intercalate_cons_cons, List.mem_append, List.mem_append, List.mem_singleton]
          grind
    rcases hmem _ hc with rfl | ⟨element, hin, hc⟩
    · exact .inl rfl
    · have hin := (mem_foldl_pushElement (List.mem_reverse.mp hin)).resolve_left List.not_mem_nil
      exact .inr (.inr ((of_mem_splitOn hin).2 hc))

end CiRunner.Text
