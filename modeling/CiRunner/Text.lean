import Mathlib.Algebra.GroupWithZero.Nat
import Mathlib.Algebra.Ring.Int.Defs
import Mathlib.Data.List.DropRight

/-! The string functions of the source, on lists of characters so that they
compute. Case folding is that of ASCII letters. -/

namespace CiRunner.Text

/-- What holds of the characters of a text is found by going through them, not through all
characters. -/
instance decidableForallMem (l : List Char) (p : Char → Prop) [DecidablePred p] :
    Decidable (∀ c ∈ l, p c) := List.decidableBAll p l

/-- The characters that trimming removes. -/
def isSpace (c : Char) : Bool :=
  c == ' ' || c == '\t' || c == '\n' || c == '\r' || c.val == 0x0B || c.val == 0x0C ||
    c.val == 0x85 || c.val == 0xA0 || c.val == 0x1680 || (0x2000 ≤ c.val && c.val ≤ 0x200A) ||
    c.val == 0x2028 || c.val == 0x2029 || c.val == 0x202F || c.val == 0x205F || c.val == 0x3000

def trim (l : List Char) : List Char := (l.dropWhile isSpace).rdropWhile isSpace

def trimSpace (s : String) : String := String.ofList (trim s.toList)

def toLower (s : String) : String := String.ofList (s.toList.map Char.toLower)

/-- The text before the first separator, if there is one. -/
def cutBefore (s : String) (sep : Char) : Option String :=
  if s.toList.contains sep then some (String.ofList (s.toList.takeWhile (· != sep))) else none

def replaceChar (s : String) (old new : Char) : String :=
  String.ofList (s.toList.map fun c => if c = old then new else c)

/-- Two dots in a row become a dash. -/
def replaceDots : List Char → List Char
  | '.' :: '.' :: cs => '-' :: replaceDots cs
  | c :: cs => c :: replaceDots cs
  | [] => []

def hasInfix {α : Type} [BEq α] (sub : List α) : List α → Bool
  | [] => sub.isEmpty
  | c :: cs => sub.isPrefixOf (c :: cs) || hasInfix sub cs

theorem hasInfix_iff {α : Type} [BEq α] [LawfulBEq α] {sub l : List α} :
    hasInfix sub l = true ↔ sub <:+: l := by
  induction l with
  | nil => simp [hasInfix]
  | cons a l ih => rw [hasInfix, Bool.or_eq_true, ih, List.isPrefixOf_iff_prefix, List.infix_cons_iff]

def contains (s sub : String) : Bool := hasInfix sub.toList s.toList

def startsWith (s start : String) : Bool := start.toList.isPrefixOf s.toList

/-- Equality up to the case of ASCII letters. -/
def equalFold (s t : String) : Bool := toLower s = toLower t

def isControl (c : Char) : Bool := c.val < 0x20 || (0x7F ≤ c.val && c.val < 0xA0)

def hasControl (s : String) : Bool := s.toList.any isControl

/-- One more element of a path, kept in reverse: two dots take the last element back, if there
is one to take back. -/
def pushElement (rooted : Bool) (kept : List (List Char)) (element : List Char) :
    List (List Char) :=
  if element = [] ∨ element = ['.'] then kept
  else if element = ['.', '.'] then
    match kept with
    | [] => if rooted then [] else [element]
    | last :: rest => if last = ['.', '.'] then element :: kept else rest
  else element :: kept

/-- The shortest path that names the same file. -/
def cleanPath (s : String) : String :=
  let rooted := s.toList.head? == some '/'
  let kept := (s.toList.splitOn '/').foldl (pushElement rooted) []
  let path := ['/'].intercalate kept.reverse
  if rooted then String.ofList ('/' :: path)
  else if path = [] then "."
  else String.ofList path

/-! ### Trimmed text -/

theorem isSpace_of_isDigit {c : Char} (h : c.isDigit = true) : isSpace c = false := by
  simp only [Char.isDigit, Bool.and_eq_true, decide_eq_true_eq] at h
  have hdigit : 48 ≤ c.val.toNat ∧ c.val.toNat ≤ 57 := h
  -- Every space is below or above the digits.
  have hval : ∀ n : UInt32, n.toNat < 48 ∨ 57 < n.toNat → (c.val == n) = false := by
    intro n hn
    rw [beq_eq_false_iff_ne]
    rintro rfl
    omega
  have hchar : ∀ d : Char, d.val.toNat < 48 → (c == d) = false := by
    intro d hd
    rw [beq_eq_false_iff_ne]
    rintro rfl
    omega
  have hlt : ¬ 0x2000 ≤ c.val := fun hle => by
    have : 0x2000 ≤ c.val.toNat := hle
    omega
  simp [isSpace, hval, hchar, hlt]

/-- The list neither starts nor ends with a space. -/
structure Trimmed (l : List Char) : Prop where
  head : ∀ c, l.head? = some c → isSpace c = false
  last : ∀ c, l.getLast? = some c → isSpace c = false

theorem trimmed_trim (l : List Char) : Trimmed (trim l) where
  head c hc := by
    obtain ⟨t, ht⟩ := List.rdropWhile_prefix isSpace (l.dropWhile isSpace)
    have hd := List.head?_dropWhile_not isSpace l
    rw [← ht, List.head?_append] at hd
    simpa [show (List.rdropWhile isSpace (l.dropWhile isSpace)).head? = some c from hc] using hd
  last c hc := by
    have hne : trim l ≠ [] := by rintro h; simp [h] at hc
    have := List.rdropWhile_last_not isSpace (l.dropWhile isSpace) hne
    rw [List.getLast?_eq_some_getLast hne] at hc
    cases hc
    exact Bool.eq_false_iff.mpr this

theorem Trimmed.trim_eq {l : List Char} (h : Trimmed l) : trim l = l := by
  have hd : l.dropWhile isSpace = l := by
    cases l with
    | nil => rfl
    | cons c cs => simp [h.head c rfl]
  rw [trim, hd, List.rdropWhile_eq_self_iff]
  intro hl
  simp [h.last _ (List.getLast?_eq_some_getLast hl)]

theorem trimSpace_trimSpace (s : String) : trimSpace (trimSpace s) = trimSpace s := by
  rw [trimSpace, trimSpace, String.toList_ofList, (trimmed_trim s.toList).trim_eq]

theorem Trimmed.map {l : List Char} (h : Trimmed l) {f : Char → Char}
    (hf : ∀ c, isSpace c = false → isSpace (f c) = false) : Trimmed (l.map f) where
  head c hc := by
    rw [List.head?_map, Option.map_eq_some_iff] at hc
    obtain ⟨d, hd, rfl⟩ := hc
    exact hf d (h.head d hd)
  last c hc := by
    rw [List.getLast?_map, Option.map_eq_some_iff] at hc
    obtain ⟨d, hd, rfl⟩ := hc
    exact hf d (h.last d hd)

theorem replaceDots_eq_nil {l : List Char} : replaceDots l = [] ↔ l = [] := by
  fun_cases replaceDots l <;> simp

theorem last_replaceDots {l : List Char} (h : ∀ c, l.getLast? = some c → isSpace c = false) :
    ∀ c, (replaceDots l).getLast? = some c → isSpace c = false := by
  fun_induction replaceDots l with
  | case1 cs ih =>
    intro c hc
    rw [List.getLast?_cons] at hc
    rcases hr : (replaceDots cs).getLast? with _ | d
    · rw [hr] at hc
      cases hc
      rfl
    · rw [hr] at hc
      cases hc
      exact ih (fun c hl => h c (by simp [List.getLast?_cons, hl])) _ hr
  | case2 d cs hd ih =>
    intro c hc
    rw [List.getLast?_cons] at hc
    rcases hr : (replaceDots cs).getLast? with _ | e
    · have hcs : cs = [] := replaceDots_eq_nil.mp (List.getLast?_eq_none_iff.mp hr)
      subst hcs
      rw [hr] at hc
      exact h c hc
    · rw [hr] at hc
      cases hc
      exact ih (fun c hl => h c (by simp [List.getLast?_cons, hl])) _ hr
  | case3 => simp

theorem Trimmed.replaceDots {l : List Char} (h : Trimmed l) : Trimmed (replaceDots l) where
  head c hc := by
    fun_cases Text.replaceDots l
    · simp [Text.replaceDots] at hc; subst hc; rfl
    · rename_i d cs hd
      rw [Text.replaceDots] at hc
      · exact h.head c (by simpa using hc)
      · exact hd
    · simp [Text.replaceDots] at hc
  last := last_replaceDots h.last

theorem replaceDots_replaceDots (l : List Char) : replaceDots (replaceDots l) = replaceDots l := by
  fun_induction replaceDots l with
  | case1 cs ih => simp [replaceDots, ih]
  | case2 d cs hd ih =>
    -- a dot can only follow another one if it did so before
    rw [replaceDots, ih]
    intro cs' hdot hcs
    fun_cases replaceDots cs
    · simp [replaceDots] at hcs
    · rename_i e es he
      rw [replaceDots] at hcs
      · cases hcs
        exact hd es hdot rfl
      · exact he
    · simp [replaceDots] at hcs
  | case3 => rfl

theorem replaceDots_of_notMem {l : List Char} (h : '.' ∉ l) : replaceDots l = l := by
  fun_induction replaceDots l with
  | case1 cs ih => simp at h
  | case2 c cs hc ih => rw [ih (List.not_mem_of_not_mem_cons h)]
  | case3 => rfl

theorem mem_replaceDots {l : List Char} {c : Char} (h : c ∈ replaceDots l) : c = '-' ∨ c ∈ l := by
  fun_induction replaceDots l with
  | case1 cs ih =>
    rcases List.mem_cons.mp h with rfl | h
    · exact .inl rfl
    · rcases ih h with h | h
      · exact .inl h
      · exact .inr (List.mem_cons_of_mem _ (List.mem_cons_of_mem _ h))
  | case2 d cs hd ih =>
    rcases List.mem_cons.mp h with rfl | h
    · exact .inr (List.mem_cons_self ..)
    · rcases ih h with h | h
      · exact .inl h
      · exact .inr (List.mem_cons_of_mem _ h)
  | case3 => cases h

end CiRunner.Text
