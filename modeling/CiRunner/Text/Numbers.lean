import CiRunner.Text

/-! Numbers as text: what a text of decimal digits denotes, and that a number is printed as the
digits that it was read from, if none of them could be left out. -/

namespace CiRunner.Text

/-- The number that decimal digits denote. -/
def digitsValue (l : List Char) : Nat := l.foldl (fun n c => 10 * n + (c.toNat - 48)) 0

/-- The number that a text denotes, if it is one of digits with an optional sign and fits into 64
bits. -/
def parseInt (s : String) : Option Int :=
  let (negative, digits) :=
    match s.toList with
    | '-' :: digits => (true, digits)
    | '+' :: digits => (false, digits)
    | digits => (false, digits)
  if digits = [] ∨ !digits.all Char.isDigit then none
  else if negative then
    if digitsValue digits ≤ 2 ^ 63 then some (-digitsValue digits) else none
  else if digitsValue digits < 2 ^ 63 then some (digitsValue digits)
  else none

theorem digitChar_of_isDigit {c : Char} (h : c.isDigit = true) :
    c.toNat - 48 < 10 ∧ Nat.digitChar (c.toNat - 48) = c := by
  simp only [Char.isDigit, Bool.and_eq_true, decide_eq_true_eq] at h
  have hdigit : 48 ≤ c.toNat ∧ c.toNat ≤ 57 := h
  refine ⟨by omega, Char.toNat_inj.mp ?_⟩
  rw [Nat.toNat_digitChar_of_lt_ten (by omega)]
  omega

theorem toDigits_foldl {l : List Char} (hdigits : ∀ c ∈ l, c.isDigit = true) {n : Nat}
    (hpos : 0 < n) :
    Nat.toDigits 10 (l.foldl (fun n c => 10 * n + (c.toNat - 48)) n) = Nat.toDigits 10 n ++ l := by
  induction l generalizing n with
  | nil => rw [List.foldl_nil, List.append_nil]
  | cons c l ih =>
    rw [List.forall_mem_cons] at hdigits
    obtain ⟨hlt, hchar⟩ := digitChar_of_isDigit hdigits.1
    rw [List.foldl_cons, ih hdigits.2 (by omega),
      ← Nat.toDigits_append_toDigits (by decide) hpos hlt, Nat.toDigits_of_lt_base hlt, hchar,
      List.append_assoc]
    rfl

theorem toDigits_digitsValue {c : Char} {l : List Char}
    (hdigits : ∀ d ∈ c :: l, d.isDigit = true) (hzero : c ≠ '0') :
    Nat.toDigits 10 (digitsValue (c :: l)) = c :: l := by
  rw [List.forall_mem_cons] at hdigits
  obtain ⟨hlt, hchar⟩ := digitChar_of_isDigit hdigits.1
  have hpos : 0 < c.toNat - 48 := by
    refine Nat.pos_of_ne_zero fun hz => hzero ?_
    rw [← hchar, hz]
    rfl
  rw [digitsValue, List.foldl_cons, Nat.mul_zero, Nat.zero_add, toDigits_foldl hdigits.2 hpos,
    Nat.toDigits_of_lt_base hlt, hchar]
  rfl

/-! ### Reading what was printed -/

theorem digitsValue_toDigits (n : Nat) : digitsValue (Nat.toDigits 10 n) = n :=
  Nat.ofDigitChars_ten_toDigits

theorem isDigit_of_mem_toDigits {n : Nat} {c : Char} (h : c ∈ Nat.toDigits 10 n) :
    c.isDigit = true :=
  Nat.isDigit_of_mem_toDigits (by decide) (by decide) h

theorem toDigits_readable (n : Nat) :
    ¬ (Nat.toDigits 10 n = [] ∨ (!(Nat.toDigits 10 n).all Char.isDigit) = true) := by
  rintro (hnil | hother)
  · exact Nat.toDigits_ne_nil hnil
  · rw [Bool.not_eq_true', List.all_eq_false] at hother
    obtain ⟨c, hc, hdigit⟩ := hother
    exact hdigit (isDigit_of_mem_toDigits hc)

theorem parseInt_natRepr {n : Nat} (h : n < 2 ^ 63) : parseInt n.repr = some (n : Int) := by
  have hsplit : (match n.repr.toList with
      | '-' :: digits => (true, digits)
      | '+' :: digits => (false, digits)
      | digits => (false, digits)) = (false, Nat.toDigits 10 n) := by
    rw [Nat.toList_repr]
    split
    · rename_i digits heq
      exact absurd (isDigit_of_mem_toDigits (heq ▸ List.mem_cons_self)) (by decide)
    · rename_i digits heq
      exact absurd (isDigit_of_mem_toDigits (heq ▸ List.mem_cons_self)) (by decide)
    · rfl
  unfold parseInt
  rw [hsplit]
  dsimp only
  rw [if_neg (toDigits_readable n), if_neg Bool.false_ne_true, digitsValue_toDigits, if_pos h]

theorem parseInt_negRepr {n : Nat} (h : n ≤ 2 ^ 63) :
    parseInt ("-" ++ n.repr) = some (-(n : Int)) := by
  have htext : ("-" ++ n.repr).toList = '-' :: Nat.toDigits 10 n := by
    rw [String.toList_append, Nat.toList_repr]
    rfl
  have hsplit : (match ("-" ++ n.repr).toList with
      | '-' :: digits => (true, digits)
      | '+' :: digits => (false, digits)
      | digits => (false, digits)) = (true, Nat.toDigits 10 n) := by
    rw [htext]
    rfl
  unfold parseInt
  rw [hsplit]
  dsimp only
  rw [if_neg (toDigits_readable n), if_pos rfl, digitsValue_toDigits, if_pos h]

theorem parseInt_toString {n : Int} (hlow : -2 ^ 63 ≤ n) (hhigh : n < 2 ^ 63) :
    parseInt (toString n) = some n := by
  cases n with
  | ofNat n => exact parseInt_natRepr (Int.ofNat_lt.mp hhigh)
  | negSucc n => exact parseInt_negRepr (by omega)

end CiRunner.Text
