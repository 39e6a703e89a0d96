import CiRunner.Utf8

/-! Base64 with the alphabet of URLs and without padding. Reading gives back the bytes that were
written, and a text is a third longer than what it stands for. -/

namespace CiRunner.Base64

open Utf8

def alphabet : List Char :=
  "ABCDEFGHIJKLMNOPQRSTUVWXYZabcdefghijklmnopqrstuvwxyz0123456789-_".toList

/-- The character of six bits. -/
def digit (n : Nat) : Char := alphabet.getD n 'A'

def value? (c : Char) : Option Nat := alphabet.idxOf? c

/-- Three bytes are four characters; at the end one is two and two are three. -/
def encode : Bytes → List Char
  | a :: b :: c :: rest =>
    let n := (a.toNat * 256 + b.toNat) * 256 + c.toNat
    digit (n / 262144) :: digit (n / 4096 % 64) :: digit (n / 64 % 64) :: digit (n % 64) ::
      encode rest
  | [a, b] =>
    let n := (a.toNat * 256 + b.toNat) * 4
    [digit (n / 4096), digit (n / 64 % 64), digit (n % 64)]
  | [a] => [digit (a.toNat * 16 / 64), digit (a.toNat * 16 % 64)]
  | [] => []

/-- The bits that are left over at the end are not looked at. -/
def decode : List Char → Option Bytes
  | a :: b :: c :: d :: rest =>
    match value? a, value? b, value? c, value? d, decode rest with
    | some a, some b, some c, some d, some bytes =>
      let n := ((a * 64 + b) * 64 + c) * 64 + d
      some (UInt8.ofNat (n / 65536) :: UInt8.ofNat (n / 256) :: UInt8.ofNat n :: bytes)
    | _, _, _, _, _ => none
  | [a, b, c] =>
    match value? a, value? b, value? c with
    | some a, some b, some c =>
      let n := (a * 64 + b) * 64 + c
      some [UInt8.ofNat (n / 1024), UInt8.ofNat (n / 4)]
    | _, _, _ => none
  | [a, b] =>
    match value? a, value? b with
    | some a, some b => some [UInt8.ofNat ((a * 64 + b) / 16)]
    | _, _ => none
  | [_] => none
  | [] => some []

theorem value?_digit {n : Nat} (h : n < 64) : value? (digit n) = some n := by
  have hall : ∀ i : Fin 64, value? (digit i.val) = some i.val := by decide +kernel
  exact hall ⟨n, h⟩

theorem ofNat_eq {n : Nat} {a : UInt8} (h : n % 256 = a.toNat) : UInt8.ofNat n = a := by
  apply UInt8.toNat_inj.mp
  rw [UInt8.toNat_ofNat']
  exact h

theorem decode_encode (bytes : Bytes) : decode (encode bytes) = some bytes := by
  fun_induction encode bytes with
  | case1 a b c rest n ih =>
    have ha := a.toNat_lt
    have hb := b.toNat_lt
    have hc := c.toNat_lt
    have hn : n = (a.toNat * 256 + b.toNat) * 256 + c.toNat := rfl
    rw [decode, value?_digit (by omega), value?_digit (by omega), value?_digit (by omega),
      value?_digit (by omega), ih]
    dsimp only
    rw [ofNat_eq (a := a) (by omega), ofNat_eq (a := b) (by omega), ofNat_eq (a := c) (by omega)]
  | case2 a b n =>
    have ha := a.toNat_lt
    have hb := b.toNat_lt
    have hn : n = (a.toNat * 256 + b.toNat) * 4 := rfl
    rw [decode, value?_digit (by omega), value?_digit (by omega), value?_digit (by omega)]
    dsimp only
    rw [ofNat_eq (a := a) (by omega), ofNat_eq (a := b) (by omega)]
  | case3 a =>
    have ha := a.toNat_lt
    rw [decode, value?_digit (by omega), value?_digit (by omega)]
    dsimp only
    rw [ofNat_eq (a := a) (by omega)]
  | case4 => rfl

theorem length_encode (bytes : Bytes) : 4 * bytes.length ≤ 3 * (encode bytes).length := by
  fun_induction encode bytes with
  | case1 a b c rest n ih =>
    simp only [List.length_cons]
    omega
  | case2 => simp
  | case3 => simp
  | case4 => exact Nat.le_refl _

theorem digit_mem (n : Nat) : digit n ∈ alphabet := by
  rw [digit, List.getD_eq_getElem?_getD]
  cases h : alphabet[n]? with
  | none => decide
  | some c => exact List.mem_of_getElem? h

theorem mem_alphabet_of_mem_encode {bytes : Bytes} {c : Char} (h : c ∈ encode bytes) :
    c ∈ alphabet := by
  fun_induction encode bytes with
  | case1 a b d rest n ih =>
    simp only [List.mem_cons] at h
    rcases h with rfl | rfl | rfl | rfl | h
    · exact digit_mem _
    · exact digit_mem _
    · exact digit_mem _
    · exact digit_mem _
    · exact ih h
  | case2 a b n =>
    simp only [List.mem_cons, List.not_mem_nil, or_false] at h
    rcases h with rfl | rfl | rfl <;> exact digit_mem _
  | case3 a =>
    simp only [List.mem_cons, List.not_mem_nil, or_false] at h
    rcases h with rfl | rfl <;> exact digit_mem _
  | case4 => cases h

end CiRunner.Base64
