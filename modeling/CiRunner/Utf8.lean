import Mathlib.Data.List.Infix

/-! Text as bytes. Encoding is that of the library. Decoding does not stop at bytes
that encode no character: each of them stands for the replacement character. -/

namespace CiRunner.Utf8

abbrev Bytes := List UInt8

def encode (text : List Char) : Bytes := text.flatMap String.utf8EncodeChar

/-- The bytes are the encoding of a text. -/
def Valid (bytes : Bytes) : Prop := ∃ text, bytes = encode text

/-- The character that the bytes begin with. -/
def first? (bytes : Bytes) : Option Char := bytes.toByteArray.utf8DecodeChar? 0

/-- The characters of the bytes, at most as many as there is fuel, with `none` for each byte that
is no part of one. -/
def runesUpTo : Nat → Bytes → List (Option Char)
  | 0, _ => []
  | _ + 1, [] => []
  | fuel + 1, b :: bytes =>
    match first? (b :: bytes) with
    | some c => some c :: runesUpTo fuel ((b :: bytes).drop c.utf8Size)
    | none => none :: runesUpTo fuel bytes

def runes (bytes : Bytes) : List (Option Char) := runesUpTo bytes.length bytes

def replacement : Char := Char.ofNat 0xFFFD

def decode (bytes : Bytes) : List Char := (runes bytes).map (·.getD replacement)

/-! ### Encoding -/

@[simp] theorem encode_nil : encode [] = [] := rfl

@[simp] theorem encode_cons (c : Char) (text : List Char) :
    encode (c :: text) = String.utf8EncodeChar c ++ encode text := rfl

@[simp] theorem encode_append (text text' : List Char) :
    encode (text ++ text') = encode text ++ encode text' := List.flatMap_append

theorem first?_encode (c : Char) (bytes : Bytes) :
    first? (String.utf8EncodeChar c ++ bytes) = some c := by
  unfold first?
  rw [List.toByteArray_append]
  exact ByteArray.utf8DecodeChar?_utf8EncodeChar_append

/-! ### Decoding -/

theorem runesUpTo_eq (fuel : Nat) (bytes : Bytes) (h : bytes.length ≤ fuel) :
    runesUpTo fuel bytes = runes bytes := by
  suffices hfuel : ∀ n m : Nat, ∀ l : Bytes, l.length ≤ n → l.length ≤ m →
      runesUpTo n l = runesUpTo m l from hfuel _ _ _ h (Nat.le_refl _)
  intro n
  induction n with
  | zero =>
    intro m l hn _
    rw [List.eq_nil_of_length_eq_zero (Nat.le_zero.mp hn)]
    cases m <;> rfl
  | succ n ih =>
    intro m l hn hm
    cases l with
    | nil => cases m <;> rfl
    | cons b l =>
      obtain ⟨m, rfl⟩ := Nat.exists_eq_succ_of_ne_zero (Nat.ne_of_gt (Nat.lt_of_lt_of_le
        (Nat.succ_pos l.length) hm))
      rw [List.length_cons] at hn hm
      simp only [runesUpTo]
      split
      · rename_i c _
        have hlength : ((b :: l).drop c.utf8Size).length ≤ l.length := by
          have := c.utf8Size_pos
          rw [List.length_drop, List.length_cons]
          omega
        rw [ih m _ (by omega) (by omega)]
      · rw [ih m l (by omega) (by omega)]

theorem runes_encode_append (text : List Char) (bytes : Bytes) :
    runes (encode text ++ bytes) = text.map some ++ runes bytes := by
  induction text with
  | nil => rfl
  | cons c text ih =>
    have hfirst := first?_encode c (encode text ++ bytes)
    have hlength := String.length_utf8EncodeChar c
    have hpos := c.utf8Size_pos
    rw [encode_cons, List.append_assoc]
    generalize hl : String.utf8EncodeChar c ++ (encode text ++ bytes) = l at hfirst ⊢
    have hdrop : l.drop c.utf8Size = encode text ++ bytes := by
      rw [← hl, ← hlength, List.drop_left]
    have hl' : l.length = c.utf8Size + (encode text ++ bytes).length := by
      rw [← hl, List.length_append, hlength]
    cases l with
    | nil =>
      rw [List.length_nil] at hl'
      omega
    | cons b l =>
      rw [List.length_cons] at hl'
      simp only [runes, List.length_cons, runesUpTo, hfirst, hdrop]
      rw [runesUpTo_eq _ _ (by omega), ih]
      rfl

theorem decode_encode_append (text : List Char) (bytes : Bytes) :
    decode (encode text ++ bytes) = text ++ decode bytes := by
  simp [decode, runes_encode_append, Function.comp_def]

@[simp] theorem decode_encode (text : List Char) : decode (encode text) = text := by
  have h := decode_encode_append text []
  rw [List.append_nil] at h
  rw [h]
  exact List.append_nil text

theorem Valid.encode_decode {bytes : Bytes} (h : Valid bytes) : encode (decode bytes) = bytes := by
  obtain ⟨text, rfl⟩ := h
  rw [decode_encode]

theorem Valid.of_append {bytes bytes' : Bytes} (h : Valid bytes) (h' : Valid (bytes ++ bytes')) :
    Valid bytes' := by
  obtain ⟨text, rfl⟩ := h
  refine ⟨decode bytes', ?_⟩
  have hdecode := h'.encode_decode
  rw [decode_encode_append, encode_append] at hdecode
  exact (List.append_cancel_left hdecode).symm

theorem Valid.decode_append {bytes : Bytes} (h : Valid bytes) (bytes' : Bytes) :
    decode (bytes ++ bytes') = decode bytes ++ decode bytes' := by
  obtain ⟨text, rfl⟩ := h
  rw [decode_encode_append, decode_encode]

theorem valid_flatten {pieces : List Bytes} (h : ∀ p ∈ pieces, Valid p) :
    Valid pieces.flatten := by
  induction pieces with
  | nil => exact ⟨[], rfl⟩
  | cons p pieces ih =>
    obtain ⟨text, rfl⟩ := h p (List.mem_cons_self ..)
    obtain ⟨rest, hrest⟩ := ih fun q hq => h q (List.mem_cons_of_mem _ hq)
    exact ⟨text ++ rest, by rw [List.flatten_cons, hrest, encode_append]⟩

theorem decode_flatten {pieces : List Bytes} (h : ∀ p ∈ pieces, Valid p) :
    decode pieces.flatten = pieces.flatMap decode := by
  induction pieces with
  | nil => rfl
  | cons p pieces ih =>
    rw [List.flatten_cons, (h p (List.mem_cons_self ..)).decode_append,
      ih fun q hq => h q (List.mem_cons_of_mem _ hq), List.flatMap_cons]

example : decode [0xC3, 0xA9, 0x41, 0xC3] = ['é', 'A', replacement] := by decide +kernel

end CiRunner.Utf8
