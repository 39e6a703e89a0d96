import CiRunner.Utf8

/-! Strings as they are written in JSON. The writer takes bytes, and writes the
replacement character for those that are no part of a character; it also escapes
what a browser could take for markup. Reading gives the text back. -/

namespace CiRunner.Json

open Utf8

def hexDigit (n : Nat) : Char := Char.ofNat (if n < 10 then 48 + n else 87 + n)

def hexValue? (c : Char) : Option Nat :=
  if '0' ≤ c ∧ c ≤ '9' then some (c.toNat - 48)
  else if 'a' ≤ c ∧ c ≤ 'f' then some (c.toNat - 87)
  else if 'A' ≤ c ∧ c ≤ 'F' then some (c.toNat - 55)
  else none

/-! ### Writing -/

def unicodeEscape (n : Nat) : List Char :=
  ['\\', 'u', hexDigit (n / 4096 % 16), hexDigit (n / 256 % 16), hexDigit (n / 16 % 16),
    hexDigit (n % 16)]

def shortEscape? (c : Char) : Option Char :=
  if c = '\\' ∨ c = '"' then some c
  else if c = '\n' then some 'n'
  else if c = '\r' then some 'r'
  else if c = '\t' then some 't'
  else if c.toNat = 8 then some 'b'
  else if c.toNat = 12 then some 'f'
  else none

/-- What is written by its code: controls, and what a browser or a script could misread. -/
def byCode (c : Char) : Bool :=
  c.toNat < 0x20 || c == '<' || c == '>' || c == '&' || c.toNat == 0x2028 || c.toNat == 0x2029

def writeRune : Option Char → List Char
  | none => unicodeEscape 0xFFFD
  | some c =>
    match shortEscape? c with
    | some e => ['\\', e]
    | none => if byCode c then unicodeEscape c.toNat else [c]

def marshal (bytes : Bytes) : List Char := '"' :: (runes bytes).flatMap writeRune ++ ['"']

/-! ### Reading -/

def escaped? (e : Char) : Option Char :=
  if e = '\\' ∨ e = '"' ∨ e = '/' then some e
  else if e = 'n' then some '\n'
  else if e = 'r' then some '\r'
  else if e = 't' then some '\t'
  else if e = 'b' then some (Char.ofNat 8)
  else if e = 'f' then some (Char.ofNat 12)
  else none

/-- Four digits. Halves of a pair of surrogates, which the writer never writes, are not read. -/
def readCode : List Char → Option (Char × List Char)
  | a :: b :: c :: d :: rest =>
    match hexValue? a, hexValue? b, hexValue? c, hexValue? d with
    | some a, some b, some c, some d =>
      let n := ((a * 16 + b) * 16 + c) * 16 + d
      if n.isValidChar then some (Char.ofNat n, rest) else none
    | _, _, _, _ => none
  | _ => none

/-- The first character that is written, and the rest. -/
def readRune : List Char → Option (Char × List Char)
  | [] => none
  | c :: rest =>
    if c = '\\' then
      match rest with
      | [] => none
      | e :: rest => if e = 'u' then readCode rest else (escaped? e).map (·, rest)
    else if c = '"' ∨ c.toNat < 0x20 then none
    else some (c, rest)

/-- The characters up to the closing quote, which has to be the last. -/
def readRunes : Nat → List Char → Option (List Char)
  | 0, _ => none
  | fuel + 1, text =>
    if text = ['"'] then some []
    else match readRune text with
      | none => none
      | some (c, rest) => (readRunes fuel rest).map (c :: ·)

def unmarshal : List Char → Option (List Char)
  | '"' :: text => readRunes text.length text
  | _ => none

/-! ### Reading what was written -/

theorem hexValue?_hexDigit {k : Nat} (h : k < 16) : hexValue? (hexDigit k) = some k := by
  have hall : ∀ i : Fin 16, hexValue? (hexDigit i.val) = some i.val := by decide
  exact hall ⟨k, h⟩

theorem readCode_unicodeEscape (c : Char) (h : c.toNat < 65536) (rest : List Char) :
    readCode ((unicodeEscape c.toNat).drop 2 ++ rest) = some (c, rest) := by
  have hdigits : ((c.toNat / 4096 % 16 * 16 + c.toNat / 256 % 16) * 16 + c.toNat / 16 % 16) * 16 +
      c.toNat % 16 = c.toNat := by omega
  have hvalid : c.toNat.isValidChar := c.valid
  have hdigit : ∀ k : Nat, hexValue? (hexDigit (k % 16)) = some (k % 16) :=
    fun k => hexValue?_hexDigit (Nat.mod_lt k (by decide))
  simp only [unicodeEscape, List.drop_succ_cons, List.drop_zero, List.cons_append, List.nil_append,
    readCode, hdigit, hdigits, hvalid, if_true, Char.ofNat_toNat]

theorem readRune_unicodeEscape (c : Char) (h : c.toNat < 65536) (rest : List Char) :
    readRune (unicodeEscape c.toNat ++ rest) = some (c, rest) :=
  readCode_unicodeEscape c h rest

theorem escaped?_of_shortEscape? {c e : Char} (h : shortEscape? c = some e) :
    e ≠ 'u' ∧ escaped? e = some c := by
  unfold shortEscape? at h
  split at h
  · rename_i hc
    cases h
    obtain rfl | rfl := hc <;> decide
  · have hnat : ∀ n : Nat, c.toNat = n → c = Char.ofNat n := fun n hn => by
      rw [← hn, Char.ofNat_toNat]
    repeat' split at h
    all_goals cases h
    · rename_i hc; subst hc; decide
    · rename_i hc; subst hc; decide
    · rename_i hc; subst hc; decide
    · rename_i hc; rw [hnat 8 hc]; decide
    · rename_i hc; rw [hnat 12 hc]; decide

theorem byCode_lt {c : Char} (h : byCode c = true) : c.toNat < 65536 := by
  simp only [byCode, Bool.or_eq_true, decide_eq_true_eq, beq_iff_eq] at h
  obtain ((((h | rfl) | rfl) | rfl) | h) | h := h
  · omega
  · decide
  · decide
  · decide
  · omega
  · omega

theorem readRune_writeRune (r : Option Char) (rest : List Char) :
    readRune (writeRune r ++ rest) = some (r.getD replacement, rest) := by
  cases r with
  | none => exact readRune_unicodeEscape replacement (by decide) rest
  | some c =>
    simp only [writeRune]
    split
    · rename_i e he
      obtain ⟨hu, hread⟩ := escaped?_of_shortEscape? he
      simp [readRune, hu, hread]
    · rename_i hshort
      split
      · rename_i hcode
        exact readRune_unicodeEscape c (byCode_lt hcode) rest
      · rename_i hcode
        have hbackslash : c ≠ '\\' := by
          rintro rfl
          exact absurd hshort (by decide)
        have hquote : c ≠ '"' := by
          rintro rfl
          exact absurd hshort (by decide)
        have hcontrol : ¬ c.toNat < 0x20 := by
          intro h
          simp [byCode, h] at hcode
        simp [readRune, hbackslash, hquote, hcontrol]

theorem writeRune_ne_quote (r : Option Char) (rest : List Char) :
    writeRune r ++ rest ≠ ['"'] := by
  intro h
  have hread := readRune_writeRune r rest
  rw [h] at hread
  cases hread

theorem length_writeRune_pos (r : Option Char) : 0 < (writeRune r).length := by
  rw [List.length_pos_iff]
  intro h
  have hread := readRune_writeRune r []
  rw [h] at hread
  cases hread

theorem readRunes_write (rs : List (Option Char)) (fuel : Nat)
    (h : (rs.flatMap writeRune ++ ['"']).length ≤ fuel) :
    readRunes fuel (rs.flatMap writeRune ++ ['"']) = some (rs.map (·.getD replacement)) := by
  induction rs generalizing fuel with
  | nil =>
    cases fuel with
    | zero => simp at h
    | succ fuel => rfl
  | cons r rs ih =>
    have hpos := length_writeRune_pos r
    rw [List.flatMap_cons, List.append_assoc] at h ⊢
    rw [List.length_append] at h
    cases fuel with
    | zero => omega
    | succ fuel =>
      simp only [readRunes, if_neg (writeRune_ne_quote r _), readRune_writeRune]
      rw [ih fuel (by omega)]
      rfl

/-- Reading gives back the text of the bytes that were written. -/
theorem unmarshal_marshal (bytes : Bytes) : unmarshal (marshal bytes) = some (decode bytes) :=
  readRunes_write (runes bytes) _ (Nat.le_refl _)

/-! ### Strings inside a text -/

def quote (s : String) : List Char := marshal (encode s.toList)

/-- The characters up to the closing quote, and what comes behind it. -/
def readRest : Nat → List Char → Option (List Char × List Char)
  | 0, _ => none
  | _ + 1, '"' :: rest => some ([], rest)
  | fuel + 1, text =>
    match readRune text with
    | none => none
    | some (c, rest) => (readRest fuel rest).map fun (cs, rest) => (c :: cs, rest)

def readString : List Char → Option (String × List Char)
  | '"' :: text => (readRest text.length text).map fun (cs, rest) => (String.ofList cs, rest)
  | _ => none

theorem head_writeRune_ne (r : Option Char) (rest rest' : List Char) :
    writeRune r ++ rest ≠ '"' :: rest' := by
  intro h
  have hread := readRune_writeRune r rest
  rw [h] at hread
  cases hread

theorem readRest_write (rs : List (Option Char)) (rest : List Char) (fuel : Nat)
    (h : (rs.flatMap writeRune).length < fuel) :
    readRest fuel (rs.flatMap writeRune ++ '"' :: rest) =
      some (rs.map (·.getD replacement), rest) := by
  induction rs generalizing fuel with
  | nil =>
    cases fuel with
    | zero => omega
    | succ fuel => rfl
  | cons r rs ih =>
    have hpos := length_writeRune_pos r
    rw [List.flatMap_cons, List.length_append] at h
    rw [List.flatMap_cons, List.append_assoc]
    cases fuel with
    | zero => omega
    | succ fuel =>
      rw [readRest, readRune_writeRune]
      · dsimp only
        rw [ih fuel (by omega)]
        rfl
      · exact fun rest' => head_writeRune_ne r _ rest'

theorem readString_quote (s : String) (rest : List Char) :
    readString (quote s ++ rest) = some (s, rest) := by
  have hread := readRest_write (runes (encode s.toList)) rest
    (((runes (encode s.toList)).flatMap writeRune ++ '"' :: rest).length) (by simp)
  have htext : (runes (encode s.toList)).map (·.getD replacement) = s.toList := decode_encode _
  rw [quote, marshal, List.cons_append, List.cons_append, List.append_assoc,
    List.singleton_append, readString, hread, htext, Option.map_some]
  exact congrArg (fun text => some (text, rest)) String.ofList_toList

end CiRunner.Json
