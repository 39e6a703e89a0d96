import CiRunner.Base64
import CiRunner.Json
import CiRunner.State.Record
import CiRunner.Text.Numbers

/-! The cursors of the list of runner requests, as texts: an object with the time and the id of the
last request on a page and a hash of the filter, in JSON and base64. A cursor is read
again if it is not too long and is used with the filter that it was made for. -/

namespace CiRunner.Admin

open Text
open CiRunner.State (Time)

structure AdminRunnerRequestCursor where
  version : Nat
  queuedAt : String
  id : String
  filterKey : String
  deriving DecidableEq, Repr

def adminRunnerRequestCursorVersion : Nat := 1

def AdminRunnerRequestCursor.json (c : AdminRunnerRequestCursor) : List Char :=
  "\x7b\"v\":".toList ++ ((toString c.version).toList ++ (",\"queued_at\":".toList ++
    (Json.quote c.queuedAt ++ (",\"id\":".toList ++ (Json.quote c.id ++
      (",\"filter\":".toList ++ (Json.quote c.filterKey ++ "\x7d".toList)))))))

def encodeAdminRunnerRequestCursor (c : AdminRunnerRequestCursor) : String :=
  String.ofList (Base64.encode (Utf8.encode c.json))

/-- The texts of times, the hash of a filter, and the readers of base64 and of JSON. They read what
is written, and the hash has no collisions. -/
structure CursorReader where
  format : Time → String
  parse : String → Option Time
  hash : String → String
  decodeString : String → Option Utf8.Bytes
  unmarshal : Utf8.Bytes → Option AdminRunnerRequestCursor
  parse_format : ∀ t, parse (format t) = some t
  hash_injective : Function.Injective hash
  decodeString_encode : ∀ bytes, decodeString (String.ofList (Base64.encode bytes)) = some bytes
  unmarshal_json : ∀ c : AdminRunnerRequestCursor, unmarshal (Utf8.encode c.json) = some c

variable (reader : CursorReader)

def adminRunnerRequestFilterKey (status repository profile : String) : String :=
  reader.hash (status ++ "\x00" ++ repository ++ "\x00" ++ profile)

def tooLong : String := "runner request cursor is too long"

def invalidCursor : String := "invalid Runner request cursor"

def decodeAdminRunnerRequestCursor (raw filterKey : String) : Except String (Time × String) :=
  if 2048 < raw.utf8ByteSize then .error tooLong
  else
    match reader.decodeString raw with
    | none => .error invalidCursor
    | some payload =>
      match reader.unmarshal payload with
      | none => .error invalidCursor
      | some encoded =>
        if encoded.version ≠ adminRunnerRequestCursorVersion ∨ encoded.filterKey ≠ filterKey ∨
            encoded.id = "" then .error invalidCursor
        else
          match reader.parse encoded.queuedAt with
          | none => .error invalidCursor
          | some queuedAt =>
            if queuedAt = 0 then .error invalidCursor else .ok (queuedAt, encoded.id)

/-! ### Filters -/

/-- Filters with different parts have different keys, as long as no part has the separator. -/
theorem filterKey_injective {status repository profile status' repository' profile' : String}
    (h : adminRunnerRequestFilterKey reader status repository profile =
      adminRunnerRequestFilterKey reader status' repository' profile')
    (hplain : ∀ s ∈ [status, repository, profile], '\x00' ∉ s.toList)
    (hplain' : ∀ s ∈ [status', repository', profile'], '\x00' ∉ s.toList) :
    status = status' ∧ repository = repository' ∧ profile = profile' := by
  have hjoin : ∀ a b c : String, (a ++ "\x00" ++ b ++ "\x00" ++ c).toList =
      ['\x00'].intercalate ([a, b, c].map String.toList) := by
    intro a b c
    simp [String.toList_append, List.intercalate_cons_cons]
  have hsplit : ∀ parts : List String, parts ≠ [] → (∀ s ∈ parts, '\x00' ∉ s.toList) →
      (['\x00'].intercalate (parts.map String.toList)).splitOn '\x00' =
        parts.map String.toList := by
    intro parts hne hall
    refine List.splitOn_intercalate _ ?_ (by simpa using hne)
    intro l hl
    obtain ⟨s, hs, rfl⟩ := List.mem_map.mp hl
    exact hall s hs
  have htext := congrArg (fun s => s.toList.splitOn '\x00') (reader.hash_injective h)
  simp only [hjoin, hsplit _ (List.cons_ne_nil _ _) hplain,
    hsplit _ (List.cons_ne_nil _ _) hplain'] at htext
  simpa [String.toList_inj] using htext

/-! ### Cursors that have been written -/

section Written

variable {reader} {queuedAt : Time} {id filterKey : String}

def cursorOf (reader : CursorReader) (filterKey : String) (queuedAt : Time) (id : String) :
    AdminRunnerRequestCursor :=
  ⟨adminRunnerRequestCursorVersion, reader.format queuedAt, id, filterKey⟩

theorem decode_cursorOf (hid : id ≠ "") (htime : queuedAt ≠ 0)
    (hfits : (encodeAdminRunnerRequestCursor
      (cursorOf reader filterKey queuedAt id)).utf8ByteSize ≤ 2048) (filterKey' : String) :
    decodeAdminRunnerRequestCursor reader
      (encodeAdminRunnerRequestCursor (cursorOf reader filterKey queuedAt id)) filterKey' =
    if filterKey = filterKey' then .ok (queuedAt, id) else .error invalidCursor := by
  rw [decodeAdminRunnerRequestCursor, if_neg (Nat.not_lt.mpr hfits),
    encodeAdminRunnerRequestCursor, reader.decodeString_encode]
  dsimp only
  rw [reader.unmarshal_json]
  dsimp only
  by_cases hkey : filterKey = filterKey'
  · rw [if_neg (by simp [cursorOf, hkey, hid]), if_pos hkey]
    simp only [cursorOf, reader.parse_format, if_neg htime]
  · rw [if_pos (.inr (.inl hkey)), if_neg hkey]

end Written

/-! ### Lengths -/

theorem length_le_utf8ByteSize (l : List Char) : l.length ≤ (String.ofList l).utf8ByteSize := by
  induction l with
  | nil => exact Nat.zero_le _
  | cons c l ih =>
    have hpos := c.utf8Size_pos
    rw [String.ofList_cons, String.utf8ByteSize_append, String.utf8ByteSize_singleton,
      List.length_cons]
    omega

theorem length_le_encode (l : List Char) : l.length ≤ (Utf8.encode l).length := by
  induction l with
  | nil => exact Nat.zero_le _
  | cons c l ih =>
    have hpos := c.utf8Size_pos
    rw [Utf8.encode_cons, List.length_append, String.length_utf8EncodeChar, List.length_cons]
    omega

theorem length_le_quote (s : String) : s.toList.length ≤ (Json.quote s).length := by
  have hall : ∀ rs : List (Option Char), rs.length ≤ (rs.flatMap Json.writeRune).length := by
    intro rs
    induction rs with
    | nil => exact Nat.zero_le _
    | cons r rs ih =>
      have hpos := Json.length_writeRune_pos r
      rw [List.flatMap_cons, List.length_append, List.length_cons]
      omega
  have htext : (Utf8.runes (Utf8.encode s.toList)).length = s.toList.length := by
    rw [← List.length_map (f := (·.getD Utf8.replacement))]
    exact congrArg List.length (Utf8.decode_encode s.toList)
  have hquoted := hall (Utf8.runes (Utf8.encode s.toList))
  rw [Json.quote, Json.marshal, List.length_append, List.length_cons]
  omega

theorem length_id_le (c : AdminRunnerRequestCursor) :
    c.id.toList.length ≤ (encodeAdminRunnerRequestCursor c).utf8ByteSize := by
  have hbase := Base64.length_encode (Utf8.encode c.json)
  have hbytes := length_le_encode c.json
  have htext := length_le_utf8ByteSize (Base64.encode (Utf8.encode c.json))
  have hid := length_le_quote c.id
  have hjson : (Json.quote c.id).length ≤ c.json.length := by
    simp only [AdminRunnerRequestCursor.json, List.length_append]
    omega
  rw [encodeAdminRunnerRequestCursor]
  omega

theorem trimSpace_encode (c : AdminRunnerRequestCursor) :
    trimSpace (encodeAdminRunnerRequestCursor c) = encodeAdminRunnerRequestCursor c := by
  have hspace : ∀ d ∈ Base64.alphabet, isSpace d = false := by decide
  have hplain : ∀ d ∈ (encodeAdminRunnerRequestCursor c).toList, isSpace d = false := by
    intro d hd
    rw [encodeAdminRunnerRequestCursor, String.toList_ofList] at hd
    exact hspace d (Base64.mem_alphabet_of_mem_encode hd)
  have htrimmed : Trimmed (encodeAdminRunnerRequestCursor c).toList :=
    ⟨fun d hd => hplain d (List.mem_of_mem_head? hd), fun d hd => hplain d (List.mem_of_getLast? hd)⟩
  rw [trimSpace, htrimmed.trim_eq, String.ofList_toList]

theorem encode_ne_empty {c : AdminRunnerRequestCursor} (h : c.id ≠ "") :
    encodeAdminRunnerRequestCursor c ≠ "" := by
  intro hempty
  have hle := length_id_le c
  rw [hempty, show "".utf8ByteSize = 0 from rfl, Nat.le_zero, List.length_eq_zero_iff] at hle
  exact h (String.toList_eq_nil_iff.mp hle)

/-! ### A reader -/

/-- The rest of a text that starts as given. -/
def strip (start text : List Char) : Option (List Char) :=
  if start.isPrefixOf text then some (text.drop start.length) else none

/-- Read the object with its fields in the order in which they are written. -/
def readCursor (text : List Char) : Option AdminRunnerRequestCursor := do
  let text ← strip "\x7b\"v\":".toList text
  let digits := text.takeWhile Char.isDigit
  let text ← strip ",\"queued_at\":".toList (text.drop digits.length)
  let (queuedAt, text) ← Json.readString text
  let text ← strip ",\"id\":".toList text
  let (id, text) ← Json.readString text
  let text ← strip ",\"filter\":".toList text
  let (filterKey, text) ← Json.readString text
  if text = "\x7d".toList then some ⟨digitsValue digits, queuedAt, id, filterKey⟩ else none

theorem strip_append (start text : List Char) : strip start (start ++ text) = some text := by
  rw [strip, if_pos (List.isPrefixOf_iff_prefix.mpr (List.prefix_append ..)), List.drop_left]

theorem digits_toString (n : Nat) : (∀ c ∈ (toString n).toList, c.isDigit = true) ∧
    digitsValue (toString n).toList = n := by
  rw [Nat.toString_eq_ofList_toDigits, String.toList_ofList]
  exact ⟨fun c hc => Nat.isDigit_of_mem_toDigits (by decide) (by decide) hc,
    Nat.ofDigitChars_ten_toDigits⟩

theorem readCursor_json (c : AdminRunnerRequestCursor) : readCursor c.json = some c := by
  obtain ⟨hdigits, hvalue⟩ := digits_toString c.version
  have htake : ∀ rest : List Char,
      ((toString c.version).toList ++ ',' :: rest).takeWhile Char.isDigit =
        (toString c.version).toList := by
    intro rest
    rw [List.takeWhile_append_of_pos hdigits, List.takeWhile_cons_of_neg (by decide),
      List.append_nil]
  rw [readCursor, AdminRunnerRequestCursor.json, strip_append]
  simp only [Option.bind_eq_bind, Option.bind_some]
  rw [show ",\"queued_at\":".toList = ',' :: "\"queued_at\":".toList from rfl, List.cons_append,
    htake, List.drop_left, ← List.cons_append]
  simp only [strip_append, Option.bind_some, Json.readString_quote, hvalue]
  rfl

/-- Times as numbers, and filters as they are. -/
def plainReader : CursorReader where
  format t := toString t
  parse s := some (digitsValue s.toList)
  hash := id
  decodeString s := Base64.decode s.toList
  unmarshal bytes := readCursor (Utf8.decode bytes)
  parse_format t := congrArg some (digits_toString t).2
  hash_injective := Function.injective_id
  decodeString_encode bytes := by rw [String.toList_ofList, Base64.decode_encode]
  unmarshal_json c := by rw [Utf8.decode_encode, readCursor_json]

end CiRunner.Admin
