import CiRunner.Output.Limiter

/-! The version of the runner, read off its output. The runner writes the version on
a control line, before the line that says that a job has started; the capture sees
the output in chunks of any size, keeps the line that has begun, and gives up on a
line that is too long to be a control line. -/

namespace CiRunner.Output

/-! ### Text in bytes -/

def ascii (s : String) : Bytes := s.toList.map fun c => UInt8.ofNat c.toNat

def lf : UInt8 := 10

def cr : UInt8 := 13

/-- The encodings of the characters that trimming removes. -/
def spaces : List Bytes :=
  [[9], [10], [11], [12], [13], [32], [0xC2, 0x85], [0xC2, 0xA0], [0xE1, 0x9A, 0x80],
    [0xE2, 0x80, 0x80], [0xE2, 0x80, 0x81], [0xE2, 0x80, 0x82], [0xE2, 0x80, 0x83],
    [0xE2, 0x80, 0x84], [0xE2, 0x80, 0x85], [0xE2, 0x80, 0x86], [0xE2, 0x80, 0x87],
    [0xE2, 0x80, 0x88], [0xE2, 0x80, 0x89], [0xE2, 0x80, 0x8A], [0xE2, 0x80, 0xA8],
    [0xE2, 0x80, 0xA9], [0xE2, 0x80, 0xAF], [0xE2, 0x81, 0x9F], [0xE3, 0x80, 0x80]]

/-- Remove the given pieces from the front, as often as one is found. -/
def trimFront (pieces : List Bytes) : Nat → Bytes → Bytes
  | 0, bytes => bytes
  | fuel + 1, bytes =>
    match pieces.find? (·.isPrefixOf bytes) with
    | some p => trimFront pieces fuel (bytes.drop p.length)
    | none => bytes

def trimSpace (bytes : Bytes) : Bytes :=
  let front := trimFront spaces bytes.length bytes
  (trimFront (spaces.map List.reverse) front.length front.reverse).reverse

/-- Without a carriage return at the end. -/
def trimReturn (line : Bytes) : Bytes := if line.getLast? = some cr then line.dropLast else line

/-! ### Versions -/

def isDigit (b : UInt8) : Bool := 48 ≤ b && b ≤ 57

def isLetter (b : UInt8) : Bool := 65 ≤ b && b ≤ 90 || 97 ≤ b && b ≤ 122

def dot : UInt8 := 46

def dash : UInt8 := 45

/-- The bytes after a number, if there is one. -/
def afterNumber (bytes : Bytes) : Option Bytes :=
  if bytes.takeWhile isDigit = [] then none else some (bytes.dropWhile isDigit)

def afterDot : Bytes → Option Bytes
  | b :: bytes => if b = dot then some bytes else none
  | [] => none

/-- The end of a version: nothing, or a dot or a dash and more. -/
def isSuffix : Bytes → Bool
  | [] => true
  | b :: more => (b == dot || b == dash) && !more.isEmpty &&
    more.all fun c => isDigit c || isLetter c || c == dot || c == dash

/-- Three numbers with dots between them, and a suffix. -/
def effectiveRunnerVersionPattern (value : Bytes) : Bool :=
  match afterNumber value >>= afterDot >>= afterNumber >>= afterDot >>= afterNumber with
  | some rest => isSuffix rest
  | none => false

def effectiveRunnerVersionLimit : Nat := 256

/-- The version in the content of a control line; it is empty if there is none. -/
def parseEffectiveRunnerVersion (content : Bytes) : Bytes :=
  if effectiveRunnerVersionLimit < content.length then []
  else
    let value := trimSpace content
    if value = [] ∨ effectiveRunnerVersionLimit < value.length ∨ value.any (fun b => b = cr ∨ b = lf)
    then []
    else if effectiveRunnerVersionPattern value then value else []

/-! ### The capture -/

def effectiveRunnerVersionMarker : Bytes := ascii "RUNNERD_EFFECTIVE_RUNNER_VERSION="

def runnerJobStartedMarker : Bytes := ascii "RUNNERD_JOB_STARTED"

def maxControlLineLength : Nat := effectiveRunnerVersionMarker.length + effectiveRunnerVersionLimit

structure EffectiveRunnerVersionCapture where
  line : Bytes := []
  dropping : Bool := false
  closed : Bool := false
  version : Bytes := []
  deriving DecidableEq, Repr

namespace EffectiveRunnerVersionCapture

/-- The content of a line with the version marker. -/
def cutMarker (line : Bytes) : Option Bytes :=
  if effectiveRunnerVersionMarker.isPrefixOf line then
    some (line.drop effectiveRunnerVersionMarker.length)
  else none

def observeLine (c : EffectiveRunnerVersionCapture) (line : Bytes) :
    EffectiveRunnerVersionCapture :=
  if line = runnerJobStartedMarker then { c with closed := true }
  else if c.version ≠ [] then c
  else match cutMarker line with
    | none => c
    | some value => { c with version := parseEffectiveRunnerVersion value }

def endLine (c : EffectiveRunnerVersionCapture) : EffectiveRunnerVersionCapture :=
  let c := if c.dropping then c else c.observeLine (trimReturn c.line)
  { c with line := [], dropping := false }

def addByte (c : EffectiveRunnerVersionCapture) (b : UInt8) : EffectiveRunnerVersionCapture :=
  if c.dropping then c
  else if maxControlLineLength ≤ c.line.length then { c with line := [], dropping := true }
  else { c with line := c.line ++ [b] }

/-- The loop over the bytes of a chunk, which ends when the capture is closed. -/
def observeBytes (c : EffectiveRunnerVersionCapture) : Bytes → EffectiveRunnerVersionCapture
  | [] => c
  | b :: data =>
    if b = lf then
      if c.endLine.closed then c.endLine else c.endLine.observeBytes data
    else (c.addByte b).observeBytes data

def observe (c : EffectiveRunnerVersionCapture) (data : Bytes) : EffectiveRunnerVersionCapture :=
  if c.closed then c else c.observeBytes data

/-- The capture after all chunks of the output. -/
def run (c : EffectiveRunnerVersionCapture) (chunks : List Bytes) : EffectiveRunnerVersionCapture :=
  chunks.foldl observe c

end EffectiveRunnerVersionCapture

/-! ### What is to be captured -/

def endedLines (output : Bytes) : List Bytes := (output.splitOnP (· = lf)).dropLast

/-- The lines that can be control lines, without their line ends. -/
def controlLines (output : Bytes) : List Bytes :=
  ((endedLines output).filter fun line => line.length ≤ maxControlLineLength).map trimReturn

/-- The version on a line, if it is well formed. -/
def versionOf (line : Bytes) : Option Bytes :=
  (EffectiveRunnerVersionCapture.cutMarker line).bind fun value =>
    if parseEffectiveRunnerVersion value = [] then none
    else some (parseEffectiveRunnerVersion value)

/-- The first version on the control lines before the start of a job. -/
def effectiveRunnerVersion (output : Bytes) : Bytes :=
  (((controlLines output).takeWhile (· ≠ runnerJobStartedMarker)).findSome? versionOf).getD []

/-! ### Lines -/

theorem ne_lf_of_notMem {line : Bytes} (h : lf ∉ line) :
    ∀ b ∈ line, decide (b = lf) = false := by
  intro b hb
  refine decide_eq_false fun he => h ?_
  rw [← he]
  exact hb

theorem endedLines_of_notMem {line : Bytes} (h : lf ∉ line) : endedLines line = [] := by
  rw [endedLines, List.splitOnP_eq_singleton (ne_lf_of_notMem h)]
  rfl

theorem endedLines_line {line : Bytes} (h : lf ∉ line) (output : Bytes) :
    endedLines (line ++ lf :: output) = line :: endedLines output := by
  rw [endedLines, List.splitOnP_append_cons_of_forall_mem (ne_lf_of_notMem h) lf (by decide),
    List.dropLast_cons_of_ne_nil (List.splitOnP_ne_nil _ _)]
  rfl

theorem endedLines_append_lf (before after : Bytes) :
    endedLines (before ++ lf :: after) = endedLines (before ++ [lf]) ++ endedLines after := by
  induction hn : before.length using Nat.strongRecOn generalizing before with
  | ind n ih =>
    by_cases hlf : lf ∈ before
    · obtain ⟨line, rest, rfl, hline⟩ := List.eq_append_cons_of_mem hlf
      have hrest := ih rest.length (by simp [← hn]; omega) rest rfl
      rw [List.append_assoc, List.cons_append, endedLines_line hline, hrest, List.append_assoc,
        List.cons_append, endedLines_line hline, List.cons_append]
    · rw [endedLines_line hlf, endedLines_line hlf]
      rfl

theorem controlLines_of_notMem {line : Bytes} (h : lf ∉ line) : controlLines line = [] := by
  rw [controlLines, endedLines_of_notMem h]
  rfl

theorem controlLines_line {line : Bytes} (h : lf ∉ line) (output : Bytes) :
    controlLines (line ++ lf :: output) =
      if line.length ≤ maxControlLineLength then trimReturn line :: controlLines output
      else controlLines output := by
  rw [controlLines, endedLines_line h, List.filter_cons]
  simp only [decide_eq_true_eq]
  split <;> rfl

/-! ### Chunks -/

namespace EffectiveRunnerVersionCapture

variable (c : EffectiveRunnerVersionCapture)

theorem closed_addByte (b : UInt8) : (c.addByte b).closed = c.closed := by
  unfold addByte
  split
  · rfl
  · split <;> rfl

theorem observe_observeBytes (h : c.closed = false) (data data' : Bytes) :
    (c.observeBytes data).observe data' = c.observeBytes (data ++ data') := by
  induction data generalizing c with
  | nil =>
    rw [observeBytes, observe, h]
    rfl
  | cons b data ih =>
    simp only [List.cons_append, observeBytes]
    split
    · split
      · rename_i hclosed
        rw [observe, if_pos hclosed]
      · rename_i hclosed
        exact ih c.endLine (Bool.eq_false_iff.mpr hclosed)
    · exact ih (c.addByte b) ((c.closed_addByte b).trans h)

theorem run_eq (h : c.closed = false) (chunks : List Bytes) :
    c.run chunks = c.observeBytes chunks.flatten := by
  induction chunks using List.reverseRecOn with
  | nil => rfl
  | append_singleton chunks data ih =>
    have hrun : c.run (chunks ++ [data]) = (c.run chunks).observe data := List.foldl_append
    rw [hrun, ih, c.observe_observeBytes h, List.flatten_append, List.flatten_singleton]

/-! ### The first version -/

/-- What is captured of further control lines. -/
def capturedFrom (version : Bytes) (lines : List Bytes) : Bytes :=
  if version = [] then
    ((lines.takeWhile (· ≠ runnerJobStartedMarker)).findSome? versionOf).getD []
  else version

theorem capturedFrom_marker (version : Bytes) (lines : List Bytes) :
    capturedFrom version (runnerJobStartedMarker :: lines) = version := by
  unfold capturedFrom
  split
  · rename_i h
    simp [h]
  · rfl

theorem capturedFrom_cons {line : Bytes} (hline : line ≠ runnerJobStartedMarker)
    (lines : List Bytes) :
    capturedFrom c.version (line :: lines) = capturedFrom (c.observeLine line).version lines ∧
      (c.observeLine line).closed = c.closed := by
  unfold observeLine capturedFrom
  rw [if_neg hline, List.takeWhile_cons_of_pos (by simpa using hline), List.findSome?_cons]
  by_cases hversion : c.version = []
  · simp only [hversion, if_true, ne_eq, not_true_eq_false, if_false]
    rcases hcut : cutMarker line with _ | value
    · simp [versionOf, hcut, hversion]
    · by_cases hvalue : parseEffectiveRunnerVersion value = []
      · simp [versionOf, hcut, hvalue]
      · simp [versionOf, hcut, hvalue]
  · simp [hversion]

/-- The capture is in the middle of a line that begins with `begun`, which may be too long. -/
structure Amid (begun : Bytes) : Prop where
  notMem : lf ∉ begun
  opened : c.closed = false
  line : c.dropping = false → c.line = begun ∧ begun.length ≤ maxControlLineLength
  dropped : c.dropping = true → maxControlLineLength < begun.length

variable {c}

theorem Amid.addByte {begun : Bytes} (h : c.Amid begun) {b : UInt8} (hb : b ≠ lf) :
    (c.addByte b).Amid (begun ++ [b]) where
  notMem := by simp [h.notMem, Ne.symm hb]
  opened := (c.closed_addByte b).trans h.opened
  line hd := by
    unfold EffectiveRunnerVersionCapture.addByte at hd ⊢
    split at hd
    · rename_i hdropping
      rw [hdropping] at hd
      cases hd
    · split at hd
      · cases hd
      · rename_i hdropping hroom
        obtain ⟨hline, -⟩ := h.line hd
        rw [if_neg hdropping, if_neg hroom, List.length_append, List.length_singleton, ← hline]
        exact ⟨rfl, by omega⟩
  dropped hd := by
    unfold EffectiveRunnerVersionCapture.addByte at hd
    rw [List.length_append, List.length_singleton]
    split at hd
    · rename_i hdropping
      have := h.dropped hdropping
      omega
    · rename_i hdropping
      have hline := h.line (Bool.eq_false_iff.mpr hdropping)
      split at hd
      · rename_i hfull
        rw [hline.1] at hfull
        omega
      · exact absurd hd hdropping

theorem amid_nil (h : c.closed = false) (hd : c.dropping = false) (hl : c.line = []) :
    c.Amid [] :=
  ⟨nofun, h, fun _ => ⟨hl, Nat.zero_le _⟩, fun h' => by rw [hd] at h'; cases h'⟩

theorem Amid.endLine {begun : Bytes} (h : c.Amid begun) (output : Bytes) :
    (c.endLine.closed = true →
      c.endLine.version = capturedFrom c.version (controlLines (begun ++ lf :: output))) ∧
    (c.endLine.closed = false → c.endLine.Amid [] ∧
      capturedFrom c.endLine.version (controlLines output) =
        capturedFrom c.version (controlLines (begun ++ lf :: output))) := by
  rw [controlLines_line h.notMem]
  rcases hd : c.dropping with _ | _
  · obtain ⟨hline, hlength⟩ := h.line hd
    have hend : c.endLine =
        { c.observeLine (trimReturn begun) with line := [], dropping := false } := by
      rw [EffectiveRunnerVersionCapture.endLine, hd, hline]
      rfl
    rw [hend, if_pos hlength]
    by_cases hmarker : trimReturn begun = runnerJobStartedMarker
    · rw [hmarker, capturedFrom_marker, observeLine, if_pos rfl]
      exact ⟨fun _ => rfl, nofun⟩
    · obtain ⟨hcaptured, hclosed⟩ := c.capturedFrom_cons hmarker (controlLines output)
      rw [hcaptured]
      dsimp only
      rw [hclosed, h.opened]
      exact ⟨nofun, fun _ => ⟨amid_nil rfl rfl rfl, rfl⟩⟩
  · have hend : c.endLine = { c with line := [], dropping := false } := by
      rw [EffectiveRunnerVersionCapture.endLine, hd]
      rfl
    have hlong : ¬ begun.length ≤ maxControlLineLength := Nat.not_le.mpr (h.dropped hd)
    rw [hend, if_neg hlong]
    dsimp only
    rw [h.opened]
    exact ⟨nofun, fun _ => ⟨amid_nil rfl rfl rfl, rfl⟩⟩

theorem Amid.observeBytes {begun : Bytes} (h : c.Amid begun) (data : Bytes) :
    (c.observeBytes data).version = capturedFrom c.version (controlLines (begun ++ data)) := by
  induction data generalizing c begun with
  | nil =>
    rw [List.append_nil, controlLines_of_notMem h.notMem]
    unfold capturedFrom
    split
    · assumption
    · rfl
  | cons b data ih =>
    simp only [EffectiveRunnerVersionCapture.observeBytes]
    split
    · rename_i hb
      subst hb
      obtain ⟨hclosed, hopened⟩ := h.endLine data
      split
      · rename_i hc
        exact hclosed hc
      · rename_i hc
        obtain ⟨hamid, hcaptured⟩ := hopened (Bool.eq_false_iff.mpr hc)
        rw [ih hamid, List.nil_append, hcaptured]
    · rename_i hb
      have hversion : (c.addByte b).version = c.version := by
        unfold EffectiveRunnerVersionCapture.addByte
        split
        · rfl
        · split <;> rfl
      rw [ih (h.addByte hb), List.append_assoc, hversion]
      rfl

theorem version_run (chunks : List Bytes) :
    (run {} chunks).version = effectiveRunnerVersion chunks.flatten := by
  have h := (amid_nil (c := {}) rfl rfl rfl).observeBytes chunks.flatten
  rw [run_eq {} rfl, h]
  rfl

end EffectiveRunnerVersionCapture

/-! ### The start of a job -/

theorem length_le_trimReturn (line : Bytes) : line.length ≤ (trimReturn line).length + 1 := by
  unfold trimReturn
  split
  · rw [List.length_dropLast]
    omega
  · exact Nat.le_succ _

/-- The output before a line, which is empty or ends with the end of a line. -/
def EndsLine (before : Bytes) : Prop := before = [] ∨ before.getLast? = some lf

theorem controlLines_append {before : Bytes} (h : EndsLine before) (after : Bytes) :
    controlLines (before ++ after) = controlLines before ++ controlLines after := by
  have hlines : endedLines (before ++ after) = endedLines before ++ endedLines after := by
    obtain rfl | hlast := h
    · rfl
    · obtain ⟨begun, rfl⟩ := List.getLast?_eq_some_iff.mp hlast
      rw [List.append_assoc]
      exact endedLines_append_lf begun after
  rw [controlLines, hlines, List.filter_append, List.map_append]
  rfl

/-- What comes after the start of a job does not count. -/
theorem effectiveRunnerVersion_started {before line : Bytes} (hbefore : EndsLine before)
    (hline : lf ∉ line) (hmarker : trimReturn line = runnerJobStartedMarker) (after : Bytes) :
    effectiveRunnerVersion (before ++ line ++ lf :: after) = effectiveRunnerVersion before := by
  have hlength : line.length ≤ maxControlLineLength := by
    have h := length_le_trimReturn line
    rw [hmarker] at h
    exact h.trans (by decide)
  rw [effectiveRunnerVersion, List.append_assoc, controlLines_append hbefore,
    controlLines_line hline, if_pos hlength, hmarker, List.takeWhile_append,
    List.takeWhile_cons_of_neg (by simp)]
  split
  · rename_i hall
    rw [List.append_nil, effectiveRunnerVersion,
      (List.takeWhile_prefix _).eq_of_length hall]
  · rfl

/-- In whatever chunks an output is observed, the version that is captured is the one on
the first control line with a version before the line that says that a job has started;
what comes after that line has no influence. -/
theorem effective_version_captured (chunks : List Bytes) :
    (EffectiveRunnerVersionCapture.run {} chunks).version =
      effectiveRunnerVersion chunks.flatten ∧
    ∀ before line after : Bytes, EndsLine before → lf ∉ line →
      trimReturn line = runnerJobStartedMarker →
      chunks.flatten = before ++ line ++ lf :: after →
      (EffectiveRunnerVersionCapture.run {} chunks).version = effectiveRunnerVersion before := by
  refine ⟨EffectiveRunnerVersionCapture.version_run chunks, ?_⟩
  intro before line after hbefore hline hmarker hchunks
  rw [EffectiveRunnerVersionCapture.version_run, hchunks,
    effectiveRunnerVersion_started hbefore hline hmarker]

/-- Three chunks that cut the marker, the version and the line end, with a version that
comes too late. -/
def lateVersion : List Bytes :=
  [ascii "hello\nRUNNERD_EFFECTIVE_RUN", ascii "NER_VERSION=2.32", ascii "8.0\r",
    ascii "\nRUNNERD_JOB_STARTED\r\nRUNNERD_EFFECTIVE_RUNNER_VERSION=1.0.0\n"]

theorem effective_version_captured_late :
    (EffectiveRunnerVersionCapture.run {} lateVersion).version = ascii "2.328.0" := by
  have h := (effective_version_captured lateVersion).2
    (ascii "hello\nRUNNERD_EFFECTIVE_RUNNER_VERSION=2.328.0\r\n") (ascii "RUNNERD_JOB_STARTED\r")
    (ascii "RUNNERD_EFFECTIVE_RUNNER_VERSION=1.0.0\n") (.inr (by decide +kernel))
    (by decide +kernel) (by decide +kernel) (by decide +kernel)
  rw [h]
  decide +kernel

end CiRunner.Output
