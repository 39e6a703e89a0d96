import Mathlib.Data.List.Infix

/-! The output of a deployment's command as it is passed on. A limiter counts the
bytes and passes on at most a fixed number of them; what is written after that is
dropped, and the command is said to have exceeded its limit. -/

namespace CiRunner.Output

abbrev Bytes := List UInt8

inductive Stream where
  | stdout
  | stderr
  deriving DecidableEq, Repr

def maxCommandOutput : Nat := 64 * 1024

/-- The count never passes the limit. -/
structure OutputLimiter where
  bytes : Nat := 0
  exceeded : Bool := false
  bytes_le : bytes ≤ maxCommandOutput := by decide

/-- What a write leads to beside the new count: what is passed on, and whether the limit is
reported. -/
structure Passed where
  chunk : Bytes := []
  onLimit : Bool := false

namespace OutputLimiter

def write (l : OutputLimiter) (data : Bytes) : Passed × OutputLimiter :=
  if l.exceeded then ({}, l)
  else
    let remaining := maxCommandOutput - l.bytes
    if h : remaining < data.length then
      let chunk := if 0 < remaining ∧ remaining < data.length then data.take remaining else data
      ({ chunk := chunk, onLimit := true },
        { bytes := maxCommandOutput, exceeded := true, bytes_le := Nat.le_refl _ })
    else
      ({ chunk := data },
        { l with
          bytes := l.bytes + data.length
          bytes_le := by have := l.bytes_le; omega })

/-- Empty chunks are not passed on. -/
def forwarded (stream : Stream) (p : Passed) : List (Stream × Bytes) :=
  if p.chunk = [] then [] else [(stream, p.chunk)]

/-- All that is passed on of a sequence of writes, and the limiter after them. -/
def run (l : OutputLimiter) : List (Stream × Bytes) → List (Stream × Bytes) × OutputLimiter
  | [] => ([], l)
  | (stream, data) :: writes =>
    let r := l.write data
    let rest := r.2.run writes
    (forwarded stream r.1 ++ rest.1, rest.2)

end OutputLimiter

/-- The bytes of chunks in a row, whichever stream they are from. -/
def content (chunks : List (Stream × Bytes)) : Bytes := chunks.flatMap Prod.snd

@[simp] theorem content_nil : content [] = [] := rfl

@[simp] theorem content_cons (stream : Stream) (data : Bytes) (chunks : List (Stream × Bytes)) :
    content ((stream, data) :: chunks) = data ++ content chunks := rfl

@[simp] theorem content_append (chunks chunks' : List (Stream × Bytes)) :
    content (chunks ++ chunks') = content chunks ++ content chunks' :=
  List.flatMap_append

namespace OutputLimiter

@[simp] theorem content_forwarded (stream : Stream) (p : Passed) :
    content (forwarded stream p) = p.chunk := by
  unfold forwarded
  split
  · rename_i h
    exact h.symm
  · simp

variable (l : OutputLimiter) (data : Bytes)

/-! ### One write -/

theorem write_exceeded (h : l.exceeded = true) : l.write data = ({}, l) := if_pos h

/-- A write that fits is passed on whole. -/
theorem write_fits (h : l.exceeded = false) (hfits : l.bytes + data.length ≤ maxCommandOutput) :
    (l.write data).1.chunk = data ∧ (l.write data).2.bytes = l.bytes + data.length ∧
      (l.write data).2.exceeded = false := by
  have hroom : ¬ maxCommandOutput - l.bytes < data.length := by omega
  simp [write, h, hroom]

/-- A write that does not fit is cut where there is room left, and is the last. -/
theorem write_over (h : l.exceeded = false) (hover : maxCommandOutput < l.bytes + data.length) :
    (l.write data).1.chunk =
        (if l.bytes < maxCommandOutput then data.take (maxCommandOutput - l.bytes) else data) ∧
      (l.write data).2.bytes = maxCommandOutput ∧ (l.write data).2.exceeded = true := by
  have hle := l.bytes_le
  have hroom : maxCommandOutput - l.bytes < data.length := by omega
  have hpos : 0 < maxCommandOutput - l.bytes ↔ l.bytes < maxCommandOutput := by omega
  simp [write, h, hroom, hpos]

/-! ### Sequences of writes -/

theorem run_exceeded (h : l.exceeded = true) (writes : List (Stream × Bytes)) :
    content (l.run writes).1 = [] ∧ (l.run writes).2 = l := by
  induction writes with
  | nil => exact ⟨rfl, rfl⟩
  | cons w writes ih => simp [run, write_exceeded l w.2 h, ih]

/-- What is passed on is what was written, up to where the limit was passed. -/
theorem run_prefix (writes : List (Stream × Bytes)) (h : l.exceeded = false) :
    content (l.run writes).1 <+: content writes ∧
      ((l.run writes).2.exceeded = true ↔ maxCommandOutput < l.bytes + (content writes).length) := by
  induction writes generalizing l with
  | nil =>
    have hle := l.bytes_le
    refine ⟨List.prefix_refl _, iff_of_false (by simp [run, h]) ?_⟩
    rw [content_nil, List.length_nil]
    omega
  | cons w writes ih =>
    obtain ⟨stream, data⟩ := w
    simp only [run, content_append, content_forwarded, content_cons, List.length_append]
    by_cases hfits : l.bytes + data.length ≤ maxCommandOutput
    · obtain ⟨hchunk, hbytes, hexceeded⟩ := l.write_fits data h hfits
      obtain ⟨hforwarded, hiff⟩ := ih (l.write data).2 hexceeded
      rw [hchunk, hbytes] at *
      exact ⟨(List.prefix_append_right_inj data).mpr hforwarded, by rw [hiff, Nat.add_assoc]⟩
    · obtain ⟨hchunk, -, hexceeded⟩ := l.write_over data h (by omega)
      obtain ⟨hnone, hkept⟩ := run_exceeded (l.write data).2 hexceeded writes
      rw [hnone, List.append_nil, hkept, hchunk]
      refine ⟨?_, iff_of_true hexceeded (by omega)⟩
      split
      · exact (List.take_prefix ..).trans (List.prefix_append ..)
      · exact List.prefix_append ..

/-- The limit is kept unless a write finds it reached exactly. -/
theorem run_length_le (writes : List (Stream × Bytes)) (h : l.exceeded = false)
    (hclear : ∀ before stream data after, writes = before ++ (stream, data) :: after →
      l.bytes + (content before).length = maxCommandOutput → data = []) :
    l.bytes + (content (l.run writes).1).length ≤ maxCommandOutput := by
  induction writes generalizing l with
  | nil => exact l.bytes_le
  | cons w writes ih =>
    obtain ⟨stream, data⟩ := w
    simp only [run, content_append, content_forwarded, List.length_append]
    by_cases hfits : l.bytes + data.length ≤ maxCommandOutput
    · obtain ⟨hchunk, hbytes, hexceeded⟩ := l.write_fits data h hfits
      have hrest := ih (l.write data).2 hexceeded fun before stream' data' after heq hat => by
        refine hclear ((stream, data) :: before) stream' data' after (by rw [heq]; rfl) ?_
        rw [content_cons, List.length_append, ← hat, hbytes, Nat.add_assoc]
      rw [hchunk]
      rw [hbytes] at hrest
      omega
    · obtain ⟨hchunk, -, hexceeded⟩ := l.write_over data h (by omega)
      obtain ⟨hnone, -⟩ := run_exceeded (l.write data).2 hexceeded writes
      have hle := l.bytes_le
      have hroom : l.bytes < maxCommandOutput := by
        by_contra hfull
        have hdata := hclear [] stream data writes rfl (by rw [content_nil, List.length_nil]; omega)
        rw [hdata, List.length_nil] at hfits
        omega
      rw [hnone, hchunk, if_pos hroom, List.length_take, List.length_nil]
      omega

end OutputLimiter

/-- No write with content comes when the limit is reached exactly. -/
def NotAtLimit (writes : List (Stream × Bytes)) : Prop :=
  ∀ before stream data after, writes = before ++ (stream, data) :: after →
    (content before).length = maxCommandOutput → data = []

/-- What is passed on is a beginning of what was written and no longer than the limit, and the
limit counts as exceeded exactly when more than that was written. -/
theorem output_limited (writes : List (Stream × Bytes)) (h : NotAtLimit writes) :
    content (OutputLimiter.run {} writes).1 <+: content writes ∧
    (content (OutputLimiter.run {} writes).1).length ≤ maxCommandOutput ∧
    ((OutputLimiter.run {} writes).2.exceeded = true ↔
      maxCommandOutput < (content writes).length) := by
  obtain ⟨hforwarded, hexceeded⟩ := OutputLimiter.run_prefix {} writes rfl
  have hle := OutputLimiter.run_length_le {} writes rfl fun before stream data after heq hat =>
    h before stream data after heq (by rw [← hat]; exact (Nat.zero_add _).symm)
  rw [Nat.zero_add] at hle hexceeded
  exact ⟨hforwarded, hle, hexceeded⟩

/-- Three bytes, and then more than there is room for. -/
theorem output_limited_cut :
    NotAtLimit [(.stdout, [1, 2, 3]), (.stderr, List.replicate maxCommandOutput 0)] ∧
    (content (OutputLimiter.run {} [(.stdout, [1, 2, 3]),
      (.stderr, List.replicate maxCommandOutput 0)]).1).length ≤ maxCommandOutput := by
  have h : NotAtLimit [(.stdout, [1, 2, 3]), (.stderr, List.replicate maxCommandOutput 0)] := by
    intro before stream data after heq hat
    match before with
    | [] => simp [maxCommandOutput] at hat
    | [w] =>
      cases heq
      simp [content, maxCommandOutput] at hat
    | w :: w' :: before => simp at heq
  exact ⟨h, (output_limited _ h).2.1⟩

/-- A byte that comes when the limit is reached exactly is passed on all the same. -/
theorem output_limit_passed :
    ∃ writes, (content (OutputLimiter.run {} writes).1).length = maxCommandOutput + 1 ∧
      (OutputLimiter.run {} writes).2.exceeded = true := by
  refine ⟨[(.stdout, List.replicate maxCommandOutput 0), (.stdout, [1])], ?_⟩
  obtain ⟨hchunk, hbytes, hexceeded⟩ := OutputLimiter.write_fits {}
    (List.replicate maxCommandOutput 0) rfl (by rw [List.length_replicate]; exact Nat.le_refl _)
  rw [List.length_replicate] at hbytes
  obtain ⟨hlast, -, hover⟩ := OutputLimiter.write_over
    (OutputLimiter.write {} (List.replicate maxCommandOutput 0)).2 [1] hexceeded
    (by rw [hbytes]; exact Nat.lt_succ_self _)
  rw [if_neg (by rw [hbytes]; exact Nat.lt_irrefl _)] at hlast
  simp only [OutputLimiter.run, content_append, OutputLimiter.content_forwarded, hchunk, hlast]
  exact ⟨by simp, hover⟩

end CiRunner.Output
