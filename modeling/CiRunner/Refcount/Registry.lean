import Mathlib.Logic.Function.Basic

/-! A registry of shared cells with reader counts. A key is looked up or its cell
is created when a reader retains it, and its entry is removed when the last reader
releases it; a later reader then gets a new cell. Readers keep the address of the
cell, so what has to be known is that the address a reader holds is the one its
key stands for as long as it holds it. -/

namespace CiRunner.Refcount

structure Cell (α : Type) where
  value : α
  readers : Int
  deriving Repr, DecidableEq

/-- Cells by address and the address of each key that has an entry. -/
structure Registry (K α : Type) where
  entries : K → Option Nat
  cells : Nat → Cell α
  next : Nat

namespace Registry

variable {K α : Type}

/-- No entries; the cells hold nothing yet. -/
def empty (zero : α) : Registry K α := ⟨fun _ => none, fun _ => ⟨zero, 0⟩, 0⟩

/-- Change the cell at an address. -/
def adjust (f : Cell α → Cell α) (R : Registry K α) (p : Nat) : Registry K α :=
  { R with cells := Function.update R.cells p (f (R.cells p)) }

/-- Change the value of the cell at an address. -/
def modify (f : α → α) (R : Registry K α) (p : Nat) : Registry K α :=
  R.adjust (fun c => { c with value := f c.value }) p

/-- Add a reader to the key's cell, which is created if there is none. -/
def retain [DecidableEq K] (zero : α) (R : Registry K α) (k : K) : Registry K α × Nat :=
  match R.entries k with
  | some p => (R.adjust (fun c => { c with readers := c.readers + 1 }) p, p)
  | none =>
    ({ entries := Function.update R.entries k (some R.next)
       cells := Function.update R.cells R.next ⟨zero, 1⟩
       next := R.next + 1 }, R.next)

/-- Take a reader from the cell and remove the key's entry with the last one. -/
def release [DecidableEq K] (R : Registry K α) (k : K) (p : Nat) : Registry K α :=
  let S := R.adjust (fun c => { c with readers := c.readers - 1 }) p
  { S with entries := if (S.cells p).readers = 0 then Function.update R.entries k none
      else R.entries }

/-- Take a reader from the cell and remove the key's entry with the last one, if it still stands
for that cell. -/
def releaseSame [DecidableEq K] (R : Registry K α) (k : K) (p : Nat) : Registry K α :=
  let S := R.adjust (fun c => { c with readers := c.readers - 1 }) p
  { S with entries := if (S.cells p).readers = 0 ∧ R.entries k = some p then
      Function.update R.entries k none else R.entries }

/-- The registry is in order, with this number of readers for each key. -/
structure Ordered (R : Registry K α) (readers : K → Nat) : Prop where
  allocated : ∀ {k p}, R.entries k = some p → p < R.next
  injective : ∀ {k l p}, R.entries k = some p → R.entries l = some p → k = l
  counted : ∀ {k p}, R.entries k = some p → (R.cells p).readers = readers k
  held : ∀ k, 0 < readers k ↔ (R.entries k).isSome

theorem ordered_empty (zero : α) : (empty zero : Registry K α).Ordered fun _ => 0 where
  allocated := by simp [empty]
  injective := by simp [empty]
  counted := by simp [empty]
  held := by simp [empty]

/-! ### Changing values -/

@[simp] theorem modify_entries (f : α → α) (R : Registry K α) (p : Nat) :
    (R.modify f p).entries = R.entries := rfl

@[simp] theorem modify_next (f : α → α) (R : Registry K α) (p : Nat) :
    (R.modify f p).next = R.next := rfl

theorem modify_value (f : α → α) (R : Registry K α) (p q : Nat) :
    ((R.modify f p).cells q).value = if q = p then f (R.cells q).value else (R.cells q).value := by
  by_cases h : q = p
  · subst h; simp [modify, adjust]
  · simp [modify, adjust, h]

@[simp] theorem modify_readers (f : α → α) (R : Registry K α) (p q : Nat) :
    ((R.modify f p).cells q).readers = (R.cells q).readers := by
  by_cases h : q = p
  · subst h; simp [modify, adjust]
  · simp [modify, adjust, h]

theorem Ordered.modify {R : Registry K α} {n : K → Nat} (h : R.Ordered n) (f : α → α) (p : Nat) :
    (R.modify f p).Ordered n where
  allocated := h.allocated
  injective := h.injective
  counted hk := by simpa using h.counted hk
  held := h.held

/-! ### Retaining -/

variable [DecidableEq K]

theorem retain_entries_self (zero : α) (R : Registry K α) (k : K) :
    (R.retain zero k).1.entries k = some (R.retain zero k).2 := by
  unfold retain
  split <;> simp_all [adjust]

theorem retain_entries_ne (zero : α) (R : Registry K α) {k l : K} (hl : l ≠ k) :
    (R.retain zero k).1.entries l = R.entries l := by
  unfold retain
  split <;> simp [adjust, hl]

theorem retain_entries_of_some (zero : α) (R : Registry K α) {k l : K} {p : Nat}
    (hl : R.entries l = some p) : (R.retain zero k).1.entries l = some p := by
  by_cases h : l = k
  · subst h; simp [retain, hl, adjust]
  · rw [retain_entries_ne zero R h, hl]

theorem Ordered.retain_value {R : Registry K α} {n : K → Nat} (h : R.Ordered n) (zero : α)
    (k : K) {l : K} {p : Nat} (hl : R.entries l = some p) :
    ((R.retain zero k).1.cells p).value = (R.cells p).value := by
  unfold retain
  split
  · rename_i q _
    by_cases hq : p = q
    · subst hq; simp [adjust]
    · simp [adjust, hq]
  · have : p ≠ R.next := Nat.ne_of_lt (h.allocated hl)
    simp [this]

theorem retain_value_self (zero : α) (R : Registry K α) (k : K) :
    R.entries k = some (R.retain zero k).2 ∨
    R.entries k = none ∧ ((R.retain zero k).1.cells (R.retain zero k).2).value = zero := by
  unfold retain
  rcases hk : R.entries k with _ | p <;> simp

theorem Ordered.retain {R : Registry K α} {n : K → Nat} (h : R.Ordered n) (zero : α) (k : K) :
    (R.retain zero k).1.Ordered (Function.update n k (n k + 1)) := by
  rcases hk : R.entries k with _ | p
  · -- a new cell: its address is above every address in use
    have hn : n k = 0 := by
      have := h.held k
      simp [hk] at this
      exact this
    simp only [Registry.retain, hk]
    refine ⟨fun {l q} hl => ?_, fun {l m q} hl hm => ?_, fun {l q} hl => ?_, fun l => ?_⟩
    · by_cases hlk : l = k
      · subst hlk
        simp only [Function.update_self, Option.some.injEq] at hl
        simp only; omega
      · simp [hlk] at hl
        have := h.allocated hl
        simp only; omega
    · by_cases hlk : l = k <;> by_cases hmk : m = k
      · rw [hlk, hmk]
      · subst hlk; simp [hmk] at hl hm
        have := h.allocated hm; omega
      · subst hmk; simp [hlk] at hl hm
        have := h.allocated hl; omega
      · simp [hlk, hmk] at hl hm
        exact h.injective hl hm
    · by_cases hlk : l = k
      · subst hlk; simp at hl; subst hl; simp [hn]
      · simp [hlk] at hl
        have : q ≠ R.next := Nat.ne_of_lt (h.allocated hl)
        simp [this, hlk, h.counted hl]
    · by_cases hlk : l = k
      · subst hlk; simp
      · simpa [hlk] using h.held l
  · simp only [Registry.retain, hk]
    refine ⟨h.allocated, h.injective, fun {l q} hl => ?_, fun l => ?_⟩
    · have hc := h.counted hl
      by_cases hq : q = p
      · subst hq
        have hlk : l = k := h.injective hl hk
        subst hlk; simp [adjust, hc]
      · have hlk : l ≠ k := by
          rintro rfl
          exact hq (Option.some.inj (hl.symm.trans hk))
        simp [adjust, hq, hlk, hc]
    · by_cases hlk : l = k
      · subst hlk; simp [adjust, hk]
      · simpa [adjust, hlk] using h.held l

/-! ### Releasing -/

theorem release_entries_ne (R : Registry K α) {k l : K} (p : Nat) (hl : l ≠ k) :
    (R.release k p).entries l = R.entries l := by
  simp only [release]
  split <;> simp [hl]

@[simp] theorem release_value (R : Registry K α) (k : K) (p q : Nat) :
    ((R.release k p).cells q).value = (R.cells q).value := by
  by_cases hq : q = p
  · subst hq; simp [release, adjust]
  · simp [release, adjust, hq]

theorem releaseSame_eq {R : Registry K α} {k : K} {p : Nat} (hk : R.entries k = some p) :
    R.releaseSame k p = R.release k p := by
  simp [releaseSame, release, hk]

theorem Ordered.release_entries_self {R : Registry K α} {n : K → Nat} (h : R.Ordered n) {k : K}
    {p : Nat} (hk : R.entries k = some p) (hn : 1 < n k) :
    (R.release k p).entries k = some p := by
  have hc := h.counted hk
  have : (R.cells p).readers - 1 ≠ 0 := by omega
  simp [release, adjust, this, hk]

theorem entries_of_release {R : Registry K α} {k l : K} {p q : Nat}
    (hl : (R.release k p).entries l = some q) : R.entries l = some q := by
  by_cases hlk : l = k
  · subst hlk
    simp only [Registry.release] at hl
    split at hl
    · simp at hl
    · exact hl
  · rwa [release_entries_ne R p hlk] at hl

theorem Ordered.release {R : Registry K α} {n : K → Nat} (h : R.Ordered n) {k : K} {p : Nat}
    (hk : R.entries k = some p) : (R.release k p).Ordered (Function.update n k (n k - 1)) := by
  have hc := h.counted hk
  have hpos : 0 < n k := (h.held k).2 (by simp [hk])
  have hold : ∀ {l q}, (R.release k p).entries l = some q → R.entries l = some q :=
    entries_of_release
  have hreaders : ∀ q, ((R.release k p).cells q).readers =
      if q = p then (R.cells q).readers - 1 else (R.cells q).readers := by
    intro q
    by_cases hq : q = p
    · subst hq; simp [Registry.release, adjust]
    · simp [Registry.release, adjust, hq]
  refine ⟨fun hl => h.allocated (hold hl), fun hl hm => h.injective (hold hl) (hold hm),
    fun {l q} hl => ?_, fun l => ?_⟩
  · have hcl := h.counted (hold hl)
    rw [hreaders]
    by_cases hq : q = p
    · subst hq
      have hlk : l = k := h.injective (hold hl) hk
      subst hlk
      simp [hcl]; omega
    · have hlk : l ≠ k := by
        rintro rfl
        exact hq (Option.some.inj ((hold hl).symm.trans hk))
      simp [hq, hlk, hcl]
  · by_cases hlk : l = k
    · subst hlk
      by_cases hone : n l = 1
      · have hz : (R.cells p).readers - 1 = 0 := by omega
        simp [Registry.release, adjust, hone, hz]
      · have hs := h.release_entries_self hk (by omega)
        rw [hs]
        simp; omega
    · rw [release_entries_ne R p hlk]
      simpa [hlk] using h.held l

end Registry

end CiRunner.Refcount
