import Mathlib.Logic.Function.Basic
import CiRunner.Tables.Keyed

/-! Rows with a version, seen through a lookup by key. If every change of a row
either raises its version or is one that a given equivalence ignores, then whoever
has read a row knows that the lookup still gives an equivalent row or one of a
higher version; a compare-and-swap on the version therefore finds the row that was
read. -/

namespace CiRunner.Tables

/-- The version of a row, and what may change without a new version. -/
structure Versioning (V : Type) where
  version : V → Nat
  same : V → V → Prop
  equivalence : Equivalence same
  version_eq : ∀ {r r'}, same r r' → version r = version r'

namespace Versioning

variable {K V : Type} (vs : Versioning V)

/-- The row `r'` is `r`, or has replaced it. -/
def Later (r r' : V) : Prop := vs.same r r' ∨ vs.version r < vs.version r'

/-- The row was there once: it is still there, or one that has replaced it is. -/
def Seen (find : K → Option V) (k : K) (r : V) : Prop := ∃ r', find k = some r' ∧ vs.Later r r'

/-- No row is lost or goes back. -/
def Advances (find find' : K → Option V) : Prop := ∀ k r, find k = some r → vs.Seen find' k r

variable {vs} {f f' f'' : K → Option V} {k : K} {r r' r'' : V}

theorem Later.refl (r : V) : vs.Later r r := .inl (vs.equivalence.refl r)

theorem Later.version_le (h : vs.Later r r') : vs.version r ≤ vs.version r' := by
  rcases h with h | h
  · exact Nat.le_of_eq (vs.version_eq h)
  · exact Nat.le_of_lt h

theorem Later.trans (h : vs.Later r r') (h' : vs.Later r' r'') : vs.Later r r'' := by
  rcases h with h | h
  · rcases h' with h' | h'
    · exact .inl (vs.equivalence.trans h h')
    · exact .inr (by rw [vs.version_eq h]; exact h')
  · exact .inr (Nat.lt_of_lt_of_le h h'.version_le)

theorem seen_of_find (h : f k = some r) : vs.Seen f k r := ⟨r, h, .refl r⟩

theorem Seen.advance (h : vs.Seen f k r) (ha : vs.Advances f f') : vs.Seen f' k r := by
  obtain ⟨m, hm, hl⟩ := h
  obtain ⟨r', hr', hl'⟩ := ha k m hm
  exact ⟨r', hr', hl.trans hl'⟩

/-- The compare-and-swap: a row that was read and whose version is still there has not been
replaced. -/
theorem Seen.same_of_version {c : V} (h : vs.Seen f k r) (hc : f k = some c)
    (hv : vs.version c = vs.version r) : vs.same r c := by
  obtain ⟨r', hr', hl⟩ := h
  rw [hc] at hr'
  cases hr'
  rcases hl with hl | hl
  · exact hl
  · omega

theorem Advances.refl (f : K → Option V) : vs.Advances f f := fun _ _ h => seen_of_find h

theorem advances_at (k : K) (hne : ∀ k', k' ≠ k → f' k' = f k')
    (hk : ∀ r, f k = some r → vs.Seen f' k r) : vs.Advances f f' := by
  intro k' r hr
  by_cases h : k' = k
  · subst h
    exact hk r hr
  · exact ⟨r, by rw [hne k' h, hr], .refl r⟩

/-! ### Tables -/

section Table

variable [DecidableEq K] {key : V → K} {t : Table key} {u v : V}

theorem advances_put (hf : t.find (key v) = some u) (h : vs.Later u v) :
    vs.Advances t.find (t.put v).find := by
  refine advances_at (key v) (fun k hk => Table.find_put_of_ne (Ne.symm hk)) fun r hr => ?_
  rw [hf] at hr
  cases hr
  exact ⟨v, Table.find_put_self hf, h⟩

theorem advances_insert (t : Table key) (v : V) : vs.Advances t.find (t.insert v).find :=
  fun _ r hr => ⟨r, Table.find_insert_of_find hr v, .refl r⟩

end Table

end Versioning

end CiRunner.Tables
