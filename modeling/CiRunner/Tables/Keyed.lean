import Mathlib.Data.List.Nodup
import Mathlib.Data.List.Perm.Subperm

/-! Tables of rows with a primary key, as a list of rows no two of which share
one. A statement either replaces the row with a given key or adds a row whose key
is not there yet, so no statement can produce a second row for a key. -/

namespace CiRunner.Tables

variable {K V : Type} [DecidableEq K] {key : V → K}

/-- Rows, no two of which have the same key. -/
structure Table (key : V → K) where
  rows : List V
  nodup : (rows.map key).Nodup

namespace Table

def empty : Table key := ⟨[], List.nodup_nil⟩

/-- The row with the given key. -/
def find (t : Table key) (k : K) : Option V := t.rows.find? fun v => key v = k

theorem map_key_replace (rows : List V) (v : V) :
    (rows.map fun u => if key u = key v then v else u).map key = rows.map key := by
  rw [List.map_map]
  apply List.map_congr_left
  intro u _
  by_cases h : key u = key v <;> simp [h]

/-- Replace the row with the key of `v`, if there is one. -/
def put (t : Table key) (v : V) : Table key where
  rows := t.rows.map fun u => if key u = key v then v else u
  nodup := by rw [map_key_replace]; exact t.nodup

/-- Add a row, unless there is one with its key. -/
def insert (t : Table key) (v : V) : Table key :=
  if h : key v ∈ t.rows.map key then t
  else ⟨t.rows ++ [v], by
    rw [List.map_append, List.map_singleton]
    exact t.nodup.append (List.nodup_singleton _) (by simpa using h)⟩

variable {t : Table key} {k : K} {u v : V}

theorem key_of_find (h : t.find k = some v) : key v = k := by
  simpa using List.find?_some h

theorem mem_of_find (h : t.find k = some v) : v ∈ t.rows := List.mem_of_find?_eq_some h

theorem find_of_mem (h : v ∈ t.rows) : t.find (key v) = some v := by
  obtain ⟨rows, hn⟩ := t
  simp only [find] at h ⊢
  induction rows with
  | nil => cases h
  | cons w rows ih =>
    rw [List.map_cons, List.nodup_cons] at hn
    rcases List.mem_cons.mp h with rfl | hv
    · simp
    · have hne : key w ≠ key v := fun e => hn.1 (e ▸ List.mem_map_of_mem hv)
      simpa [hne] using ih hn.2 hv

theorem find_eq_none : t.find k = none ↔ k ∉ t.rows.map key := by
  simp [find]

theorem find_put (t : Table key) (v : V) (k : K) :
    (t.put v).find k = if key v = k then (t.find k).map fun _ => v else t.find k := by
  obtain ⟨rows, hn⟩ := t
  simp only [find, put]
  clear hn
  induction rows with
  | nil => simp
  | cons w rows ih =>
    by_cases hw : key w = key v
    · by_cases hk : key v = k <;> simp_all
    · by_cases hk : key w = k
      · have hv : key v ≠ k := fun e => hw (hk.trans e.symm)
        rw [List.map_cons, if_neg hw, if_neg hv, List.find?_cons_of_pos (by simpa using hk),
          List.find?_cons_of_pos (by simpa using hk)]
      · simp [hw, hk, ih]

theorem find_put_self (h : t.find (key v) = some u) : (t.put v).find (key v) = some v := by
  simp [find_put, h]

theorem find_put_of_ne (h : key v ≠ k) : (t.put v).find k = t.find k := by
  simp [find_put, h]

theorem find_insert (t : Table key) (v : V) (k : K) :
    (t.insert v).find k = if key v = k then some ((t.find k).getD v) else t.find k := by
  unfold insert
  split
  · rename_i h
    by_cases hk : key v = k
    · subst hk
      rcases hf : t.find (key v) with _ | w
      · exact absurd h (find_eq_none.mp hf)
      · simp
    · simp [hk]
  · rename_i h
    have hnone : t.find (key v) = none := find_eq_none.mpr h
    by_cases hk : key v = k
    · subst hk
      simp only [find] at hnone ⊢
      simp [List.find?_append, hnone]
    · simp [find, List.find?_append, hk]

theorem find_put_cases {w : V} (h : (t.put v).find k = some w) :
    (k = key v ∧ w = v ∧ ∃ u, t.find k = some u) ∨ (k ≠ key v ∧ t.find k = some w) := by
  rw [find_put] at h
  split at h
  · rename_i hk
    rcases hf : t.find k with _ | u
    · simp [hf] at h
    · rw [hf] at h
      exact .inl ⟨hk.symm, (Option.some.inj h).symm, u, rfl⟩
  · rename_i hk
    exact .inr ⟨Ne.symm hk, h⟩

/-- A row found after an insertion is the new one, or was there before. -/
theorem find_insert_cases {w : V} (h : (t.insert v).find k = some w) :
    (k = key v ∧ w = v ∧ t.find k = none) ∨ t.find k = some w := by
  rw [find_insert] at h
  split at h
  · rename_i hk
    rcases hf : t.find k with _ | u
    · rw [hf] at h
      exact .inl ⟨hk.symm, (Option.some.inj h).symm, rfl⟩
    · rw [hf] at h
      exact .inr h
  · exact .inr h

theorem find_insert_of_find (h : t.find k = some u) (v : V) : (t.insert v).find k = some u := by
  rw [find_insert, h]
  split <;> simp

/-- Change every row in a way that keeps its key. -/
def mapRows (t : Table key) (f : V → V) (hf : ∀ v, key (f v) = key v) : Table key where
  rows := t.rows.map f
  nodup := by
    have hkeys : (t.rows.map f).map key = t.rows.map key := by
      rw [List.map_map]
      exact List.map_congr_left fun v _ => hf v
    rw [hkeys]
    exact t.nodup

theorem find_mapRows (t : Table key) (f : V → V) (hf : ∀ v, key (f v) = key v) (k : K) :
    (t.mapRows f hf).find k = (t.find k).map f := by
  simp only [find, mapRows, List.find?_map]
  congr 2
  funext v
  simp [hf]

/-- Delete the rows that pass a test. -/
def remove (t : Table key) (p : V → Bool) : Table key where
  rows := t.rows.filter fun v => !p v
  nodup := t.nodup.sublist (List.filter_sublist.map key)

theorem find_remove (t : Table key) (p : V → Bool) (k : K) :
    (t.remove p).find k = (t.find k).filter fun v => !p v := by
  obtain ⟨rows, hn⟩ := t
  simp only [find, remove]
  induction rows with
  | nil => rfl
  | cons w rows ih =>
    rw [List.map_cons, List.nodup_cons] at hn
    by_cases hk : key w = k
    · rw [List.find?_cons_of_pos (by simpa using hk)]
      by_cases hp : p w = true
      · have hnone : (rows.filter fun v => !p v).find? (fun v => key v = k) = none := by
          rw [List.find?_eq_none]
          intro u hu hku
          have hu' : u ∈ rows := (List.mem_filter.mp hu).1
          have hkey : key u = key w := by rw [hk]; simpa using hku
          exact hn.1 (hkey ▸ List.mem_map_of_mem hu')
        simp [Option.filter, hp, hnone]
      · simp [Option.filter, hp, hk]
    · have ih := ih hn.2
      rw [List.find?_cons_of_neg (by simpa using hk)]
      by_cases hp : p w = true
      · simpa [List.filter_cons, hp] using ih
      · simpa [List.filter_cons, hp, hk] using ih

/-- The number of rows that pass a test. -/
def count (t : Table key) (p : V → Bool) : Nat := t.rows.countP p

omit [DecidableEq K] in
theorem count_le_length (t : Table key) {p : V → Bool} (ks : List K)
    (h : ∀ v ∈ t.rows, p v = true → key v ∈ ks) : t.count p ≤ ks.length := by
  have hnodup : ((t.rows.filter p).map key).Nodup :=
    t.nodup.sublist (List.filter_sublist.map key)
  have hsub : (t.rows.filter p).map key ⊆ ks := by
    intro k hk
    obtain ⟨v, hv, rfl⟩ := List.mem_map.mp hk
    exact h v (List.mem_filter.mp hv).1 (List.mem_filter.mp hv).2
  have hle := (hnodup.subperm hsub).length_le
  rwa [List.length_map, ← List.countP_eq_length_filter] at hle

omit [DecidableEq K] in
theorem count_le_count {t' : Table key} {p p' : V → Bool}
    (h : ∀ v ∈ t'.rows, p' v = true → ∃ u ∈ t.rows, key u = key v ∧ p u = true) :
    t'.count p' ≤ t.count p := by
  have hle := t'.count_le_length ((t.rows.filter p).map key) fun v hv hp => by
    obtain ⟨u, hu, hk, hpu⟩ := h v hv hp
    exact hk ▸ List.mem_map_of_mem (List.mem_filter.mpr ⟨hu, hpu⟩)
  rwa [List.length_map, ← List.countP_eq_length_filter] at hle

omit [DecidableEq K] in
theorem count_le_count_succ {t' : Table key} {p p' : V → Bool}
    (h : ∀ v ∈ t'.rows, p' v = true → key v = k ∨ ∃ u ∈ t.rows, key u = key v ∧ p u = true) :
    t'.count p' ≤ t.count p + 1 := by
  have hle := t'.count_le_length (k :: (t.rows.filter p).map key) fun v hv hp => by
    rcases h v hv hp with rfl | ⟨u, hu, hk, hpu⟩
    · exact List.mem_cons_self
    · exact List.mem_cons_of_mem _ (hk ▸ List.mem_map_of_mem (List.mem_filter.mpr ⟨hu, hpu⟩))
  rwa [List.length_cons, List.length_map, ← List.countP_eq_length_filter] at hle

theorem count_put_le (p : V → Bool) (h : ∀ u, t.find (key v) = some u → p v = true → p u = true) :
    (t.put v).count p ≤ t.count p := by
  simp only [count, put, List.countP_map]
  apply List.countP_mono_left
  intro u hu hp
  by_cases hk : key u = key v
  · simp only [Function.comp_apply, hk, if_true] at hp
    exact h u (hk ▸ find_of_mem hu) hp
  · simpa [hk] using hp

theorem count_put_le_succ (t : Table key) (v : V) (p : V → Bool) :
    (t.put v).count p ≤ t.count p + 1 := by
  obtain ⟨rows, hn⟩ := t
  simp only [count, put]
  induction rows with
  | nil => simp
  | cons w rows ih =>
    rw [List.map_cons, List.nodup_cons] at hn
    rw [List.map_cons, List.countP_cons, List.countP_cons]
    by_cases hw : key w = key v
    · have hrest : (rows.map fun u => if key u = key v then v else u) = rows := by
        conv_rhs => rw [← List.map_id rows]
        apply List.map_congr_left
        intro u hu
        have hne : key u ≠ key v := by
          intro e
          rw [hw, ← e] at hn
          exact hn.1 (List.mem_map_of_mem hu)
        simp [hne]
      rw [hrest, if_pos hw]
      split <;> omega
    · rw [if_neg hw]
      have := ih hn.2
      omega

theorem count_insert {p : V → Bool} (h : p v = false) : (t.insert v).count p = t.count p := by
  unfold insert
  split
  · rfl
  · simp [count, List.countP_append, h]

end Table

end CiRunner.Tables
