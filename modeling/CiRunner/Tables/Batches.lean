import CiRunner.Tables.Keyed
import CiRunner.Tables.Walks

/-! Updates in batches: the rows that are selected are read in the order of their keys, so many
at a time, and each is replaced before the next batch is read behind the last of them. A
row that is still selected after its update is not read again, so every selected row is
updated exactly once. -/

namespace CiRunner.Tables

variable {V K : Type} [LinearOrder K] {key : V → K}

/-- Update batch after batch, so many at most. -/
def updateInBatches (select : V → Bool) (update : V → V) (size : Nat) :
    Nat → Option K → Table key → Option (Table key)
  | 0, _, _ => none
  | n + 1, cursor, t =>
    let records :=
      (ordered key t.rows fun v => select v && cursor.all fun k => k < key v).take size
    let t' := (records.map update).foldl Table.put t
    if records.length < size then some t'
    else
      match records.getLast? with
      | none => some t'
      | some v => updateInBatches select update size n (some (key v)) t'

namespace Table

theorem find_foldl_put_of_notMem {records : List V} {t : Table key} {k : K}
    (h : k ∉ records.map key) : (records.foldl Table.put t).find k = t.find k := by
  induction records generalizing t with
  | nil => rfl
  | cons v records ih =>
    rw [List.map_cons, List.mem_cons, not_or] at h
    rw [List.foldl_cons, ih h.2, find_put_of_ne fun heq => h.1 heq.symm]

theorem find_foldl_put_of_mem {records : List V} {t : Table key} {v u : V}
    (hnodup : (records.map key).Nodup) (hv : v ∈ records) (hu : t.find (key v) = some u) :
    (records.foldl Table.put t).find (key v) = some v := by
  induction records generalizing t u with
  | nil => cases hv
  | cons w records ih =>
    rw [List.map_cons, List.nodup_cons] at hnodup
    rw [List.foldl_cons]
    rcases List.mem_cons.mp hv with rfl | hv
    · rw [find_foldl_put_of_notMem hnodup.1, find_put_self hu]
    · have hne : key w ≠ key v := fun heq => hnodup.1 (heq ▸ List.mem_map_of_mem hv)
      exact ih hnodup.2 hv (by rw [find_put_of_ne hne, hu])

end Table

section Updates

variable {select : V → Bool} {update : V → V} {size n : Nat} {t t' : Table key} {c : Option K}

/-- The rows up to the cursor have been updated, and no others. -/
def UpdatedTo (select : V → Bool) (update : V → V) (t : Table key) (c : Option K)
    (t' : Table key) : Prop :=
  ∀ k, t'.find k = (t.find k).map fun v =>
    if c.all (· < k) then v else if select v then update v else v

variable (hkey : ∀ v, key (update v) = key v)
include hkey

section Batch

variable (h : UpdatedTo select update t c t') {records : List V}
  (hrecords : records =
    (ordered key t'.rows fun v => select v && c.all fun k => k < key v).take size)
include h hrecords

theorem find_batch (k : K) : ((records.map update).foldl Table.put t').find k =
    (t.find k).map fun v => if c.all (· < k) ∧ k ∉ records.map key then v
      else if select v then update v else v := by
  have hkeys : (records.map update).map key = records.map key := by
    rw [List.map_map]
    exact List.map_congr_left fun v _ => hkey v
  by_cases hk : k ∈ records.map key
  · have hsorted : (records.map key).Pairwise (· < ·) := by
      rw [hrecords, List.map_take]
      exact (ordered_lt t'.nodup).sublist (List.take_sublist _ _)
    obtain ⟨u, hu, rfl⟩ := List.mem_map.mp hk
    obtain ⟨hmem, hp⟩ := mem_ordered.mp (List.mem_of_mem_take (hrecords ▸ hu))
    obtain ⟨hselect, hbehind⟩ := Bool.and_eq_true_iff.mp hp
    have hfind := Table.find_of_mem hmem
    have hput := Table.find_foldl_put_of_mem (hkeys ▸ hsorted.imp ne_of_lt)
      (List.mem_map_of_mem hu) ((hkey u).symm ▸ hfind)
    have hold := (h (key u)).symm.trans hfind
    simp only [hbehind, if_true, Option.map_id'] at hold
    rw [hkey u] at hput
    rw [hput, hold, Option.map_some, if_neg fun hnot => hnot.2 hk, if_pos hselect]
  · rw [Table.find_foldl_put_of_notMem (hkeys ▸ hk), h k]
    simp only [hk, not_false_eq_true, and_true]

omit hkey in
/-- What is selected behind the cursor and not on the batch comes behind the last of its rows,
and the batch is full. -/
theorem lt_of_notMem_batch {k : K} {v : V} (hv : t.find k = some v)
    (hbehind : c.all (· < k) = true) (hnot : k ∉ records.map key) (hselect : select v = true) :
    records.length = size ∧ ∀ u ∈ records, key u < k := by
  have hfind := h k
  rw [hv, Option.map_some, if_pos hbehind] at hfind
  have hvk := Table.key_of_find hv
  have hall : v ∈ ordered key t'.rows fun v => select v && c.all fun k => k < key v :=
    mem_ordered.mpr ⟨Table.mem_of_find hfind, by rw [hselect, hvk, hbehind]; rfl⟩
  have hlt : ((ordered key t'.rows fun v => select v && c.all fun k => k < key v).map
    key).Pairwise (· < ·) := ordered_lt t'.nodup
  have hmem : v ∉ records := fun hmem => hnot (hvk ▸ List.mem_map_of_mem hmem)
  obtain ⟨hlength, hle⟩ := le_of_not_mem_take
    ((List.pairwise_map.mp hlt).imp le_of_lt) hall (hrecords ▸ hmem)
  refine ⟨hrecords ▸ hlength, fun u hu => ?_⟩
  refine lt_of_le_of_ne (hvk ▸ hle u (hrecords ▸ hu)) fun heq => ?_
  exact hnot (heq ▸ List.mem_map_of_mem hu)

theorem updatedTo_batch {u : V} (hu : records.getLast? = some u) :
    UpdatedTo select update t (some (key u)) ((records.map update).foldl Table.put t') := by
  intro k
  rw [find_batch hkey h hrecords]
  refine Option.map_congr fun v hv => ?_
  have humem := List.mem_of_getLast? hu
  have hsorted : (records.map key).Pairwise (· < ·) := by
    rw [hrecords, List.map_take]
    exact (ordered_lt t'.nodup).sublist (List.take_sublist _ _)
  obtain ⟨-, hp⟩ := mem_ordered.mp (List.mem_of_mem_take (hrecords ▸ humem))
  have hbehind := (Bool.and_eq_true_iff.mp hp).2
  have hcursor : (some (key u)).all (· < k) = decide (key u < k) := rfl
  by_cases hlt : key u < k
  · -- The row comes behind the batch.
    have hnot : k ∉ records.map key := by
      intro hk
      obtain ⟨w, hw, rfl⟩ := List.mem_map.mp hk
      exact absurd (le_of_getLast? hsorted hu w hw) (not_le.mpr hlt)
    have hall : c.all (· < k) = true := by
      cases c with
      | none => rfl
      | some k' => exact decide_eq_true ((of_decide_eq_true hbehind).trans hlt)
    rw [if_pos ⟨hall, hnot⟩, if_pos (hcursor.trans (decide_eq_true hlt))]
  · have hat : ¬ (some (key u)).all (· < k) = true := by
      rw [hcursor, decide_eq_true_eq]
      exact hlt
    rw [if_neg hat]
    split
    · rename_i hcond
      have hselect : ¬ select v = true := fun hselect =>
        hlt ((lt_of_notMem_batch h hrecords hv hcond.1 hcond.2 hselect).2 u humem)
      rw [if_neg hselect]
    · rfl

end Batch

theorem exists_updateInBatches (hsize : 0 < size) (h : UpdatedTo select update t c t')
    (hn : ((t.rows.map key).filter fun k => c.all (· < k)).length < n) :
    ∃ final, updateInBatches select update size n c t' = some final ∧
      ∀ k, final.find k = (t.find k).map fun v => if select v then update v else v := by
  induction n generalizing c t' with
  | zero => exact absurd hn (Nat.not_lt_zero _)
  | succ n ih =>
    rw [updateInBatches]
    generalize hrecords :
      (ordered key t'.rows fun v => select v && c.all fun k => k < key v).take size = records
    have hrecords := hrecords.symm
    split
    · rename_i hshort
      refine ⟨_, rfl, fun k => ?_⟩
      rw [find_batch hkey h hrecords]
      refine Option.map_congr fun v hv => ?_
      split
      · rename_i hcond
        have hselect : ¬ select v = true := fun hselect => absurd
          (lt_of_notMem_batch h hrecords hv hcond.1 hcond.2 hselect).1 (Nat.ne_of_lt hshort)
        rw [if_neg hselect]
      · rfl
    · rename_i hfull
      split
      · rename_i hnone
        rw [List.getLast?_eq_none_iff.mp hnone] at hfull
        exact absurd hsize hfull
      · rename_i u hu
        refine ih (updatedTo_batch hkey h hrecords hu) (lt_of_lt_of_le ?_ (Nat.lt_succ_iff.mp hn))
        -- The last row of the batch was behind the cursor and is not behind the new one.
        obtain ⟨hmem, hp⟩ :=
          mem_ordered.mp (List.mem_of_mem_take (hrecords ▸ List.mem_of_getLast? hu))
        have hbehind := (Bool.and_eq_true_iff.mp hp).2
        have hold := (h (key u)).symm.trans (Table.find_of_mem hmem)
        simp only [hbehind, if_true, Option.map_id'] at hold
        refine length_filter_lt (k := key u) (fun k hk => ?_)
          (List.mem_filter.mpr ⟨List.mem_map_of_mem (Table.mem_of_find hold), hbehind⟩) ?_
        · cases c with
          | none => rfl
          | some k' =>
            exact decide_eq_true ((of_decide_eq_true hbehind).trans (of_decide_eq_true hk))
        · exact decide_eq_false (lt_irrefl _)

end Updates

end CiRunner.Tables
