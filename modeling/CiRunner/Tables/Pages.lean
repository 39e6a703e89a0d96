import Mathlib.Data.List.Sort

/-! Keyset pages: the rows behind a cursor that match, in the order of their keys, up to
a limit. A page is an initial segment of all of them, and bounding the branches of a
disjunction before they are merged does not change it. -/

namespace CiRunner.Tables

variable {V K : Type} [LinearOrder K]

/-! ### Initial segments of sorted lists -/

theorem mem_take_of_le {l : List K} (h : l.Pairwise (· < ·)) {n : Nat} {a b : K} (ha : a ∈ l)
    (hb : b ∈ l.take n) (hle : a ≤ b) : a ∈ l.take n := by
  induction l generalizing n with
  | nil => cases ha
  | cons c l ih =>
    cases n with
    | zero => cases hb
    | succ n =>
      rw [List.take_succ_cons, List.mem_cons] at hb ⊢
      obtain ⟨hc, hl⟩ := List.pairwise_cons.mp h
      rcases List.mem_cons.mp ha with rfl | ha
      · exact .inl rfl
      · rcases hb with hbc | hb
        · exact absurd (hc a ‹a ∈ l›) (not_lt.mpr (hbc ▸ hle))
        · exact .inr (ih hl ‹a ∈ l› hb)

theorem mem_take_filter {α : Type} {l : List α} {p : α → Bool} {n : Nat} {a : α}
    (ha : a ∈ l.take n) (hp : p a = true) : a ∈ (l.filter p).take n := by
  induction l generalizing n with
  | nil => simp at ha
  | cons b l ih =>
    cases n with
    | zero => simp at ha
    | succ n =>
      rw [List.take_succ_cons, List.mem_cons] at ha
      by_cases hb : p b = true
      · rw [List.filter_cons_of_pos hb, List.take_succ_cons, List.mem_cons]
        exact ha.imp_right ih
      · rw [List.filter_cons_of_neg hb]
        rcases ha with rfl | ha
        · exact absurd hp hb
        · exact List.take_subset_take_left _ (Nat.le_succ n) (ih ha)

theorem take_filter_of_forall {α : Type} {l : List α} {p : α → Bool} {n : Nat}
    (h : ∀ a ∈ l.take n, p a = true) : (l.filter p).take n = l.take n := by
  induction l generalizing n with
  | nil => rfl
  | cons a l ih =>
    cases n with
    | zero => rfl
    | succ n =>
      rw [List.take_succ_cons] at h ⊢
      rw [List.filter_cons_of_pos (h a List.mem_cons_self), List.take_succ_cons,
        ih fun b hb => h b (List.mem_cons_of_mem a hb)]

/-- What does not come among the first of a sorted list comes after all of them, and there are as
many as there may be. -/
theorem le_of_not_mem_take {α : Type} {l : List α} {key : α → K}
    (h : l.Pairwise fun a b => key a ≤ key b) {n : Nat} {a : α} (ha : a ∈ l)
    (hn : a ∉ l.take n) : (l.take n).length = n ∧ ∀ b ∈ l.take n, key b ≤ key a := by
  induction l generalizing n with
  | nil => cases ha
  | cons c l ih =>
    cases n with
    | zero => simp
    | succ n =>
      rw [List.take_succ_cons, List.mem_cons, not_or] at hn
      obtain ⟨hc, hl⟩ := List.pairwise_cons.mp h
      have hal : a ∈ l := (List.mem_cons.mp ha).resolve_left hn.1
      obtain ⟨hlen, hle⟩ := ih hl hal hn.2
      rw [List.take_succ_cons]
      refine ⟨by rw [List.length_cons, hlen], fun b hb => ?_⟩
      rcases List.mem_cons.mp hb with rfl | hb
      · exact hc a hal
      · exact hle b hb

theorem eq_of_sorted {key : V → K} {l l' : List V} (hl : (l.map key).Pairwise (· < ·))
    (hl' : (l'.map key).Pairwise (· < ·)) (h : ∀ v, v ∈ l ↔ v ∈ l') : l = l' := by
  have hnodup : ∀ l : List V, (l.map key).Pairwise (· < ·) → l.Nodup := fun l h =>
    List.Nodup.of_map key (h.imp ne_of_lt)
  have hperm : l.Perm l' := (List.perm_ext_iff_of_nodup (hnodup l hl) (hnodup l' hl')).mpr h
  have : Std.Antisymm fun a b : V => key a < key b := ⟨fun _ _ hab hba => absurd hba hab.asymm⟩
  exact hperm.eq_of_pairwise' (List.pairwise_map.mp hl) (List.pairwise_map.mp hl')

/-! ### Pages -/

section Pages

variable (key : V → K)

/-- The rows that match, in the order of their keys. -/
def ordered (rows : List V) (p : V → Bool) : List V :=
  (rows.filter p).insertionSort fun a b => key a ≤ key b

/-- The first rows up to the limit, and whether there are more. One row more than the limit is
read. -/
def page (rows : List V) (p : V → Bool) (limit : Nat) : List V × Bool :=
  let records := (ordered key rows p).take (limit + 1)
  if limit < records.length then (records.take limit, true) else (records, false)

/-- The keys of the first rows, one more than the limit. -/
def candidates (rows : List V) (p : V → Bool) (limit : Nat) : List K :=
  ((ordered key rows p).take (limit + 1)).map key

variable {key} {rows : List V} {p q : V → Bool} {limit : Nat}

theorem mem_ordered {v : V} : v ∈ ordered key rows p ↔ v ∈ rows ∧ p v = true := by
  rw [ordered, List.mem_insertionSort, List.mem_filter]

theorem nodup_keys_ordered (h : (rows.map key).Nodup) : ((ordered key rows p).map key).Nodup := by
  have hperm := (List.perm_insertionSort (fun a b => key a ≤ key b) (rows.filter p)).map key
  exact hperm.nodup_iff.mpr (h.sublist (List.filter_sublist.map key))

theorem ordered_lt (h : (rows.map key).Nodup) :
    ((ordered key rows p).map key).Pairwise (· < ·) := by
  have hle : ((ordered key rows p).map key).Pairwise (· ≤ ·) := by
    rw [List.pairwise_map]
    exact List.pairwise_insertionSort _ _
  exact (hle.and (nodup_keys_ordered h)).imp fun ⟨hab, hne⟩ => lt_of_le_of_ne hab hne

theorem page_eq : page key rows p limit =
    ((ordered key rows p).take limit, decide (limit < (ordered key rows p).length)) := by
  unfold page
  dsimp only
  rw [List.length_take]
  by_cases h : limit < (ordered key rows p).length
  · rw [if_pos (by omega), List.take_take, min_eq_left (Nat.le_succ limit), decide_eq_true h]
  · rw [if_neg (by omega), List.take_of_length_le (by omega), List.take_of_length_le (by omega),
      decide_eq_false h]

theorem ordered_congr (h : ∀ v ∈ rows, p v = q v) : ordered key rows p = ordered key rows q := by
  rw [ordered, ordered, List.filter_congr h]

theorem page_congr
    (h : (ordered key rows p).take (limit + 1) = (ordered key rows q).take (limit + 1)) :
    page key rows p limit = page key rows q limit := by
  rw [page, page, h]

theorem filter_ordered (h : (rows.map key).Nodup)
    (hq : ∀ v ∈ rows, q v = true → p v = true) :
    (ordered key rows p).filter q = ordered key rows q := by
  refine eq_of_sorted ((ordered_lt h).sublist (List.filter_sublist.map key)) (ordered_lt h) ?_
  intro v
  rw [List.mem_filter, mem_ordered, mem_ordered]
  exact ⟨fun ⟨⟨hv, _⟩, hqv⟩ => ⟨hv, hqv⟩, fun ⟨hv, hqv⟩ => ⟨⟨hv, hq v hv hqv⟩, hqv⟩⟩

/-- The rows behind the cursor whose keys are among the candidates of the branches of a condition
are, up to one more than the limit, those that meet it. -/
theorem take_ordered_candidates {branches : List (V → Bool)} {behind : V → Bool}
    (h : (rows.map key).Nodup) (hp : ∀ v, p v = true ↔ ∃ b ∈ branches, b v = true) :
    (ordered key rows fun v => decide (key v ∈ branches.flatMap fun b =>
        candidates key rows (fun v => b v && behind v) limit) && behind v).take (limit + 1) =
      (ordered key rows fun v => p v && behind v).take (limit + 1) := by
  rw [← filter_ordered (p := fun v => p v && behind v) h ?_]
  · refine take_filter_of_forall fun a ha => ?_
    obtain ⟨hpa, hbehind⟩ := Bool.and_eq_true_iff.mp (mem_ordered.mp (List.mem_of_mem_take ha)).2
    obtain ⟨b, hb, hba⟩ := (hp a).mp hpa
    have hmem := mem_take_filter (p := fun v => b v && behind v) ha (by simp [hba, hbehind])
    rw [filter_ordered h ?_] at hmem
    · have hkey : key a ∈ branches.flatMap fun b =>
          candidates key rows (fun v => b v && behind v) limit :=
        List.mem_flatMap.mpr ⟨b, hb, List.mem_map_of_mem hmem⟩
      simp [hkey, hbehind]
    · intro v _ hv
      obtain ⟨hbv, hbehind⟩ := Bool.and_eq_true_iff.mp hv
      simp [(hp v).mpr ⟨b, hb, hbv⟩, hbehind]
  · intro v hv hmem
    obtain ⟨hmem, hbehind⟩ := Bool.and_eq_true_iff.mp hmem
    obtain ⟨b, hb, hmem⟩ := List.mem_flatMap.mp (of_decide_eq_true hmem)
    obtain ⟨w, hw, hkey⟩ := List.mem_map.mp hmem
    obtain ⟨hw, hbw⟩ := mem_ordered.mp (List.mem_of_mem_take hw)
    rw [List.inj_on_of_nodup_map h hw hv hkey] at hbw
    simp [(hp v).mpr ⟨b, hb, (Bool.and_eq_true_iff.mp hbw).1⟩, hbehind]

end Pages

end CiRunner.Tables
