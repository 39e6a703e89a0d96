import Mathlib.Algebra.BigOperators.Group.List.Basic
import Mathlib.Algebra.GroupWithZero.Nat
import Mathlib.Data.List.Dedup
import CiRunner.Tables.Pages

/-! Queries in batches: a condition is a disjunction of branches that no row meets two of,
and each branch is a query of its own. The counts of the branches add up, and the first
rows of all the branches, merged, begin with the first rows of the whole. -/

namespace CiRunner.Tables

variable {V K : Type} [LinearOrder K]

/-! ### Chunks -/

/-- The list in parts of `n` elements; the first number is at least the length of the list. -/
def chunks {α : Type} (n : Nat) : Nat → List α → List (List α)
  | 0, _ => []
  | _ + 1, [] => []
  | fuel + 1, a :: l => (a :: l).take n :: chunks n fuel ((a :: l).drop n)

theorem flatten_chunks {α : Type} {n : Nat} (hn : 0 < n) :
    ∀ (fuel : Nat) {l : List α}, l.length ≤ fuel → (chunks n fuel l).flatten = l
  | 0, [], _ => rfl
  | _ + 1, [], _ => rfl
  | fuel + 1, a :: l, h => by
    have hlen : ((a :: l).drop n).length ≤ fuel := by
      rw [List.length_drop]
      simp only [List.length_cons] at h ⊢
      omega
    rw [chunks, List.flatten_cons, flatten_chunks hn fuel hlen, List.take_append_drop]

theorem length_of_mem_chunks {α : Type} {n : Nat} :
    ∀ {fuel : Nat} {l c : List α}, c ∈ chunks n fuel l → c.length ≤ n
  | fuel + 1, a :: l, c, h => by
    rcases List.mem_cons.mp h with rfl | h
    · exact List.length_take_le _ _
    · exact length_of_mem_chunks h

/-! ### Disjoint branches -/

/-- No row meets two of the conditions. -/
def DisjointBranches (rows : List V) (branches : List (V → Bool)) : Prop :=
  branches.Pairwise fun p q => ∀ v ∈ rows, ¬ (p v = true ∧ q v = true)

theorem countP_or {rows : List V} {p q : V → Bool}
    (h : ∀ v ∈ rows, ¬ (p v = true ∧ q v = true)) :
    rows.countP (fun v => p v || q v) = rows.countP p + rows.countP q := by
  induction rows with
  | nil => rfl
  | cons v rows ih =>
    obtain ⟨hv, h⟩ := List.forall_mem_cons.mp h
    rw [List.countP_cons, List.countP_cons, List.countP_cons, ih h]
    cases hp : p v <;> cases hq : q v <;> simp_all <;> omega

/-- The rows that meet one of the branches are counted branch by branch. -/
theorem sum_countP {rows : List V} :
    ∀ {branches : List (V → Bool)}, DisjointBranches rows branches →
      (branches.map fun p => rows.countP p).sum = rows.countP fun v => branches.any (· v)
  | [], _ => by simp
  | p :: branches, h => by
    obtain ⟨hp, h⟩ := List.pairwise_cons.mp h
    rw [List.map_cons, List.sum_cons, sum_countP h, ← countP_or]
    · simp only [List.any_cons]
    · rintro v hv ⟨hpv, hany⟩
      obtain ⟨q, hq, hqv⟩ := List.any_eq_true.mp hany
      exact hp q hq v hv ⟨hpv, hqv⟩

theorem length_ordered (key : V → K) (rows : List V) (p : V → Bool) :
    (ordered key rows p).length = rows.countP p := by
  rw [ordered, List.length_insertionSort, List.countP_eq_length_filter]

section Merge

variable (key : V → K)

/-- The rows of the branches, each row once, in the order of their keys. -/
def merged [DecidableEq V] (rows : List V) (branches : List (V → Bool)) (limit : Nat) : List V :=
  ordered key (branches.flatMap fun p => (ordered key rows p).take limit).dedup fun _ => true

variable {key} [DecidableEq V] {rows : List V} {branches : List (V → Bool)} {limit : Nat}

theorem mem_merged {v : V} : v ∈ merged key rows branches limit ↔
    ∃ p ∈ branches, v ∈ (ordered key rows p).take limit := by
  rw [merged, mem_ordered, List.mem_dedup, List.mem_flatMap]
  simp

theorem mem_rows_of_mem_merged {v : V} (h : v ∈ merged key rows branches limit) :
    v ∈ rows ∧ (branches.any (· v)) = true := by
  obtain ⟨p, hp, hv⟩ := mem_merged.mp h
  obtain ⟨hv, hpv⟩ := mem_ordered.mp (List.mem_of_mem_take hv)
  exact ⟨hv, List.any_eq_true.mpr ⟨p, hp, hpv⟩⟩

theorem merged_lt (h : (rows.map key).Nodup) :
    ((merged key rows branches limit).map key).Pairwise (· < ·) := by
  refine ordered_lt (List.Nodup.map_on (fun u hu v hv hkey => ?_) (List.nodup_dedup _))
  have hrow : ∀ w ∈ (branches.flatMap fun p => (ordered key rows p).take limit).dedup,
      w ∈ rows := fun w hw => by
    have hmerged : w ∈ merged key rows branches limit := mem_ordered.mpr ⟨hw, rfl⟩
    exact (mem_rows_of_mem_merged hmerged).1
  exact List.inj_on_of_nodup_map h (hrow u hu) (hrow v hv) hkey

theorem merged_eq_filter (h : (rows.map key).Nodup) : merged key rows branches limit =
    (ordered key rows fun v => branches.any (· v)).filter
      fun v => decide (v ∈ merged key rows branches limit) := by
  refine eq_of_sorted (merged_lt h) ?_ fun v => ?_
  · exact (ordered_lt h).sublist (List.filter_sublist.map key)
  · rw [List.mem_filter, mem_ordered, decide_eq_true_eq]
    exact ⟨fun hv => ⟨mem_rows_of_mem_merged hv, hv⟩, And.right⟩

/-- The first rows of what is merged are the first rows of the whole. -/
theorem take_merged (h : (rows.map key).Nodup) : (merged key rows branches limit).take limit =
    (ordered key rows fun v => branches.any (· v)).take limit := by
  rw [merged_eq_filter h]
  refine take_filter_of_forall fun v hv => ?_
  obtain ⟨hmem, hany⟩ := mem_ordered.mp (List.mem_of_mem_take hv)
  obtain ⟨p, hp, hpv⟩ := List.any_eq_true.mp hany
  have hbranch : (ordered key rows fun v => branches.any (· v)).filter p = ordered key rows p :=
    filter_ordered h fun u _ hu => List.any_eq_true.mpr ⟨p, hp, hu⟩
  have hfirst := mem_take_filter (p := p) hv hpv
  rw [hbranch] at hfirst
  exact decide_eq_true (mem_merged.mpr ⟨p, hp, hfirst⟩)

theorem length_merged_le (h : (rows.map key).Nodup) : (merged key rows branches limit).length ≤
    (ordered key rows fun v => branches.any (· v)).length := by
  rw [merged_eq_filter h]
  exact List.length_filter_le _ _

end Merge

end CiRunner.Tables
