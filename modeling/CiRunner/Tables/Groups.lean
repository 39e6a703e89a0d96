import Mathlib.Data.List.Induction
import Mathlib.Data.List.Nodup

/-! Elements grouped by a key. They are taken one by one: the first one of a key begins a group and
every later one is added to it. What a group is in the end depends only on the elements of its key,
in their order. -/

namespace CiRunner.Tables

variable {α G K : Type} [DecidableEq K] (key : α → K) (start : α → G) (add : G → α → G)

/-- One more element: it is added to the group of its key or begins one. -/
def place (groups : List (K × G)) (a : α) : List (K × G) :=
  if key a ∈ groups.map Prod.fst then
    groups.map fun group => if group.1 = key a then (group.1, add group.2 a) else group
  else groups ++ [(key a, start a)]

def collect (l : List α) : List (K × G) := l.foldl (place key start add) []

/-- The group that elements of one key make. -/
def gather : List α → Option G
  | [] => none
  | a :: l => some (l.foldl add (start a))

theorem gather_concat (l : List α) (a : α) :
    gather start add (l ++ [a]) =
      some (((gather start add l).map (add · a)).getD (start a)) := by
  cases l with
  | nil => rfl
  | cons b l => simp [gather]

theorem collect_concat (l : List α) (a : α) :
    collect key start add (l ++ [a]) = place key start add (collect key start add l) a := by
  rw [collect, List.foldl_append]
  rfl

theorem map_fst_place (groups : List (K × G)) (a : α) :
    (place key start add groups a).map Prod.fst =
      if key a ∈ groups.map Prod.fst then groups.map Prod.fst
      else groups.map Prod.fst ++ [key a] := by
  unfold place
  split
  · rw [List.map_map]
    refine List.map_congr_left fun group _ => ?_
    dsimp only [Function.comp]
    split <;> rfl
  · rw [List.map_append]
    rfl

theorem nodup_collect (l : List α) : ((collect key start add l).map Prod.fst).Nodup := by
  induction l using List.reverseRecOn with
  | nil => exact List.nodup_nil
  | append_singleton l a ih =>
    rw [collect_concat, map_fst_place]
    split
    · exact ih
    · rename_i hnew
      exact ih.append (List.nodup_singleton _) (by simpa using hnew)

theorem mem_place_self {groups : List (K × G)} {a : α} {g : G} :
    (key a, g) ∈ place key start add groups a ↔
      (∃ g₀, (key a, g₀) ∈ groups ∧ g = add g₀ a) ∨
        (¬ ∃ g₀, (key a, g₀) ∈ groups) ∧ g = start a := by
  have hkey : key a ∈ groups.map Prod.fst ↔ ∃ g₀, (key a, g₀) ∈ groups := by simp
  unfold place
  split
  · rename_i hold
    rw [hkey] at hold
    simp only [List.mem_map, Prod.exists, hold, not_true_eq_false, false_and, or_false]
    constructor
    · rintro ⟨k, g₀, hmem, heq⟩
      split at heq
      · rename_i hk
        cases hk
        cases heq
        exact ⟨g₀, hmem, rfl⟩
      · rename_i hk
        cases heq
        exact absurd rfl hk
    · rintro ⟨g₀, hmem, rfl⟩
      exact ⟨key a, g₀, hmem, if_pos rfl⟩
  · rename_i hnew
    rw [hkey] at hnew
    have hnone : ∀ g₀, (key a, g₀) ∉ groups := fun g₀ h => hnew ⟨g₀, h⟩
    simp [hnone]

theorem mem_place_of_ne {groups : List (K × G)} {a : α} {k : K} (h : key a ≠ k) {g : G} :
    (k, g) ∈ place key start add groups a ↔ (k, g) ∈ groups := by
  unfold place
  split
  · simp only [List.mem_map, Prod.exists]
    constructor
    · rintro ⟨k', g', hmem, heq⟩
      split at heq
      · rename_i hk
        cases heq
        exact absurd hk.symm h
      · cases heq
        exact hmem
    · exact fun hmem => ⟨k, g, hmem, if_neg h.symm⟩
  · simp [h.symm]

theorem mem_collect {l : List α} {k : K} {g : G} :
    (k, g) ∈ collect key start add l ↔
      gather start add (l.filter fun a => key a = k) = some g := by
  induction l using List.reverseRecOn generalizing k g with
  | nil => simp [collect, gather]
  | append_singleton l a ih =>
    rw [collect_concat, List.filter_append, List.filter_singleton]
    by_cases hk : key a = k
    · subst hk
      rw [mem_place_self, decide_eq_true rfl, cond_true, gather_concat]
      simp only [ih]
      cases gather start add (l.filter fun b => key b = key a) with
      | none => simp [eq_comm]
      | some g₀ => simp [eq_comm]
    · rw [mem_place_of_ne key start add hk, decide_eq_false hk, cond_false, List.append_nil, ih]

end CiRunner.Tables
