import Mathlib.Data.List.Nodup

/-! Making room in a table by deleting the oldest of some of its rows. The rows are
read in batches and deleted by their keys, and an account says when there is room.
What such a loop deletes is the shortest run of oldest rows that makes room. -/

namespace CiRunner.Tables

section Eviction

variable {α B K : Type} [DecidableEq K] (key : α → K) (fits : B → Bool) (pay : B → α → B)
  (own : α → Bool) (batch : ℕ)

/-- The keys of the rows of a batch that are to be deleted, and the account without them. -/
def takeBatch : B → List α → B × List K
  | b, [] => (b, [])
  | b, a :: oldest =>
    if fits b then (b, [])
    else
      let (b', keys) := takeBatch (pay b a) oldest
      (b', key a :: keys)

/-- Delete batches until there is room: nothing is returned when the fuel runs out, and
`some none` when there is no row left to delete. -/
def evictLoop : ℕ → B → List α → Option (Option (B × List α))
  | 0, _, _ => none
  | fuel + 1, b, rows =>
    if fits b then some (some (b, rows))
    else
      let oldest := (rows.filter own).take batch
      if oldest.isEmpty then some none
      else
        let (b', keys) := takeBatch key fits pay b oldest
        evictLoop fuel b' (rows.filter fun a => !(own a && keys.contains (key a)))

/-! ### What is to be deleted -/

/-- The account without the given rows. -/
def paid (b : B) (rows : List α) : B := rows.foldl pay b

/-- The least number of oldest rows whose deletion makes room. -/
structure Least (b : B) (rows : List α) (k : ℕ) : Prop where
  le : k ≤ rows.length
  room : fits (paid pay b (rows.take k)) = true
  least : ∀ j < k, fits (paid pay b (rows.take j)) = false

/-- The rows without the first ones of their kind. -/
def withoutOldest : ℕ → List α → List α
  | 0, rows => rows
  | _ + 1, [] => []
  | k + 1, a :: rows => if own a then withoutOldest k rows else a :: withoutOldest (k + 1) rows

variable {key fits pay own batch}

theorem filter_withoutOldest (k : ℕ) (rows : List α) :
    (withoutOldest own k rows).filter own = (rows.filter own).drop k := by
  fun_induction withoutOldest own k rows with
  | case1 rows => rfl
  | case2 => rfl
  | case3 k a rows hown ih => rw [ih, List.filter_cons_of_pos hown, List.drop_succ_cons]
  | case4 k a rows hown ih =>
    rw [List.filter_cons_of_neg hown, ih, List.filter_cons_of_neg hown]

theorem filter_withoutOldest_of_disjoint {p : α → Bool} (hp : ∀ a, own a = true → p a = false)
    (k : ℕ) (rows : List α) : (withoutOldest own k rows).filter p = rows.filter p := by
  fun_induction withoutOldest own k rows with
  | case1 rows => rfl
  | case2 => rfl
  | case3 k a rows hown ih => rw [ih, List.filter_cons_of_neg (by simp [hp a hown])]
  | case4 k a rows hown ih => rw [List.filter_cons, List.filter_cons, ih]

theorem withoutOldest_sublist (k : ℕ) (rows : List α) :
    (withoutOldest own k rows).Sublist rows := by
  fun_induction withoutOldest own k rows with
  | case1 rows => exact .refl _
  | case2 => exact .slnil
  | case3 k a rows _ ih => exact ih.cons a
  | case4 k a rows _ ih => exact ih.cons_cons a

theorem withoutOldest_nil (k : ℕ) : withoutOldest own k [] = [] := by
  cases k <;> rfl

theorem withoutOldest_add (j k : ℕ) (rows : List α) :
    withoutOldest own (j + k) rows = withoutOldest own k (withoutOldest own j rows) := by
  induction rows generalizing j with
  | nil => simp only [withoutOldest_nil]
  | cons a rows ih =>
    cases j with
    | zero => rw [Nat.zero_add, withoutOldest]
    | succ j =>
      rw [Nat.succ_add, withoutOldest, withoutOldest]
      split
      · exact ih j
      · rename_i hown
        have hj := ih (j + 1)
        rw [Nat.succ_add] at hj
        cases k with
        | zero => rfl
        | succ k => rw [withoutOldest, if_neg hown, hj]

theorem filter_keys (k : ℕ) {rows : List α} (h : (rows.map key).Nodup) :
    (rows.filter fun a => !(own a && (((rows.filter own).take k).map key).contains (key a))) =
      withoutOldest own k rows := by
  induction rows generalizing k with
  | nil => exact (withoutOldest_nil k).symm
  | cons a rows ih =>
    rw [List.map_cons, List.nodup_cons] at h
    have hfresh : ∀ c ∈ rows, key c ≠ key a := fun c hc he =>
      h.1 (he ▸ List.mem_map_of_mem hc)
    cases k with
    | zero => simp [withoutOldest]
    | succ k =>
      rw [withoutOldest]
      by_cases hown : own a = true
      · rw [if_pos hown, ← ih k h.2, List.filter_cons_of_neg (by simp [hown])]
        refine List.filter_congr fun c hc => ?_
        simp [List.filter_cons_of_pos hown, hfresh c hc]
      · rw [if_neg hown, ← ih (k + 1) h.2, List.filter_cons_of_pos (by simp [hown]),
          List.filter_cons_of_neg hown]

/-! ### What the loop deletes -/

omit [DecidableEq K] in
theorem takeBatch_eq (b : B) (oldest : List α) :
    ∃ j ≤ oldest.length, takeBatch key fits pay b oldest =
        (paid pay b (oldest.take j), (oldest.take j).map key) ∧
      (∀ i < j, fits (paid pay b (oldest.take i)) = false) ∧
      (j < oldest.length → fits (paid pay b (oldest.take j)) = true) := by
  induction oldest generalizing b with
  | nil => exact ⟨0, Nat.le_refl _, rfl, nofun, nofun⟩
  | cons a oldest ih =>
    by_cases hb : fits b = true
    · refine ⟨0, Nat.zero_le _, ?_, nofun, fun _ => hb⟩
      rw [takeBatch, if_pos hb]
      rfl
    · obtain ⟨j, hj, htake, hleast, hroom⟩ := ih (pay b a)
      refine ⟨j + 1, Nat.succ_le_succ hj, ?_, ?_, fun hlt => hroom (Nat.lt_of_succ_lt_succ hlt)⟩
      · rw [takeBatch, if_neg hb, htake]
        rfl
      · intro i hi
        cases i with
        | zero => exact Bool.eq_false_iff.mpr hb
        | succ i => exact hleast i (Nat.lt_of_succ_lt_succ hi)

theorem paid_take_add (b : B) (rows : List α) (j k : ℕ) :
    paid pay b (rows.take (j + k)) = paid pay (paid pay b (rows.take j)) ((rows.drop j).take k) := by
  rw [List.take_add]
  exact List.foldl_append

omit [DecidableEq K] in
theorem takeBatch_take (hbatch : 0 < batch) {b : B} {rows : List α} (hb : fits b = false)
    (hrows : rows ≠ []) :
    ∃ j ≤ rows.length, 0 < j ∧ takeBatch key fits pay b (rows.take batch) =
        (paid pay b (rows.take j), (rows.take j).map key) ∧
      ∀ i < j, fits (paid pay b (rows.take i)) = false := by
  obtain ⟨j, hj, htake, hleast, hroom⟩ := @takeBatch_eq α B K key fits pay b (rows.take batch)
  have hpos : 0 < rows.length := List.length_pos_iff.mpr hrows
  rw [List.length_take] at hj hroom
  have htaken : ∀ i ≤ j, (rows.take batch).take i = rows.take i := by
    intro i hi
    rw [List.take_take, Nat.min_eq_left (by omega)]
  refine ⟨j, by omega, ?_, ?_, ?_⟩
  · rcases Nat.eq_zero_or_pos j with rfl | hjpos
    · have hfits : fits b = true := hroom (by omega)
      rw [hb] at hfits
      cases hfits
    · exact hjpos
  · rw [htake, htaken j (Nat.le_refl _)]
  · intro i hi
    rw [← htaken i (Nat.le_of_lt hi)]
    exact hleast i hi

/-- Rows that have to be deleted, and the least number of the others. -/
theorem Least.add {b : B} {rows : List α} {j k : ℕ} (hj : j ≤ rows.length)
    (hleast : ∀ i < j, fits (paid pay b (rows.take i)) = false)
    (h : Least fits pay (paid pay b (rows.take j)) (rows.drop j) k) :
    Least fits pay b rows (j + k) where
  le := by
    have := h.le
    rw [List.length_drop] at this
    omega
  room := by
    rw [paid_take_add]
    exact h.room
  least i hi := by
    rcases Nat.lt_or_ge i j with hij | hij
    · exact hleast i hij
    · obtain ⟨i, rfl⟩ := Nat.exists_eq_add_of_le hij
      rw [paid_take_add]
      exact h.least i (by omega)

/-- With enough fuel the loop ends: it deletes no more rows than it has to, and finds no row left
only if no deletion makes room. -/
theorem evictLoop_eq (hbatch : 0 < batch) {fuel : ℕ} {b : B} {rows : List α}
    (hkeys : (rows.map key).Nodup) (hfuel : (rows.filter own).length < fuel) :
    (∃ k, Least fits pay b (rows.filter own) k ∧
      evictLoop key fits pay own batch fuel b rows =
        some (some (paid pay b ((rows.filter own).take k), withoutOldest own k rows))) ∨
    (∀ k ≤ (rows.filter own).length, fits (paid pay b ((rows.filter own).take k)) = false) ∧
      evictLoop key fits pay own batch fuel b rows = some none := by
  induction fuel generalizing b rows with
  | zero => cases hfuel
  | succ fuel ih =>
    rcases hb : fits b with _ | _
    · rw [evictLoop, hb]
      by_cases hempty : rows.filter own = []
      · simp [hempty, paid, hb]
      -- Some of the batch is deleted, and the loop goes on with fewer rows of the kind.
      obtain ⟨j, hj, hpos, htake, hleast⟩ := @takeBatch_take α B K key fits pay batch hbatch b
        (rows.filter own) hb hempty
      have hbatched : ((rows.filter own).take batch).isEmpty = false := by
        rw [List.isEmpty_eq_false_iff, ← List.length_pos_iff, List.length_take]
        omega
      simp only [hbatched, Bool.false_eq_true, if_false, htake]
      rw [filter_keys j hkeys]
      have hrest : (withoutOldest own j rows).filter own = (rows.filter own).drop j :=
        filter_withoutOldest j rows
      have hnodup : ((withoutOldest own j rows).map key).Nodup :=
        hkeys.sublist ((withoutOldest_sublist j rows).map key)
      have hless : ((withoutOldest own j rows).filter own).length < fuel := by
        rw [hrest, List.length_drop]
        omega
      obtain ⟨k, hk, hloop⟩ | ⟨hfull, hloop⟩ :=
        ih (b := paid pay b ((rows.filter own).take j)) hnodup hless
      · rw [hrest] at hk
        refine .inl ⟨j + k, hk.add hj hleast, ?_⟩
        rw [hloop, hrest, ← paid_take_add, withoutOldest_add]
      · rw [hrest] at hfull
        refine .inr ⟨fun k hk => ?_, hloop⟩
        rcases Nat.lt_or_ge k j with hkj | hkj
        · exact hleast k hkj
        · obtain ⟨k, rfl⟩ := Nat.exists_eq_add_of_le hkj
          rw [paid_take_add]
          exact hfull k (by rw [List.length_drop]; omega)
    · refine .inl ⟨0, ⟨Nat.zero_le _, hb, nofun⟩, ?_⟩
      rw [evictLoop, if_pos hb, withoutOldest]
      rfl

theorem evictLoop_sublist {fuel : ℕ} {b b' : B} {rows rows' : List α}
    (h : evictLoop key fits pay own batch fuel b rows = some (some (b', rows'))) :
    rows'.Sublist rows := by
  induction fuel generalizing b rows with
  | zero => cases h
  | succ fuel ih =>
    rw [evictLoop] at h
    split at h
    · cases h
      exact .refl _
    · dsimp only at h
      split at h
      · cases h
      · exact (ih h).trans List.filter_sublist

end Eviction

end CiRunner.Tables
