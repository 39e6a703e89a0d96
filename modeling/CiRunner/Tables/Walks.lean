import CiRunner.Tables.Pages

/-! Walks over keyset pages: each page is read behind the last row of the one before, until
there are no more. The table may change between the pages. What is read is in the order
of the keys, so no key is read twice; and a key that matches at every page is read. -/

namespace CiRunner.Tables

variable {V K C : Type} [LinearOrder K]

theorem le_of_getLast? {key : V → K} {l : List V} {v : V} (h : (l.map key).Pairwise (· < ·))
    (hv : l.getLast? = some v) : ∀ u ∈ l, key u ≤ key v := by
  obtain ⟨front, rfl⟩ := List.getLast?_eq_some_iff.mp hv
  rw [List.map_append, List.pairwise_append] at h
  intro u hu
  rcases List.mem_append.mp hu with hu | hu
  · exact (h.2.2 _ (List.mem_map_of_mem hu) _ (List.mem_singleton_self _)).le
  · rw [List.mem_singleton.mp hu]

theorem filter_behind_getLast? {key : V → K} {l : List V} {n : Nat} {v : V}
    (h : (l.map key).Pairwise (· < ·)) (hv : (l.take n).getLast? = some v) :
    l.filter (fun u => key v < key u) = l.drop n := by
  have hsplit := h
  rw [← List.take_append_drop n l, List.map_append, List.pairwise_append] at hsplit
  have hfirst : (l.take n).filter (fun u => key v < key u) = [] := by
    refine List.filter_eq_nil_iff.mpr fun u hu => ?_
    rw [decide_eq_true_eq, not_lt]
    exact le_of_getLast? hsplit.1 hv u hu
  have hrest : (l.drop n).filter (fun u => key v < key u) = l.drop n := by
    refine List.filter_eq_self.mpr fun u hu => decide_eq_true ?_
    exact hsplit.2.2 _ (List.mem_map_of_mem (List.mem_of_getLast? hv)) _ (List.mem_map_of_mem hu)
  rw [← List.take_append_drop n l, List.filter_append, List.take_append_drop, hfirst, hrest,
    List.nil_append]

theorem ordered_behind_getLast? {key : V → K} {rows : List V} {p : V → Bool} {n : Nat} {v : V}
    (h : (rows.map key).Nodup) (hv : ((ordered key rows p).take n).getLast? = some v) :
    ordered key rows (fun u => p u && key v < key u) = (ordered key rows p).drop n := by
  rw [← filter_behind_getLast? (ordered_lt h) hv,
    ← filter_ordered (p := p) h fun u _ hu => (Bool.and_eq_true_iff.mp hu).1]
  refine List.filter_congr fun u hu => ?_
  rw [(mem_ordered.mp hu).2, Bool.true_and]

omit [LinearOrder K] in
theorem length_filter_lt {keys : List K} {p q : K → Bool} {k : K}
    (himp : ∀ k, q k = true → p k = true) (hmem : k ∈ keys.filter p) (hk : q k = false) :
    (keys.filter q).length < (keys.filter p).length := by
  have hfilter : keys.filter q = (keys.filter p).filter q := by
    rw [List.filter_filter]
    refine List.filter_congr fun k _ => ?_
    cases hq : q k with
    | false => rfl
    | true => rw [himp k hq]; rfl
  rw [hfilter, List.length_filter_lt_length_iff_exists]
  exact ⟨k, hmem, Bool.eq_false_iff.mp hk⟩

/-- Read page after page, so many at most, from the page with the given number on. A page that
cannot be read ends the walk. -/
def walk (read : Nat → C → Option (List V × Bool)) (cursor : V → C) :
    Nat → Nat → C → Option (List V)
  | 0, _, _ => none
  | n + 1, i, c =>
    match read i c with
    | none => none
    | some (items, false) => some items
    | some (items, true) =>
      match items.getLast? with
      | none => none
      | some v => (walk read cursor n (i + 1) (cursor v)).map (items ++ ·)

/-- The rows that the pages of a walk end with, where there are more. -/
def walkEnds (read : Nat → C → Option (List V × Bool)) (cursor : V → C) :
    Nat → Nat → C → List V
  | 0, _, _ => []
  | n + 1, i, c =>
    match read i c with
    | some (items, true) =>
      match items.getLast? with
      | none => []
      | some v => v :: walkEnds read cursor n (i + 1) (cursor v)
    | _ => []

/-- The pages of a table that changes: those of the rows behind the cursor that match. -/
structure Keyset (key : V → K) (read : Nat → C → Option (List V × Bool)) (cursor : V → C)
    (rows : Nat → List V) (p : Nat → V → Bool) (behind : C → K → Bool) (limit : Nat) : Prop where
  nodup : ∀ i, ((rows i).map key).Nodup
  read_eq : ∀ i c, read i c = some (page key (rows i) (fun v => p i v && behind c (key v)) limit)
  /-- Behind a row are the keys above its own. -/
  behind_cursor : ∀ v k, behind (cursor v) k = decide (key v < k)
  behind_of_lt : ∀ c k k', behind c k = true → k < k' → behind c k' = true

namespace Keyset

variable {key : V → K} {read : Nat → C → Option (List V × Bool)} {cursor : V → C}
  {rows : Nat → List V} {p : Nat → V → Bool} {behind : C → K → Bool} {limit n i : Nat} {c : C}
  {l : List V} (h : Keyset key read cursor rows p behind limit)
include h

/-- The walk reads a page, and goes on behind its last row if there is one and there are more. -/
theorem walk_cases (hl : walk read cursor (n + 1) i c = some l) :
    ∃ all : List V, all = ordered key (rows i) (fun v => p i v && behind c (key v)) ∧
      (all.length ≤ limit ∧ l = all ∨
        ∃ v l', (all.take limit).getLast? = some v ∧
          walk read cursor n (i + 1) (cursor v) = some l' ∧ l = all.take limit ++ l') := by
  refine ⟨_, rfl, ?_⟩
  rw [walk, h.read_eq, page_eq] at hl
  by_cases hmore : limit < (ordered key (rows i) fun v => p i v && behind c (key v)).length
  · rw [decide_eq_true hmore] at hl
    dsimp only at hl
    split at hl
    · cases hl
    · rename_i v hv
      obtain ⟨l', hl', rfl⟩ := Option.map_eq_some_iff.mp hl
      exact .inr ⟨v, l', hv, hl', rfl⟩
  · rw [decide_eq_false hmore] at hl
    cases hl
    exact .inl ⟨not_lt.mp hmore, List.take_of_length_le (not_lt.mp hmore)⟩

/-- What is read is in the order of the keys and behind the cursor. -/
theorem sorted_walk (hl : walk read cursor n i c = some l) :
    (l.map key).Pairwise (· < ·) ∧ ∀ v ∈ l, behind c (key v) = true ∧
      ∃ j ≥ i, v ∈ rows j ∧ p j v = true := by
  induction n generalizing i c l with
  | zero => cases hl
  | succ n ih =>
    obtain ⟨all, hall, ⟨-, rfl⟩ | ⟨v, l', hv, hl', rfl⟩⟩ := h.walk_cases hl
    · subst hall
      refine ⟨ordered_lt (h.nodup i), fun v hv => ?_⟩
      obtain ⟨hmem, hp⟩ := mem_ordered.mp hv
      obtain ⟨hp, hb⟩ := Bool.and_eq_true_iff.mp hp
      exact ⟨hb, i, le_rfl, hmem, hp⟩
    · obtain ⟨hsorted, hbehind⟩ := ih hl'
      have hlt : (all.map key).Pairwise (· < ·) := hall ▸ ordered_lt (h.nodup i)
      have hpage : ∀ u ∈ all.take limit, behind c (key u) = true ∧ u ∈ rows i ∧ p i u = true := by
        intro u hu
        obtain ⟨hmem, hp⟩ := mem_ordered.mp (hall ▸ List.mem_of_mem_take hu)
        obtain ⟨hp, hb⟩ := Bool.and_eq_true_iff.mp hp
        exact ⟨hb, hmem, hp⟩
      -- The last row of the page is below what follows.
      have hsorted' : ((all.take limit).map key).Pairwise (· < ·) := by
        rw [List.map_take]
        exact hlt.sublist (List.take_sublist _ _)
      have hafter : ∀ w ∈ l', key v < key w := fun w hw =>
        of_decide_eq_true (h.behind_cursor v (key w) ▸ (hbehind w hw).1)
      constructor
      · rw [List.map_append, List.pairwise_append]
        refine ⟨hsorted', hsorted, fun a ha b hb => ?_⟩
        obtain ⟨u, hu, rfl⟩ := List.mem_map.mp ha
        obtain ⟨w, hw, rfl⟩ := List.mem_map.mp hb
        exact lt_of_le_of_lt (le_of_getLast? hsorted' hv u hu) (hafter w hw)
      · intro u hu
        rcases List.mem_append.mp hu with hu | hu
        · obtain ⟨hb, hmem, hp⟩ := hpage u hu
          exact ⟨hb, i, le_rfl, hmem, hp⟩
        · obtain ⟨-, j, hj, hmem, hp⟩ := hbehind u hu
          have hbv := (hpage v (List.mem_of_getLast? hv)).1
          exact ⟨h.behind_of_lt c _ _ hbv (hafter u hu), j, (Nat.le_succ i).trans hj, hmem, hp⟩

/-- A key that matches at every page is read. -/
theorem exists_mem_walk (hl : walk read cursor n i c = some l) {k : K} (hk : behind c k = true)
    (hmatch : ∀ j ≥ i, ∃ v ∈ rows j, key v = k ∧ p j v = true) : ∃ v ∈ l, key v = k := by
  induction n generalizing i c l with
  | zero => cases hl
  | succ n ih =>
    obtain ⟨u, hu, rfl, hp⟩ := hmatch i le_rfl
    obtain ⟨all, hall, hcases⟩ := h.walk_cases hl
    have hmem : u ∈ all := hall ▸ mem_ordered.mpr ⟨hu, by rw [hp, hk]; rfl⟩
    obtain ⟨-, rfl⟩ | ⟨v, l', hv, hl', rfl⟩ := hcases
    · exact ⟨u, hmem, rfl⟩
    · -- The key is on the page, or behind its last row.
      by_cases hle : key u ≤ key v
      · have hlt : (all.map key).Pairwise (· < ·) := hall ▸ ordered_lt (h.nodup i)
        have hvkey : key v ∈ (all.map key).take limit := by
          rw [← List.map_take]
          exact List.mem_map_of_mem (List.mem_of_getLast? hv)
        have hukey := mem_take_of_le hlt (List.mem_map_of_mem hmem) hvkey hle
        rw [← List.map_take] at hukey
        obtain ⟨w, hw, hkey⟩ := List.mem_map.mp hukey
        exact ⟨w, List.mem_append_left _ hw, hkey⟩
      · have hbehind : behind (cursor v) (key u) = true := by
          rw [h.behind_cursor]
          exact decide_eq_true (not_le.mp hle)
        obtain ⟨w, hw, hkey⟩ := ih hl' hbehind fun j hj => hmatch j ((Nat.le_succ i).trans hj)
        exact ⟨w, List.mem_append_right _ hw, hkey⟩

/-- The walk ends where the keys that match are among finitely many: every page but the last passes
one of them. -/
theorem exists_walk (hlimit : 0 < limit) (keys : List K)
    (hkeys : ∀ j ≥ i, ∀ v ∈ rows j, p j v = true → behind c (key v) = true → key v ∈ keys)
    (hn : (keys.filter (behind c)).length < n) : ∃ l, walk read cursor n i c = some l := by
  induction n generalizing i c with
  | zero => exact absurd hn (Nat.not_lt_zero _)
  | succ n ih =>
    rw [walk, h.read_eq, page_eq]
    by_cases hmore : limit < (ordered key (rows i) fun v => p i v && behind c (key v)).length
    · rw [decide_eq_true hmore]
      dsimp only
      split
      · rename_i hnone
        rw [List.getLast?_eq_none_iff, List.take_eq_nil_iff] at hnone
        rcases hnone with hzero | hnil
        · omega
        · rw [hnil] at hmore
          exact absurd hmore (Nat.not_lt_zero _)
      · rename_i v hv
        obtain ⟨hmem, hp⟩ := mem_ordered.mp (List.mem_of_mem_take (List.mem_of_getLast? hv))
        obtain ⟨hp, hb⟩ := Bool.and_eq_true_iff.mp hp
        have hbehind : ∀ k, behind (cursor v) k = true → behind c k = true := fun k hk =>
          h.behind_of_lt c _ _ hb (of_decide_eq_true (h.behind_cursor v k ▸ hk))
        have hfewer : (keys.filter (behind (cursor v))).length < n := by
          refine lt_of_lt_of_le (length_filter_lt (k := key v) hbehind ?_ ?_) (Nat.lt_succ_iff.mp hn)
          · exact List.mem_filter.mpr ⟨hkeys i le_rfl v hmem hp hb, hb⟩
          · rw [h.behind_cursor, decide_eq_false (lt_irrefl _)]
        obtain ⟨l, hl⟩ := ih (fun j hj u hu hpu hbu =>
          hkeys j ((Nat.le_succ i).trans hj) u hu hpu (hbehind _ hbu)) hfewer
        exact ⟨_, by rw [hl]; rfl⟩
    · rw [decide_eq_false hmore]
      exact ⟨_, rfl⟩

/-- A walk over a table that stays as it is reads all the rows behind the cursor that match. -/
theorem walk_eq_ordered (hlimit : 0 < limit) {all : List V}
    (hrows : ∀ j, ordered key (rows j) (fun v => p j v && behind c (key v)) = all)
    (hn : all.length < n) : walk read cursor n i c = some all := by
  have hmem : ∀ j v, v ∈ rows j → p j v = true → behind c (key v) = true → v ∈ all :=
    fun j v hv hp hb => hrows j ▸ mem_ordered.mpr ⟨hv, by rw [hp, hb]; rfl⟩
  obtain ⟨l, hl⟩ := h.exists_walk hlimit (all.map key) (n := n) (i := i)
    (fun j _ v hv hp hb => List.mem_map_of_mem (hmem j v hv hp hb))
    (lt_of_le_of_lt (List.length_filter_le _ _) (by rwa [List.length_map]))
  obtain ⟨hsorted, hread⟩ := h.sorted_walk hl
  have hall : (all.map key).Pairwise (· < ·) := hrows 0 ▸ ordered_lt (h.nodup 0)
  have hsub : ∀ v ∈ l, v ∈ all := by
    intro v hv
    obtain ⟨hb, j, -, hmemj, hp⟩ := hread v hv
    exact hmem j v hmemj hp hb
  have hsup : ∀ v ∈ all, v ∈ l := by
    intro v hv
    have hmatch : ∀ j, (v ∈ rows j ∧ p j v = true) ∧ behind c (key v) = true := by
      intro j
      rw [← hrows j, mem_ordered, Bool.and_eq_true_iff] at hv
      exact ⟨⟨hv.1, hv.2.1⟩, hv.2.2⟩
    obtain ⟨w, hw, hkey⟩ := h.exists_mem_walk hl (hmatch 0).2 fun j _ =>
      ⟨v, (hmatch j).1.1, rfl, (hmatch j).1.2⟩
    have hnodup : (all.map key).Nodup := hall.imp ne_of_lt
    exact List.inj_on_of_nodup_map hnodup (hsub w hw) hv hkey ▸ hw
  rw [hl, eq_of_sorted hsorted hall fun v => ⟨hsub v, hsup v⟩]

end Keyset

end CiRunner.Tables
