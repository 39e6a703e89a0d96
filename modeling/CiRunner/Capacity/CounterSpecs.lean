import CiRunner.Capacity.Admission

/-! What observing, reserving and finishing do to the value of each counter. A
counter that has no entry counts as zero, so an observation changes no value: the
entries it creates are zero. -/

namespace CiRunner.Capacity

open Refcount

/-- The value of a key's counter. -/
def tallyAt (R : Registry CounterKey Tally) (k : CounterKey) : Tally :=
  match R.entries k with
  | none => ⟨0, 0⟩
  | some p => (R.cells p).value

theorem tallyAt_of_entries {R : Registry CounterKey Tally} {k : CounterKey} {p : Nat}
    (h : R.entries k = some p) : tallyAt R k = (R.cells p).value := by
  simp [tallyAt, h]

/-- One more reader, or one less, for the keys of a list. -/
def addKeys (n : CounterKey → Nat) (ks : List CounterKey) (k : CounterKey) : Nat :=
  n k + if k ∈ ks then 1 else 0

@[simp] theorem addKeys_nil (n : CounterKey → Nat) : addKeys n [] = n := by
  funext k; simp [addKeys]

def dropKeys (n : CounterKey → Nat) (ks : List CounterKey) (k : CounterKey) : Nat :=
  n k - if k ∈ ks then 1 else 0

@[simp] theorem dropKeys_nil (n : CounterKey → Nat) : dropKeys n [] = n := by
  funext k; simp [dropKeys]

/-- The snapshots name the cells that the keys stand for. -/
def Current (R : Registry CounterKey Tally) (ms : List CounterSnapshot) : Prop :=
  ∀ m ∈ ms, R.entries m.key = some m.cell

/-! ### Observing -/

/-- Retain the counters of a list of keys. -/
def retainAll (R : Registry CounterKey Tally) :
    List CounterKey → Registry CounterKey Tally × List CounterSnapshot
  | [] => (R, [])
  | k :: ks =>
    let (R', m) := retainCounter R k
    let (R'', ms) := retainAll R' ks
    (R'', m :: ms)

theorem observe_eq (c : RunnerAdmissionCapacity) (req : RunnerRequest) (profileName : String) :
    ((observe c req profileName).1.counters, (observe c req profileName).2.counters) =
      retainAll c.counters (counterKeys req profileName) := by
  unfold observe counterKeys RunnerCapacityObservation.counters retainCounterUnlessEmpty
  by_cases ha : runnerRepositoryOwner req.repositoryFullName = "" <;>
    by_cases hr : normalizeRunnerRepository req.repositoryFullName = "" <;>
    simp [ha, hr, retainAll]

theorem counterKeys_nodup (req : RunnerRequest) (profileName : String) :
    (counterKeys req profileName).Nodup := by
  unfold counterKeys
  by_cases ha : runnerRepositoryOwner req.repositoryFullName = "" <;>
    by_cases hr : normalizeRunnerRepository req.repositoryFullName = "" <;>
    simp [ha, hr]

theorem tallyAt_retainCounter {R : Registry CounterKey Tally} {n : CounterKey → Nat}
    (h : R.Ordered n) (k l : CounterKey) : tallyAt (retainCounter R k).1 l = tallyAt R l := by
  simp only [retainCounter]
  rcases hl : R.entries l with _ | p
  · by_cases hlk : l = k
    · subst hlk
      have hv := Registry.retain_value_self ⟨0, 0⟩ R l
      simp only [hl, reduceCtorEq, true_and, false_or] at hv
      rw [tallyAt_of_entries (Registry.retain_entries_self _ R l), hv]
      simp [tallyAt, hl]
    · simp [tallyAt, Registry.retain_entries_ne _ R hlk, hl]
  · rw [tallyAt_of_entries (Registry.retain_entries_of_some _ R hl), h.retain_value _ k hl,
      tallyAt_of_entries hl]

/-- What a snapshot says about the registry it was taken from. -/
structure Snapped (R : Registry CounterKey Tally) (m : CounterSnapshot) : Prop where
  started : m.started = (tallyAt R m.key).started
  pending : m.pending = (tallyAt R m.key).pending

theorem retainCounter_snapped {R : Registry CounterKey Tally} {n : CounterKey → Nat}
    (h : R.Ordered n) (k : CounterKey) : Snapped R (retainCounter R k).2 := by
  have he := Registry.retain_entries_self (⟨0, 0⟩ : Tally) R k
  have ht : tallyAt R k = ((retainCounter R k).1.cells (R.retain ⟨0, 0⟩ k).2).value :=
    (tallyAt_retainCounter h k k).symm.trans (tallyAt_of_entries he)
  exact ⟨congrArg Tally.started ht.symm, congrArg Tally.pending ht.symm⟩

/-- Retaining the counters of different keys. -/
structure RetainedAll (R R' : Registry CounterKey Tally) (n : CounterKey → Nat)
    (ks : List CounterKey) (ms : List CounterSnapshot) : Prop where
  ordered : R'.Ordered (addKeys n ks)
  keys : ms.map (·.key) = ks
  current : Current R' ms
  kept : ∀ {k p}, R.entries k = some p → R'.entries k = some p
  tally : ∀ k, tallyAt R' k = tallyAt R k
  snapped : ∀ m ∈ ms, Snapped R m

theorem retainAll_spec : ∀ {ks : List CounterKey} {R : Registry CounterKey Tally}
    {n : CounterKey → Nat}, R.Ordered n → ks.Nodup →
    RetainedAll R (retainAll R ks).1 n ks (retainAll R ks).2
  | [], R, n, h, _ => by
    refine ⟨?_, rfl, by simp [Current, retainAll], id, fun _ => rfl, by simp [retainAll]⟩
    simpa [retainAll] using h
  | k :: ks, R, n, h, hnd => by
    obtain ⟨hk, hks⟩ := List.nodup_cons.mp hnd
    have ho : (retainCounter R k).1.Ordered _ := h.retain ⟨0, 0⟩ k
    have ih := retainAll_spec ho hks
    refine ⟨?_, ?_, ?_, fun hl => ih.kept (Registry.retain_entries_of_some _ R hl), fun l => ?_, ?_⟩
    · have hn : addKeys (Function.update n k (n k + 1)) ks = addKeys n (k :: ks) := by
        funext l
        by_cases hlk : l = k
        · subst hlk; simp [addKeys, hk]
        · simp [addKeys, hlk]
      exact hn ▸ ih.ordered
    · simpa [retainAll] using ⟨rfl, ih.keys⟩
    · intro m hm
      rcases List.mem_cons.mp hm with rfl | hm
      · exact ih.kept (Registry.retain_entries_self _ R k)
      · exact ih.current m hm
    · exact (ih.tally l).trans (tallyAt_retainCounter h k l)
    · intro m hm
      rcases List.mem_cons.mp hm with rfl | hm
      · exact retainCounter_snapped h k
      · have hs := ih.snapped m hm
        exact ⟨by rw [hs.started, tallyAt_retainCounter h], by
          rw [hs.pending, tallyAt_retainCounter h]⟩

/-- A new observation: it agrees with the counters, and no counter has changed its value. -/
structure Observed (c c' : RunnerAdmissionCapacity) (o : RunnerCapacityObservation)
    (n : CounterKey → Nat) (ks : List CounterKey) : Prop where
  started : c'.started = c.started
  pending : c'.pending = c.pending
  obsStarted : o.started = c.started
  obsPending : o.pending = c.pending
  reserved : o.reserved = false
  retained : RetainedAll c.counters c'.counters n ks o.counters

theorem observe_spec {c : RunnerAdmissionCapacity} {n : CounterKey → Nat}
    (h : c.counters.Ordered n) (req : RunnerRequest) (profileName : String) :
    Observed c (observe c req profileName).1 (observe c req profileName).2 n
      (counterKeys req profileName) := by
  have hr := retainAll_spec h (counterKeys_nodup req profileName)
  obtain ⟨h1, h2⟩ := Prod.ext_iff.mp (observe_eq c req profileName)
  simp only at h1 h2
  refine ⟨?_, ?_, ?_, ?_, ?_, by rw [h1, h2]; exact hr⟩ <;> simp only [observe]

/-! ### Changing the counters of an observation -/

theorem modifyCounters_spec (f : Tally → Tally) : ∀ {ms : List CounterSnapshot}
    {R : Registry CounterKey Tally} {n : CounterKey → Nat}, R.Ordered n → Current R ms →
    (ms.map (·.key)).Nodup →
    (modifyCounters f R ms).Ordered n ∧ (modifyCounters f R ms).entries = R.entries ∧
      ∀ k, tallyAt (modifyCounters f R ms) k =
        if k ∈ ms.map (·.key) then f (tallyAt R k) else tallyAt R k
  | [], R, n, h, _, _ => ⟨h, rfl, fun k => by simp [modifyCounters]⟩
  | m :: ms, R, n, h, hc, hnd => by
    have hm := hc m (List.mem_cons_self ..)
    obtain ⟨hk, hks⟩ := List.nodup_cons.mp hnd
    obtain ⟨io, ie, it⟩ := modifyCounters_spec f (h.modify f m.cell)
      (fun a ha => hc a (List.mem_cons_of_mem _ ha)) hks
    refine ⟨io, ie, fun k => ?_⟩
    -- the one key whose cell is changed first is not among the rest
    have h1 : tallyAt (R.modify f m.cell) k =
        if k = m.key then f (tallyAt R k) else tallyAt R k := by
      rcases hkk : R.entries k with _ | p
      · have hne : k ≠ m.key := by rintro rfl; simp [hm] at hkk
        simp [tallyAt, hkk, hne]
      · have hp : p = m.cell ↔ k = m.key := by
          constructor
          · rintro rfl; exact h.injective hkk hm
          · rintro rfl; exact Option.some.inj (hkk.symm.trans hm)
        simp [tallyAt, hkk, Registry.modify_value, hp]
    refine (it k).trans ?_
    rw [h1]
    by_cases hkm : k = m.key
    · subst hkm
      have hnot : ¬∃ a ∈ ms, a.key = m.key := by simpa using hk
      simp [hnot]
    · simp [hkm]

/-! ### Releasing the counters of an observation -/

/-- Releasing the counters of different keys: an entry that another reader holds, or that is
not released, stays what it was. -/
theorem releaseCounters_spec : ∀ {ms : List CounterSnapshot} {R : Registry CounterKey Tally}
    {n : CounterKey → Nat}, R.Ordered n → Current R ms → (ms.map (·.key)).Nodup →
    (releaseCounters R ms).Ordered (dropKeys n (ms.map (·.key))) ∧
      (∀ p, ((releaseCounters R ms).cells p).value = (R.cells p).value) ∧
      ∀ k, k ∉ ms.map (·.key) ∨ 1 < n k → (releaseCounters R ms).entries k = R.entries k
  | [], R, n, h, _, _ => by
    refine ⟨?_, fun _ => rfl, fun _ _ => rfl⟩
    simpa [releaseCounters] using h
  | m :: ms, R, n, h, hc, hnd => by
    have hm := hc m (List.mem_cons_self ..)
    obtain ⟨hk, hks⟩ := List.nodup_cons.mp hnd
    have hne : ∀ a ∈ ms, a.key ≠ m.key := by
      intro a ha he
      exact hk (List.mem_map.mpr ⟨a, ha, he⟩)
    have hcur : Current (R.release m.key m.cell) ms := by
      intro a ha
      rw [Registry.release_entries_ne R _ (hne a ha)]
      exact hc a (List.mem_cons_of_mem _ ha)
    obtain ⟨io, iv, ie⟩ := releaseCounters_spec (h.release hm) hcur hks
    refine ⟨?_, fun p => (iv p).trans (by simp), fun k hkk => ?_⟩
    · have hn : dropKeys (Function.update n m.key (n m.key - 1)) (ms.map (·.key)) =
          dropKeys n ((m :: ms).map (·.key)) := by
        funext l
        by_cases hl : l = m.key
        · subst hl
          have hnot : ¬∃ a ∈ ms, a.key = m.key := by simpa using hk
          simp [dropKeys, hnot]
        · simp [dropKeys, hl]
      exact hn ▸ io
    · by_cases hkm : k = m.key
      · subst hkm
        have hlt : 1 < n m.key := by simpa using hkk
        exact (ie m.key (.inl hk)).trans ((h.release_entries_self hm hlt).trans hm.symm)
      · refine (ie k ?_).trans (Registry.release_entries_ne R _ hkm)
        rcases hkk with hkk | hkk
        · exact .inl fun hmem => hkk (List.mem_cons_of_mem _ hmem)
        · exact .inr (by simpa [hkm] using hkk)

end CiRunner.Capacity
