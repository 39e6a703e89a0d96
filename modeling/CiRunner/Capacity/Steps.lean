import CiRunner.Capacity.Invariant

/-! Each call keeps the invariant, and adds to no scope that another start follows
more than it starts there. -/

namespace CiRunner.Capacity

open Refcount Threads CiRunner.State

variable {cfg : Settings}

/-! ### Calls that change rows only -/

theorem inv_rows {s : State} {rows : List Row} (h : Inv cfg s)
    (hle : ∀ σ, ({ s with rows := rows } : State).inFlightCount cfg σ ≤ s.inFlightCount cfg σ) :
    Inv cfg { s with rows := rows } ∧ ∀ σ, Within cfg s { s with rows := rows } σ := by
  have hw : ∀ σ, Within cfg s { s with rows := rows } σ := fun σ => within_of_eq rfl rfl (hle σ)
  refine ⟨⟨h.ordered, h.current, h.distinct, h.pending, h.settledFirst,
    fun a ha hl σ hσ => (h.marked a ha hl σ hσ).within (hw σ), fun σ hσ => ?_⟩, hw⟩
  have hb := h.bounded σ hσ
  have hl := (hw σ).load
  have ht : ({ s with rows := rows } : State).tally σ = s.tally σ := rfl
  rw [ht] at hl
  omega

theorem inFlightCount_set_le {s : State} {id : Nat} {r : Row} {status : Status} {version : Nat}
    (hr : s.rows[id]? = some r) (hs : status.inFlight = true → r.status.inFlight = true)
    (σ : Scope) :
    ({ s with rows := s.rows.set id ⟨r.req, status, version⟩ } : State).inFlightCount cfg σ ≤
      s.inFlightCount cfg σ := by
  have h := countP_replace (fun r => r.status.inFlight && cfg.covers r.req σ)
    (b := ⟨r.req, status, version⟩) hr rfl rfl
  simp only [State.inFlightCount]
  by_cases hst : status.inFlight = true
  · simp only [hst, hs hst, Bool.true_and] at h
    omega
  · simp [hst] at h
    omega

/-- A request in any status that is set to creating adds one at most, and in its scopes only. -/
theorem inFlightCount_set_creating {s : State} {id : Nat} {r : Row} {version : Nat}
    (hr : s.rows[id]? = some r) (σ : Scope) :
    ({ s with rows := s.rows.set id ⟨r.req, .creating, version⟩ } : State).inFlightCount cfg σ ≤
      s.inFlightCount cfg σ + (cfg.covers r.req σ).toNat := by
  have h := countP_replace (fun r => r.status.inFlight && cfg.covers r.req σ)
    (b := ⟨r.req, .creating, version⟩) (y := cfg.covers r.req σ) hr rfl
    (by simp [Status.inFlight])
  simp only [State.inFlightCount]
  omega

/-! ### Observing -/

theorem follows_counter {a : Start} {k : CounterKey} :
    a.follows (.counter k) = decide (k ∈ a.keys) := rfl

theorem inv_observe {s : State} (h : Inv cfg s) {c : RunnerAdmissionCapacity}
    {o : RunnerCapacityObservation} {ks : List CounterKey} (hnd : ks.Nodup)
    (ho : Observed s.capacity c o s.readers ks) (i : Nat) :
    Inv cfg ⟨s.rows, c, s.starts ++ [⟨o, i, false, false⟩]⟩ ∧
      ∀ σ, Within cfg s ⟨s.rows, c, s.starts ++ [⟨o, i, false, false⟩]⟩ σ := by
  set a₀ : Start := ⟨o, i, false, false⟩ with ha₀
  set s' : State := ⟨s.rows, c, s.starts ++ [a₀]⟩ with hs'
  have hkeys : a₀.keys = ks := ho.retained.keys
  have htally : ∀ σ, s'.tally σ = s.tally σ := by
    intro σ
    cases σ with
    | global => simp [State.tally, hs', ho.started, ho.pending]
    | counter k => exact ho.retained.tally k
  have hun : ∀ σ, s'.uncommittedCount σ = s.uncommittedCount σ := by
    intro σ
    simp [hs', ha₀, State.uncommittedCount, Start.uncommitted, ho.reserved]
  have hpe : ∀ σ, s'.pendingCount σ = s.pendingCount σ := by
    intro σ
    simp [hs', ha₀, State.pendingCount, ho.reserved]
  have hw : ∀ σ, Within cfg s s' σ := fun σ => within_of_eq (htally σ) (hun σ) (Nat.le_refl _)
  refine ⟨⟨?_, ?_, ?_, ?_, ?_, ?_, ?_⟩, hw⟩
  · have hn : s'.readers = addKeys s.readers ks := by
      funext k
      simp [hs', ha₀, State.readers, addKeys, follows_counter, ← hkeys, List.countP_append,
        List.countP_cons]
    exact hn ▸ ho.retained.ordered
  · intro a ha hl
    rcases List.mem_append.mp ha with ha | ha
    · intro m hm
      exact ho.retained.kept (h.current a ha hl m hm)
    · obtain rfl := List.mem_singleton.mp ha
      exact ho.retained.current
  · intro a ha
    rcases List.mem_append.mp ha with ha | ha
    · exact h.distinct a ha
    · obtain rfl := List.mem_singleton.mp ha
      exact hkeys ▸ hnd
  · intro σ
    rw [htally, hpe, h.pending]
  · intro a ha hu
    rcases List.mem_append.mp ha with ha | ha
    · exact h.settledFirst a ha hu
    · obtain rfl := List.mem_singleton.mp ha
      rfl
  · intro a ha hl σ hσ
    rcases List.mem_append.mp ha with ha | ha
    · exact (h.marked a ha hl σ hσ).within (hw σ)
    · obtain rfl := List.mem_singleton.mp ha
      -- the mark of a new observation is the counter itself
      have hmark : a₀.mark σ = s.tally σ := by
        cases σ with
        | global => simp [Start.mark, State.tally, ha₀, ho.obsStarted, ho.obsPending]
        | counter k =>
          obtain ⟨m, hm, rfl⟩ := Start.exists_of_follows hσ
          have hs := ho.retained.snapped m hm
          rw [Start.mark_of_mem (hkeys ▸ hnd) hm, hs.started, hs.pending]
          rfl
      have hle := h.uncommittedCount_le σ
      have hp := h.pending σ
      refine ⟨Nat.le_of_eq (by rw [hmark, htally]), ?_⟩
      rw [hmark, htally, hun]
      omega
  · intro σ hσ
    have hb := h.bounded σ hσ
    have hl := (hw σ).load
    rw [htally] at hl
    omega

/-! ### Reserving -/

theorem readers_set {s : State} {p : Nat} {a b : Start} (ha : s.starts[p]? = some a)
    (hk : b.obs.counters = a.obs.counters) (hf : b.finished = a.finished) (rows : List Row)
    (c : RunnerAdmissionCapacity) : State.readers ⟨rows, c, s.starts.set p b⟩ = s.readers := by
  funext k
  have := countP_replace (fun a => !a.finished && a.follows (.counter k)) (b := b) ha rfl
    (y := !a.finished && a.follows (.counter k)) (by simp only [hf, Start.follows, hk])
  simp only [State.readers]
  omega

theorem inv_reserve {s : State} (h : Inv cfg s) {p : Nat} {a : Start}
    (ha : s.starts[p]? = some a) (hl : a.finished = false) (hr : a.obs.reserved = false)
    (hs : a.settled = false)
    (hfree : ∀ σ, a.follows σ = true → σ = .global ∨ 0 < cfg.limit σ →
      (s.load cfg σ + 1 : Int) ≤ cfg.limit σ) :
    let s' : State := ⟨s.rows,
      ⟨s.capacity.started + 1, s.capacity.pending + 1,
        modifyCounters Tally.start s.capacity.counters a.obs.counters⟩,
      s.starts.set p a.reserve⟩
    Inv cfg s' ∧ ∀ σ, Within cfg s s' σ := by
  intro s'
  have hmem := List.mem_of_getElem? ha
  obtain ⟨mo, me, mt⟩ := modifyCounters_spec Tally.start h.ordered (h.current a hmem hl)
    (h.distinct a hmem)
  have htally : ∀ σ, s'.tally σ = if a.follows σ then (s.tally σ).start else s.tally σ := by
    intro σ
    cases σ with
    | global => rfl
    | counter k => simpa [State.tally, Start.follows] using mt k
  have hun : ∀ σ, s'.uncommittedCount σ = s.uncommittedCount σ + (a.follows σ).toNat := by
    intro σ
    exact countP_replace (fun a => a.uncommitted && a.follows σ) (b := a.reserve) (x := false)
      (y := a.follows σ) ha (by simp [Start.uncommitted, hr]) (by simp [Start.uncommitted, hs])
  have hpe : ∀ σ, s'.pendingCount σ = s.pendingCount σ + (a.follows σ).toNat := by
    intro σ
    exact countP_replace (fun a => a.obs.reserved && !a.finished && a.follows σ)
      (b := a.reserve) (x := false) (y := a.follows σ) ha (by simp [hr]) (by simp [hl])
  have hw : ∀ σ, Within cfg s s' σ := by
    intro σ
    have hi : s'.inFlightCount cfg σ = s.inFlightCount cfg σ := rfl
    refine ⟨?_, ?_, ?_⟩ <;> simp only [State.load, hi, htally, hun] <;>
      cases a.follows σ <;> simp [Tally.start] <;> omega
  refine ⟨⟨?_, ?_, ?_, ?_, ?_, ?_, ?_⟩, hw⟩
  · have hn : s'.readers = s.readers := readers_set (b := a.reserve) ha rfl rfl _ _
    exact hn ▸ mo
  · intro b hb hbl m hm
    have he : s'.capacity.counters.entries = s.capacity.counters.entries := me
    rw [he]
    rcases List.mem_or_eq_of_mem_set hb with hb | rfl
    · exact h.current b hb hbl m hm
    · exact h.current a hmem hl m hm
  · intro b hb
    rcases List.mem_or_eq_of_mem_set hb with hb | rfl
    · exact h.distinct b hb
    · exact h.distinct a hmem
  · intro σ
    have hp := h.pending σ
    rw [htally, hpe]
    cases a.follows σ <;> simp [Tally.start] <;> omega
  · intro b hb hu
    rcases List.mem_or_eq_of_mem_set hb with hb | rfl
    · exact h.settledFirst b hb hu
    · exact hl
  · intro b hb hbl σ hσ
    rcases List.mem_or_eq_of_mem_set hb with hb | rfl
    · exact (h.marked b hb hbl σ hσ).within (hw σ)
    · have hm := (h.marked a hmem hl σ (by simpa using hσ)).within (hw σ)
      exact ⟨by simpa using hm.started, by simpa using hm.covered⟩
  · intro σ hσ
    have hi : s'.inFlightCount cfg σ = s.inFlightCount cfg σ := rfl
    by_cases hf : a.follows σ = true
    · have := hfree σ hf hσ
      simp only [State.load, hi, hun, hf, Bool.toNat_true] at this ⊢
      omega
    · have := h.bounded σ hσ
      simp only [State.load, hi, hun, hf, Bool.toNat_false] at this ⊢
      omega

/-! ### The creating write -/

/-- The write of a start has committed or failed: its reservation is no longer open, and if it
has committed the request is in flight in the scopes of the reservation. -/
theorem inv_settle {s : State} (h : Inv cfg s) {p : Nat} {a : Start}
    (ha : s.starts[p]? = some a) (hu : a.uncommitted = true) (rows : List Row)
    (hle : ∀ σ, ({ s with rows := rows } : State).inFlightCount cfg σ ≤
      s.inFlightCount cfg σ + (a.follows σ).toNat) :
    let s' : State := ⟨rows, s.capacity, s.starts.set p a.settle⟩
    Inv cfg s' ∧ ∀ σ, Within cfg s s' σ := by
  intro s'
  have hmem := List.mem_of_getElem? ha
  have hl := h.settledFirst a hmem hu
  have hr : a.obs.reserved = true := by
    simp only [Start.uncommitted, Bool.and_eq_true] at hu
    exact hu.1
  have htally : ∀ σ, s'.tally σ = s.tally σ := fun σ => by cases σ <;> rfl
  have hun : ∀ σ, s'.uncommittedCount σ + (a.follows σ).toNat = s.uncommittedCount σ := by
    intro σ
    exact countP_replace (fun a => a.uncommitted && a.follows σ) (b := a.settle)
      (x := a.follows σ) (y := false) ha (by simp [hu]) (by simp)
  have hpe : ∀ σ, s'.pendingCount σ = s.pendingCount σ := by
    intro σ
    exact Nat.add_right_cancel (countP_replace
      (fun a => a.obs.reserved && !a.finished && a.follows σ) (b := a.settle)
      (x := a.follows σ) (y := a.follows σ) ha (by simp [hr, hl])
      (by simp [Start.settle, hr, hl, Start.follows]))
  have hload : ∀ σ, s'.load cfg σ ≤ s.load cfg σ := by
    intro σ
    have h1 := hle σ
    have h2 := hun σ
    have h3 : s'.inFlightCount cfg σ = ({ s with rows := rows } : State).inFlightCount cfg σ := rfl
    simp only [State.load]
    omega
  have hw : ∀ σ, Within cfg s s' σ := by
    intro σ
    have := hun σ
    have := hload σ
    refine ⟨?_, ?_, ?_⟩ <;> rw [htally] <;> omega
  refine ⟨⟨?_, ?_, ?_, ?_, ?_, ?_, ?_⟩, hw⟩
  · have hn : s'.readers = s.readers := readers_set (b := a.settle) ha rfl rfl _ _
    exact hn ▸ h.ordered
  · intro b hb hbl
    rcases List.mem_or_eq_of_mem_set hb with hb | rfl
    · exact h.current b hb hbl
    · exact h.current a hmem hl
  · intro b hb
    rcases List.mem_or_eq_of_mem_set hb with hb | rfl
    · exact h.distinct b hb
    · exact h.distinct a hmem
  · intro σ
    rw [htally, hpe, h.pending]
  · intro b hb hbu
    rcases List.mem_or_eq_of_mem_set hb with hb | rfl
    · exact h.settledFirst b hb hbu
    · exact hl
  · intro b hb hbl σ hσ
    rcases List.mem_or_eq_of_mem_set hb with hb | rfl
    · exact (h.marked b hb hbl σ hσ).within (hw σ)
    · exact ⟨((h.marked a hmem hl σ hσ).within (hw σ)).started,
        ((h.marked a hmem hl σ hσ).within (hw σ)).covered⟩
  · intro σ hσ
    have := h.bounded σ hσ
    have := hload σ
    omega

/-! ### Finishing -/

/-- The counters after a start has finished, in a scope that another start follows or that the
finished one did not. -/
theorem tally_finish {s : State} (h : Inv cfg s) {a : Start} (ha : a ∈ s.starts)
    (hl : a.finished = false) (starts : List Start) {σ : Scope}
    (hσ : ∀ k, σ = .counter k → k ∉ a.keys ∨ 1 < s.readers k) :
    State.tally ⟨s.rows, finish s.capacity a.obs, starts⟩ σ =
      if a.obs.reserved && a.follows σ then (s.tally σ).finish else s.tally σ := by
  obtain ⟨mo, me, mt⟩ := modifyCounters_spec Tally.finish h.ordered (h.current a ha hl)
    (h.distinct a ha)
  cases σ with
  | global => cases hr : a.obs.reserved <;> simp [State.tally, finish, hr, Start.follows, Tally.finish]
  | counter k =>
    have hk := hσ k rfl
    cases hr : a.obs.reserved with
    | false =>
      obtain ⟨-, rv, re⟩ := releaseCounters_spec h.ordered (h.current a ha hl) (h.distinct a ha)
      simp only [State.tally, finish, hr, tallyAt]
      simp [re k hk, rv]
    | true =>
      have hc : Current (modifyCounters Tally.finish s.capacity.counters a.obs.counters)
          a.obs.counters := by
        intro m hm
        rw [me]
        exact h.current a ha hl m hm
      obtain ⟨-, rv, re⟩ := releaseCounters_spec mo hc (h.distinct a ha)
      have hk' := mt k
      simp only [tallyAt] at hk'
      simp only [State.tally, finish, hr, if_true, tallyAt, re k hk, rv, hk', Start.follows,
        Bool.true_and, decide_eq_true_eq]

theorem ordered_finish {s : State} (h : Inv cfg s) {a : Start} (ha : a ∈ s.starts)
    (hl : a.finished = false) :
    (finish s.capacity a.obs).counters.Ordered (dropKeys s.readers a.keys) ∧
      ∀ k, k ∉ a.keys ∨ 1 < s.readers k →
        (finish s.capacity a.obs).counters.entries k = s.capacity.counters.entries k := by
  cases hr : a.obs.reserved with
  | false =>
    obtain ⟨ro, -, re⟩ := releaseCounters_spec h.ordered (h.current a ha hl) (h.distinct a ha)
    simp only [finish, hr]
    exact ⟨ro, re⟩
  | true =>
    obtain ⟨mo, me, -⟩ := modifyCounters_spec Tally.finish h.ordered (h.current a ha hl)
      (h.distinct a ha)
    have hc : Current (modifyCounters Tally.finish s.capacity.counters a.obs.counters)
        a.obs.counters := by
      intro m hm
      rw [me]
      exact h.current a ha hl m hm
    obtain ⟨ro, -, re⟩ := releaseCounters_spec mo hc (h.distinct a ha)
    simp only [finish, hr, if_true]
    exact ⟨ro, fun k hk => (re k hk).trans (congrFun me k)⟩

theorem one_lt_readers {s : State} {p q : Nat} {a b : Start} (hpq : p ≠ q)
    (ha : s.starts[p]? = some a) (hal : a.finished = false) (hb : s.starts[q]? = some b)
    (hbl : b.finished = false) {k : CounterKey} (hak : a.follows (.counter k) = true)
    (hbk : b.follows (.counter k) = true) : 1 < s.readers k := by
  have h1 := countP_replace (fun a => !a.finished && a.follows (.counter k)) (b := a.finish)
    (x := true) (y := false) ha (by simp [hal, hak]) (by simp [Start.finish])
  have hb' : (s.starts.set p a.finish)[q]? = some b := by rw [List.getElem?_set_ne hpq, hb]
  have h2 : 0 < (s.starts.set p a.finish).countP fun a => !a.finished && a.follows (.counter k) :=
    List.countP_pos_iff.mpr ⟨b, List.mem_of_getElem? hb', by simp [hbl, hbk]⟩
  simp only [State.readers]
  simp only [Bool.toNat_true, Bool.toNat_false] at h1
  omega

theorem inv_finish {s : State} (h : Inv cfg s) {p : Nat} {a : Start}
    (ha : s.starts[p]? = some a) (hl : a.finished = false) (hu : a.uncommitted = false) :
    let s' : State := ⟨s.rows, finish s.capacity a.obs, s.starts.set p a.finish⟩
    Inv cfg s' ∧ ∀ {q b}, p ≠ q → s.starts[q]? = some b → b.finished = false →
      ∀ σ, b.follows σ = true → Within cfg s s' σ := by
  intro s'
  have hmem := List.mem_of_getElem? ha
  obtain ⟨ho, he⟩ := ordered_finish h hmem hl
  have hn : s'.readers = dropKeys s.readers a.keys := by
    funext k
    have := countP_replace (fun a => !a.finished && a.follows (.counter k)) (b := a.finish)
      (x := a.follows (.counter k)) (y := false) ha (by simp [hl]) (by simp [Start.finish])
    simp only [follows_counter, Bool.toNat_false, Nat.add_zero] at this
    simp only [dropKeys, State.readers, s', follows_counter]
    by_cases hk : k ∈ a.keys
    · simp only [hk, decide_true, Bool.toNat_true] at this
      simp only [hk, if_true]
      omega
    · simp only [hk, decide_false, Bool.toNat_false] at this
      simp only [hk, if_false]
      omega
  have hun : ∀ σ, s'.uncommittedCount σ = s.uncommittedCount σ := by
    intro σ
    exact countP_replace (fun a => a.uncommitted && a.follows σ) (b := a.finish) (x := false)
      (y := false) ha (by simp [hu]) (by
        have : a.finish.uncommitted = a.uncommitted := rfl
        simp [this, hu])
  have hpe : ∀ σ, s'.pendingCount σ + (a.obs.reserved && a.follows σ).toNat =
      s.pendingCount σ := by
    intro σ
    exact countP_replace (fun a => a.obs.reserved && !a.finished && a.follows σ)
      (b := a.finish) (x := a.obs.reserved && a.follows σ) (y := false) ha (by simp [hl])
      (by simp [Start.finish])
  -- a counter that another live start follows keeps its entry
  have hkeep : ∀ {q b}, p ≠ q → s.starts[q]? = some b → b.finished = false → ∀ k,
      b.follows (.counter k) = true → k ∉ a.keys ∨ 1 < s.readers k := by
    intro q b hpq hb hbl k hk
    by_cases hak : k ∈ a.keys
    · exact .inr (one_lt_readers hpq ha hl hb hbl (by simp [follows_counter, hak]) hk)
    · exact .inl hak
  have hw : ∀ {q b}, p ≠ q → s.starts[q]? = some b → b.finished = false →
      ∀ σ, b.follows σ = true → Within cfg s s' σ := by
    intro q b hpq hb hbl σ hσ
    have ht : s'.tally σ = _ := tally_finish h hmem hl _ (fun k hk => by
      subst hk; exact hkeep hpq hb hbl k hσ)
    have hi : s'.inFlightCount cfg σ = s.inFlightCount cfg σ := rfl
    have hst : (s'.tally σ).started = (s.tally σ).started := by
      rw [ht]; split <;> rfl
    exact ⟨by omega, by rw [hun]; omega, by rw [hst]; simp [State.load, hi, hun]⟩
  refine ⟨⟨hn ▸ ho, ?_, ?_, ?_, ?_, ?_, ?_⟩, hw⟩
  · intro b hb hbl m hm
    obtain ⟨q, hq⟩ := List.getElem?_of_mem hb
    by_cases hpq : p = q
    · subst hpq
      rw [List.getElem?_set_self (List.getElem?_eq_some_iff.mp ha).1] at hq
      cases hq
      simp [Start.finish] at hbl
    · rw [List.getElem?_set_ne hpq] at hq
      refine (he m.key (hkeep hpq hq hbl m.key ?_)).trans (h.current b (List.mem_of_getElem? hq)
        hbl m hm)
      simpa [Start.follows] using ⟨m, hm, rfl⟩
  · intro b hb
    rcases List.mem_or_eq_of_mem_set hb with hb | rfl
    · exact h.distinct b hb
    · exact h.distinct a hmem
  · intro σ
    have hp := h.pending σ
    have hq := hpe σ
    by_cases hσ : ∀ k, σ = .counter k → k ∉ a.keys ∨ 1 < s.readers k
    · have ht : s'.tally σ = _ := tally_finish h hmem hl _ hσ
      rw [ht]
      cases hrf : (a.obs.reserved && a.follows σ) <;>
        simp only [hrf, Bool.toNat_true, Bool.toNat_false] at hq <;> simp [Tally.finish] <;> omega
    · -- the entry is gone, and with it every reservation that was counted in it
      push Not at hσ
      obtain ⟨k, rfl, hk, hle⟩ := hσ
      have hz : s'.readers k = 0 := by
        rw [hn]; simp [dropKeys, hk]; omega
      have hnone : s'.capacity.counters.entries k = none := by
        have hh := ho.held k
        rw [← hn, hz] at hh
        simpa using hh
      have hle' : s'.pendingCount (.counter k) ≤ s'.readers k := by
        refine List.countP_mono_left fun b _ hb => ?_
        simp only [Bool.and_eq_true] at hb ⊢
        exact ⟨hb.1.2, hb.2⟩
      have : s'.tally (.counter k) = ⟨0, 0⟩ := by simp [State.tally, tallyAt, hnone]
      rw [this]
      simp only
      omega
  · intro b hb hbu
    rcases List.mem_or_eq_of_mem_set hb with hb | rfl
    · exact h.settledFirst b hb hbu
    · have : a.finish.uncommitted = a.uncommitted := rfl
      rw [this, hu] at hbu
      cases hbu
  · intro b hb hbl σ hσ
    obtain ⟨q, hq⟩ := List.getElem?_of_mem hb
    by_cases hpq : p = q
    · subst hpq
      rw [List.getElem?_set_self (List.getElem?_eq_some_iff.mp ha).1] at hq
      cases hq
      simp [Start.finish] at hbl
    · rw [List.getElem?_set_ne hpq] at hq
      exact (h.marked b (List.mem_of_getElem? hq) hbl σ hσ).within (hw hpq hq hbl σ hσ)
  · intro σ hσ
    have := h.bounded σ hσ
    have hi : s'.inFlightCount cfg σ = s.inFlightCount cfg σ := rfl
    simp only [State.load, hi, hun] at this ⊢
    exact this

end CiRunner.Capacity
