import CiRunner.Capacity.Steps

/-! The checks of a reservation. A start follows the counters of the scopes its
request counts in, and what passes the checks against the counts it has read leaves
room for one more request in each of them that is limited. -/

namespace CiRunner.Capacity

open Refcount CiRunner.State

variable (cfg : Settings)

/-! ### The observation of a request -/

def keyUnlessEmpty (text : String) (key : String → CounterKey) : Option CounterKey :=
  if text = "" then none else some (key text)

/-- The observation follows the counters of the request. -/
structure ObservationOf (o : RunnerCapacityObservation) (req : RunnerRequest)
    (profileName : String) : Prop where
  profile : o.profile.key = .profile (profileKey req profileName)
  account : o.account.map (·.key) =
    keyUnlessEmpty (runnerRepositoryOwner req.repositoryFullName) .account
  repository : o.repository.map (·.key) =
    keyUnlessEmpty (normalizeRunnerRepository req.repositoryFullName) .repository

theorem retainCounterUnlessEmpty_key (R : Registry CounterKey Tally) (text : String)
    (key : String → CounterKey) :
    (retainCounterUnlessEmpty R text key).2.map (·.key) = keyUnlessEmpty text key := by
  unfold retainCounterUnlessEmpty keyUnlessEmpty
  split <;> rfl

theorem observationOf_observe (c : RunnerAdmissionCapacity) (req : RunnerRequest)
    (profileName : String) : ObservationOf (observe c req profileName).2 req profileName := by
  refine ⟨?_, ?_, ?_⟩ <;> simp only [observe, retainCounterUnlessEmpty_key]
  rfl

theorem mem_keys_iff {o : RunnerCapacityObservation} {req : RunnerRequest} {profileName : String}
    (h : ObservationOf o req profileName) (k : CounterKey) :
    k ∈ o.counters.map (·.key) ↔
      k = .profile (profileKey req profileName) ∨
      keyUnlessEmpty (runnerRepositoryOwner req.repositoryFullName) .account = some k ∨
      keyUnlessEmpty (normalizeRunnerRepository req.repositoryFullName) .repository = some k := by
  rw [← h.account, ← h.repository, ← h.profile]
  simp only [RunnerCapacityObservation.counters, List.map_cons, List.map_append, List.mem_cons,
    List.mem_append, List.mem_map, Option.mem_toList, Option.map_eq_some_iff]

theorem follows_eq_covers {a : Start} {req : RunnerRequest} {p : RunnerProfile}
    (hp : cfg.catalog.profileForRunnerRequest req = some p)
    (ho : ObservationOf a.obs req p.name) (σ : Scope) : a.follows σ = cfg.covers req σ := by
  cases σ with
  | global => rfl
  | counter k =>
    rw [Bool.eq_iff_iff]
    simp only [Start.follows, decide_eq_true_eq, mem_keys_iff ho, keyUnlessEmpty]
    cases k with
    | profile key => simp [Settings.covers, hp]
    | account owner =>
      simp [Settings.covers]
      rintro rfl
      exact Iff.rfl
    | repository name =>
      simp [Settings.covers]
      rintro rfl
      exact Iff.rfl

/-! ### The checks of a reservation -/

theorem reserve_ok {c c' : RunnerAdmissionCapacity} {o : RunnerCapacityObservation} {u : Uses}
    (h : reserve c o u = .ok c') :
    u.global.full o.pending (c.started - o.started) = false ∧
    u.profile.fullIfLimited c.counters (some o.profile) = false ∧
    u.account.fullIfLimited c.counters o.account = false ∧
    u.repository.fullIfLimited c.counters o.repository = false ∧
    c' = ⟨c.started + 1, c.pending + 1, modifyCounters Tally.start c.counters o.counters⟩ := by
  unfold reserve at h
  split at h
  · cases h
  split at h
  · cases h
  split at h
  · cases h
  split at h
  · cases h
  cases h
  simp_all

/-- The use of a scope that the reservation is checked against: its limit, and a count that the
start has read. -/
def UseOf (counts : List (Scope × Nat)) (σ : Scope) (u : Use) : Prop :=
  u.limit = cfg.limit σ ∧ (σ, u.count) ∈ counts

/-- Every limited scope of the request is checked. -/
structure Checked (req : RunnerRequest) (profileName : String) (counts : List (Scope × Nat))
    (u : Uses) : Prop where
  global : UseOf cfg counts .global u.global
  profile : ∀ k, k = .profile (profileKey req profileName) → 0 < cfg.limit (.counter k) →
    UseOf cfg counts (.counter k) u.profile
  account : ∀ k, keyUnlessEmpty (runnerRepositoryOwner req.repositoryFullName) .account = some k →
    0 < cfg.limit (.counter k) → UseOf cfg counts (.counter k) u.account
  repository : ∀ k,
    keyUnlessEmpty (normalizeRunnerRepository req.repositoryFullName) .repository = some k →
    0 < cfg.limit (.counter k) → UseOf cfg counts (.counter k) u.repository

variable {cfg}

theorem room_of_not_full {s : State} {a : Start} {σ : Scope} {u : Use}
    (hm : Marked s a σ) (hc : Counted cfg s a σ u.count)
    (hf : u.full (a.mark σ).pending ((s.tally σ).started - (a.mark σ).started) = false) :
    (s.load cfg σ + 1 : Int) ≤ u.limit := by
  have h1 := hm.started
  simp only [Use.full, decide_eq_false_iff_not] at hf
  unfold Counted at hc
  omega

theorem room_of_not_fullIfLimited {s : State} (h : Inv cfg s) {a : Start} (ha : a ∈ s.starts)
    (hl : a.finished = false) {m : CounterSnapshot} (hm : m ∈ a.obs.counters) {u : Use}
    (hu : 0 < u.limit) (hc : Counted cfg s a (.counter m.key) u.count)
    (hf : u.fullIfLimited s.capacity.counters (some m) = false) :
    (s.load cfg (.counter m.key) + 1 : Int) ≤ u.limit := by
  have hfol : a.follows (.counter m.key) = true := by
    simpa [Start.follows] using ⟨m, hm, rfl⟩
  refine room_of_not_full (h.marked a ha hl _ hfol) hc ?_
  simp only [Use.fullIfLimited, hu, decide_true, Bool.true_and] at hf
  rw [Start.mark_of_mem (h.distinct a ha) hm, ← h.tally_of_mem ha hl hm]
  exact hf

theorem room_of_reserve {s : State} (h : Inv cfg s) {a : Start} (ha : a ∈ s.starts)
    (hl : a.finished = false) {req : RunnerRequest} {profileName : String}
    (ho : ObservationOf a.obs req profileName) {counts : List (Scope × Nat)} {u : Uses}
    (hk : Checked cfg req profileName counts u)
    (hc : ∀ σ n, (σ, n) ∈ counts → a.follows σ = true → Counted cfg s a σ n)
    {c' : RunnerAdmissionCapacity} (hr : reserve s.capacity a.obs u = .ok c') (σ : Scope)
    (hσ : a.follows σ = true) (hlim : σ = .global ∨ 0 < cfg.limit σ) :
    (s.load cfg σ + 1 : Int) ≤ cfg.limit σ := by
  obtain ⟨h1, h2, h3, h4, -⟩ := reserve_ok hr
  cases σ with
  | global =>
    obtain ⟨hlg, hcg⟩ := hk.global
    exact hlg ▸ room_of_not_full (h.marked a ha hl _ hσ) (hc _ _ hcg hσ) h1
  | counter k =>
    have hpos : 0 < cfg.limit (.counter k) := by simpa using hlim
    -- each of the three counters is checked against its own use
    have key : ∀ (m : CounterSnapshot) (v : Use), m ∈ a.obs.counters → m.key = k →
        UseOf cfg counts (.counter k) v → v.fullIfLimited s.capacity.counters (some m) = false →
        (s.load cfg (.counter k) + 1 : Int) ≤ cfg.limit (.counter k) := by
      rintro m v hm rfl ⟨hvl, hvc⟩ hf
      rw [← hvl]
      exact room_of_not_fullIfLimited h ha hl hm (hvl ▸ hpos) (hc _ _ hvc hσ) hf
    have hmem := (mem_keys_iff ho k).mp (by simpa [Start.follows] using hσ)
    rcases hmem with rfl | hacc | hrep
    · exact key a.obs.profile u.profile (List.mem_cons_self ..) ho.profile
        (hk.profile _ rfl hpos) h2
    · obtain ⟨m, hm, hmk⟩ := Option.map_eq_some_iff.mp (ho.account.trans hacc)
      exact key m u.account (by simp [RunnerCapacityObservation.counters, hm]) hmk
        (hk.account k hacc hpos) (hm ▸ h3)
    · obtain ⟨m, hm, hmk⟩ := Option.map_eq_some_iff.mp (ho.repository.trans hrep)
      exact key m u.repository (by simp [RunnerCapacityObservation.counters, hm]) hmk
        (hk.repository k hrep hpos) (hm ▸ h4)

end CiRunner.Capacity
