import CiRunner.Capacity.Knowledge

/-! Admissions keep every limit: starts follow the outline, so the load of a
limited scope stays within its limit however their steps interleave. -/

namespace CiRunner.Capacity

open Refcount Threads CiRunner.State

variable {cfg : Settings}

/-! ### The starts follow the outline -/

section Programs

variable (row : Option (Nat × RunnerRequest)) {w : Held}

theorem follows_countIfLimited (limit : Int) (σ : Scope) :
    (outline cfg).Follows
      (fun κ r => ∃ counts, κ = ⟨row, some { w with counts := counts }⟩ ∧ w.counts ⊆ counts ∧
        ∀ n, r = some n → 0 < limit → (σ, n) ∈ counts)
      ⟨row, some w⟩ (countIfLimited limit σ) := by
  unfold countIfLimited
  split
  · refine (outline cfg).follows_ask (.inFlightCount σ) trivial fun r _ => ?_
    cases r with
    | none => exact ⟨w.counts, rfl, fun _ h => h, by simp⟩
    | some n =>
      refine ⟨(σ, n) :: w.counts, rfl, fun _ h => List.mem_cons_of_mem _ h, fun m hm _ => ?_⟩
      cases hm
      exact List.mem_cons_self ..
  · rename_i h
    exact Outline.follows_pure ⟨w.counts, rfl, fun _ h => h, fun _ _ h' => absurd h' h⟩

/-- The reservation that a start goes on with. -/
def Granted (row : Option (Nat × RunnerRequest)) (req : RunnerRequest) (κ : Know) :
    Reservation → Prop
  | .reserved start => κ.row = row ∧ ∃ w, κ.held = some w ∧ w.start = start ∧ w.req = req ∧
    w.reserved = true ∧ w.settled = false ∧ w.finished = false
  | _ => True

theorem follows_abandon {req : RunnerRequest} {start : Nat} (hs : w.start = start)
    (hf : w.finished = false) (hr : w.reserved = false) {r : Reservation}
    (hres : ∀ start, r ≠ .reserved start) :
    (outline cfg).Follows (Granted row req) ⟨row, some w⟩ (abandon start r) := by
  refine Outline.follows_ask_bind ⟨w, rfl, hs, hf, by simp [hr]⟩ fun _ _ => ?_
  cases r with
  | reserved start => exact absurd rfl (hres start)
  | refused stage => exact Outline.follows_pure trivial
  | failed stage => exact Outline.follows_pure trivial

theorem follows_reserveRunnerCapacity {req : RunnerRequest} {profile : RunnerProfile}
    (hp : cfg.catalog.profileForRunnerRequest req = some profile) :
    (outline cfg).Follows (Granted row req) ⟨row, none⟩
      (reserveRunnerCapacity cfg req profile) := by
  have hfind := Catalog.find_of_profileForRunnerRequest hp
  unfold reserveRunnerCapacity
  refine Outline.follows_ask_bind ⟨profile, hp, rfl⟩ fun start _ => ?_
  refine Outline.follows_ask_bind trivial fun globalCount _ => ?_
  cases globalCount with
  | none => exact follows_abandon row rfl rfl rfl (by simp)
  | some globalCount =>
  by_cases hfull : cfg.maxConcurrentRunners ≤ (globalCount : Nat)
  · simp only [if_pos hfull]
    exact follows_abandon row rfl rfl rfl (by simp)
  simp only [if_neg hfull]
  refine (follows_countIfLimited row _ _).bind ?_
  rintro _ profileCount ⟨counts₁, rfl, hsub₁, hprofile⟩
  cases profileCount with
  | none => exact follows_abandon row rfl rfl rfl (by simp)
  | some profileCount =>
  refine (follows_countIfLimited row _ _).bind ?_
  rintro _ accountCount ⟨counts₂, rfl, hsub₂, haccount⟩
  cases accountCount with
  | none => exact follows_abandon row rfl rfl rfl (by simp)
  | some accountCount =>
  refine (follows_countIfLimited row _ _).bind ?_
  rintro _ repositoryCount ⟨counts₃, rfl, hsub₃, hrepository⟩
  cases repositoryCount with
  | none => exact follows_abandon row rfl rfl rfl (by simp)
  | some repositoryCount =>
  refine Outline.follows_ask_bind ?_ fun stage _ => ?_
  · refine ⟨_, rfl, rfl, rfl, rfl, rfl, ⟨rfl, ?_⟩, ?_, ?_, ?_⟩
    · exact hsub₃ (hsub₂ (hsub₁ (List.mem_cons_self ..)))
    · -- the profile's own limit is that of its key
      rintro k rfl hpos
      have hname : req.profileName ≠ "" := by
        intro he
        have hne := cfg.catalog.name_ne hfind
        unfold runnerCapacityProfileKey at hne
        split at hne <;> exact hne (by rw [he]; rfl)
      have hlim : profile.maxConcurrency = cfg.limit (.counter (.profile (profileKey req
          profile.name))) := by
        have := cfg.catalog.find_name hfind
        simp [Settings.limit, profileKey, this]
      refine ⟨by simpa [hname] using hlim, hsub₃ (hsub₂ (hprofile _ rfl ?_))⟩
      simpa [hname, hlim] using hpos
    · intro k hk hpos
      unfold keyUnlessEmpty at hk
      split at hk
      · cases hk
      · rename_i hne
        cases hk
        refine ⟨by simp [hne, Settings.limit], hsub₃ (haccount _ rfl ?_)⟩
        simpa [hne, Settings.limit] using hpos
    · intro k hk hpos
      unfold keyUnlessEmpty at hk
      split at hk
      · cases hk
      · rename_i hne
        cases hk
        refine ⟨by simp [hne, Settings.limit], hrepository _ rfl ?_⟩
        simpa [hne, Settings.limit] using hpos
  · cases stage with
    | none => exact Outline.follows_pure ⟨rfl, _, rfl, rfl, rfl, rfl, rfl, rfl⟩
    | some stage => exact follows_abandon row rfl rfl rfl (by simp)

theorem follows_startRunner (id : Nat) :
    (outline cfg).Follows (fun _ _ => True) ⟨none, none⟩ (startRunner cfg id) := by
  unfold startRunner
  refine Outline.follows_ask_bind trivial fun r _ => ?_
  cases r with
  | none => exact Outline.follows_pure trivial
  | some r =>
  by_cases hq : r.status ≠ .queued
  · simp only [if_pos hq]
    exact Outline.follows_pure trivial
  simp only [if_neg hq]
  rcases hp : cfg.catalog.profileForRunnerRequest r.req with _ | profile
  · exact Outline.follows_pure trivial
  refine (follows_reserveRunnerCapacity (some (id, r.req)) hp).bind ?_
  rintro κ res hres
  cases res with
  | refused stage => exact Outline.follows_pure trivial
  | failed stage => exact Outline.follows_pure trivial
  | reserved start =>
    obtain ⟨hrow, w, hw, rfl, hreq, hr, hs, hf⟩ := hres
    refine Outline.follows_ask_bind ⟨w, hw, rfl, hr, hs, hf, by rw [hrow, hreq]⟩ fun _ _ => ?_
    refine (outline cfg).follows_ask (.finish w.start)
      ⟨{ w with settled := true }, ?_, rfl, hf, fun _ => rfl⟩ fun _ _ => trivial
    simp [outline, learn, hw]

end Programs

/-- A process starts with the invariant if the requests in its store respect the limits. -/
theorem inv_initial {rows : List Row}
    (h : ∀ σ, σ = .global ∨ 0 < cfg.limit σ →
      ((State.initial rows).inFlightCount cfg σ : Int) ≤ cfg.limit σ) :
    Inv cfg (.initial rows) where
  ordered := Registry.ordered_empty _
  current := by simp [State.initial]
  distinct := by simp [State.initial]
  pending σ := by cases σ <;> rfl
  settledFirst := by simp [State.initial]
  marked := by simp [State.initial]
  bounded σ hσ := by
    have := h σ hσ
    simpa [State.load, State.uncommittedCount, State.initial] using this

theorem outline_sound : (outline cfg).Sound fun _ => ⟨none, none⟩ where
  serve h hκ hm _ hs :=
    have hsv := served h hκ hm hs
    ⟨trivial, hsv.inv, hsv.valid, hsv.effect⟩
  stable hij _ _ he hκ := hκ.stable hij he
  fresh_holds _ _ := ⟨by simp, by simp⟩
  restart_inv {s} h := by
    have hb : ∀ σ, (State.initial s.rows).load cfg σ ≤ s.load cfg σ := by
      intro σ
      simp [State.load, State.initial, State.inFlightCount, State.uncommittedCount]
    refine inv_initial fun σ hσ => ?_
    have := h.bounded σ hσ
    have := hb σ
    simp only [machine, State.load, State.initial, State.uncommittedCount] at *
    omega
  follows
    | .startRunner id => follows_startRunner id
    | .other id status => (outline cfg).follows_ask (.other id status) trivial fun _ _ => trivial
    | .createRequest req => (outline cfg).follows_ask (.createRequest req) trivial fun _ _ => trivial

/-! ### Capacity safety -/

/-- If the requests in the store respect the limits when the process starts, then in every
reachable state the requests in flight and the open reservations do: in all, and in every profile,
account and repository that has a positive limit. -/
theorem load_le_limit (cfg : Settings) (rows : List Row)
    (hrows : ∀ σ, σ = .global ∨ 0 < cfg.limit σ →
      ((State.initial rows).inFlightCount cfg σ : Int) ≤ cfg.limit σ)
    {c : Config Reply State} (hr : (machine cfg).Reachable (.initial rows) c) (σ : Scope)
    (hσ : σ = .global ∨ 0 < cfg.limit σ) : (c.state.load cfg σ : Int) ≤ cfg.limit σ :=
  (outline_sound.inv_of_reaches (inv_initial hrows) hr).bounded σ hσ

def oneProfile : Catalog where
  find k := if k = ⟨"global", "", "shared", 0⟩ then some ⟨"shared", 1⟩ else none
  find_name {k p} h := by
    split at h
    · rename_i hk; subst hk; cases h; rfl
    · cases h
  name_ne {k p} h := by
    split at h
    · rename_i hk; subst hk; decide
    · cases h

/-- Two runners in all, and one for each profile. -/
def twoRunners : Settings := ⟨2, fun _ => 0, fun _ => 0, oneProfile⟩

def sharedRequest : RunnerRequest := ⟨"o/r", "shared", "", "", 0⟩

/-- Two starts that read every count before either of them reserves: the second is refused, and
the profile has one request in flight. -/
theorem load_le_limit_racing_starts : ∃ c : Config Reply State,
    (machine twoRunners).Reachable (.initial [⟨sharedRequest, .queued, 0⟩,
      ⟨sharedRequest, .queued, 0⟩]) c ∧
    c.state.load twoRunners (.counter (.profile ⟨"global", "", "shared", 0⟩)) = 1 ∧
    (c.state.load twoRunners (.counter (.profile ⟨"global", "", "shared", 0⟩)) : Int) ≤
      twoRunners.limit (.counter (.profile ⟨"global", "", "shared", 0⟩)) := by
  obtain ⟨c, hr, hc⟩ := Machine.exists_reachable_of_exec (M := machine twoRunners)
    (s := .initial [⟨sharedRequest, .queued, 0⟩, ⟨sharedRequest, .queued, 0⟩])
    ([.start (.startRunner 0), .start (.startRunner 1)] ++
      List.replicate 4 (.run 0 false) ++ List.replicate 4 (.run 1 false) ++
      List.replicate 3 (.run 0 false) ++ List.replicate 2 (.run 1 false))
    (fun c => c.state.load twoRunners (.counter (.profile ⟨"global", "", "shared", 0⟩)) == 1)
    (by decide +kernel)
  refine ⟨c, hr, by simpa using hc, load_le_limit twoRunners _ (fun σ hσ => ?_) hr _ (.inr ?_)⟩
  · rcases hσ with rfl | hσ
    · decide +kernel
    · simpa [State.inFlightCount, State.initial, State.Status.inFlight] using Int.le_of_lt hσ
  · decide +kernel

end CiRunner.Capacity
