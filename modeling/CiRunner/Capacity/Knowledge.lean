import CiRunner.Threads.Outline
import CiRunner.Capacity.Checks

/-! The proof outline of admissions. A start knows of its own observation which
counters it follows, how far it has come with it, and that the counts it has read
still cover the load of their scopes; each call keeps the invariant and what the
other starts know. -/

namespace CiRunner.Capacity

open Refcount Threads CiRunner.State

variable {cfg : Settings}

/-! ### The proof outline -/

/-- What a start knows of its observation. -/
structure Held where
  start : Nat
  req : RunnerRequest
  profileName : String
  reserved : Bool
  settled : Bool
  finished : Bool
  counts : List (Scope × Nat)

structure Know where
  row : Option (Nat × RunnerRequest)
  held : Option Held

/-- The observation at its place, as far as the start has come with it. -/
structure Held.Valid (cfg : Settings) (i : Nat) (w : Held) (s : State) (a : Start) : Prop where
  place : s.starts[w.start]? = some a
  owner : a.owner = i
  reserved : a.obs.reserved = w.reserved
  settled : a.settled = w.settled
  finished : a.finished = w.finished
  profile : ∃ p, cfg.catalog.profileForRunnerRequest w.req = some p ∧ p.name = w.profileName
  observation : ObservationOf a.obs w.req w.profileName
  counted : w.finished = false → ∀ σ n, (σ, n) ∈ w.counts → a.follows σ = true →
    Counted cfg s a σ n

structure Know.Valid (cfg : Settings) (i : Nat) (κ : Know) (s : State) : Prop where
  row : ∀ id req, κ.row = some (id, req) → ∃ r, s.rows[id]? = some r ∧ r.req = req
  held : ∀ w, κ.held = some w → ∃ a, w.Valid cfg i s a

/-- A step of thread `i`: requests keep what they are, the starts of other threads keep their
observations, and no scope that a live start follows grows by more than is started in it. -/
structure Effect (cfg : Settings) (i : Nat) (s s' : State) : Prop where
  rows : ∀ {id : Nat} {r : Row}, s.rows[id]? = some r →
    ∃ r', s'.rows[id]? = some r' ∧ r'.req = r.req
  starts : ∀ {p : Nat} {a : Start}, s.starts[p]? = some a → a.owner ≠ i →
    s'.starts[p]? = some a
  within : ∀ {p : Nat} {a : Start}, s.starts[p]? = some a → a.owner ≠ i → a.finished = false →
    ∀ σ, a.follows σ = true → Within cfg s s' σ

def may (cfg : Settings) (κ : Know) : Call → Prop
  | .observe req profileName =>
    ∃ p, cfg.catalog.profileForRunnerRequest req = some p ∧ p.name = profileName
  | .reserve start u => ∃ w, κ.held = some w ∧ w.start = start ∧ w.reserved = false ∧
    w.settled = false ∧ w.finished = false ∧ Checked cfg w.req w.profileName w.counts u
  | .writeCreating id _ start => ∃ w, κ.held = some w ∧ w.start = start ∧ w.reserved = true ∧
    w.settled = false ∧ w.finished = false ∧ κ.row = some (id, w.req)
  | .finish start => ∃ w, κ.held = some w ∧ w.start = start ∧ w.finished = false ∧
    (w.reserved = true → w.settled = true)
  | _ => True

def learn (κ : Know) : (c : Call) → Reply c → Know
  | .readState id, reply =>
    match reply with
    | none => κ
    | some r => { κ with row := some (id, Row.req r) }
  | .observe req profileName, start =>
    { κ with held := some ⟨start, req, profileName, false, false, false, []⟩ }
  | .inFlightCount σ, reply =>
    match reply with
    | none => κ
    | some n => { κ with held := κ.held.map fun w => { w with counts := (σ, n) :: w.counts } }
  | .reserve _ _, reply =>
    match reply with
    | none => { κ with held := κ.held.map fun w => { w with reserved := true } }
    | some _ => κ
  | .writeCreating _ _ _, _ => { κ with held := κ.held.map fun w => { w with settled := true } }
  | .finish _, _ => { κ with held := κ.held.map fun w => { w with finished := true } }
  | _, _ => κ

def outline (cfg : Settings) : Outline (machine cfg) Know where
  ok _ _ _ _ := True
  inv := Inv cfg
  holds i κ s := κ.Valid cfg i s
  effect := Effect cfg
  may := may cfg
  tells _ _ _ := True
  learn := learn

theorem Within.refl (s : State) (σ : Scope) : Within cfg s s σ :=
  ⟨Nat.le_refl _, Nat.le_refl _, Nat.le_refl _⟩

theorem Effect.refl (i : Nat) (s : State) : Effect cfg i s s :=
  ⟨fun h => ⟨_, h, rfl⟩, fun h _ => h, fun _ _ _ σ _ => .refl s σ⟩

theorem Know.Valid.stable {i j : Nat} {κ : Know} {s s' : State} (hij : i ≠ j)
    (he : Effect cfg i s s') (h : κ.Valid cfg j s) : κ.Valid cfg j s' := by
  refine ⟨fun id req hr => ?_, fun w hw => ?_⟩
  · obtain ⟨r, hrow, hreq⟩ := h.row id req hr
    obtain ⟨r', hrow', hreq'⟩ := he.rows hrow
    exact ⟨r', hrow', hreq'.trans hreq⟩
  · obtain ⟨a, ha⟩ := h.held w hw
    have hne : a.owner ≠ i := fun e => hij (e.symm.trans ha.owner)
    refine ⟨a, he.starts ha.place hne, ha.owner, ha.reserved, ha.settled, ha.finished,
      ha.profile, ha.observation, fun hf σ n hn hσ => ?_⟩
    exact (ha.counted hf σ n hn hσ).within
      (he.within ha.place hne (ha.finished.trans hf) σ hσ)

/-- A step of the thread itself that only changes rows. -/
theorem Know.Valid.rows {i : Nat} {κ : Know} {s : State} {rows : List Row}
    (he : Effect cfg i s { s with rows := rows })
    (hw : ∀ σ, Within cfg s { s with rows := rows } σ) (h : κ.Valid cfg i s) :
    κ.Valid cfg i { s with rows := rows } := by
  refine ⟨fun id req hr => ?_, fun w hkw => ?_⟩
  · obtain ⟨r, hrow, hreq⟩ := h.row id req hr
    obtain ⟨r', hrow', hreq'⟩ := he.rows hrow
    exact ⟨r', hrow', hreq'.trans hreq⟩
  · obtain ⟨a, ha⟩ := h.held w hkw
    exact ⟨a, ha.place, ha.owner, ha.reserved, ha.settled, ha.finished, ha.profile,
      ha.observation, fun hf σ n hn hσ => (ha.counted hf σ n hn hσ).within (hw σ)⟩

theorem rows_set {rows : List Row} {id : Nat} {r : Row} (hr : rows[id]? = some r)
    (status : Status) (version : Nat) {id' : Nat} {q : Row} (hq : rows[id']? = some q) :
    ∃ q', (rows.set id ⟨r.req, status, version⟩)[id']? = some q' ∧ q'.req = q.req := by
  by_cases h : id = id'
  · subst h
    have hlt := (List.getElem?_eq_some_iff.mp hr).1
    refine ⟨_, List.getElem?_set_self hlt, ?_⟩
    rw [hr] at hq
    cases hq
    rfl
  · exact ⟨q, by rw [List.getElem?_set_ne h, hq], rfl⟩

theorem starts_set {s : State} {i p : Nat} {a b : Start} (ha : s.starts[p]? = some a)
    (hi : a.owner = i) {q : Nat} {c : Start} (hq : s.starts[q]? = some c) (hc : c.owner ≠ i) :
    (s.starts.set p b)[q]? = some c := by
  have hpq : p ≠ q := by
    rintro rfl
    rw [ha] at hq
    cases hq
    exact hc hi
  rw [List.getElem?_set_ne hpq, hq]

/-! ### The calls are sound -/

/-- What a served call leaves behind. -/
structure Served (cfg : Settings) (i : Nat) (κ : Know) (s s' : State) : Prop where
  inv : Inv cfg s'
  valid : κ.Valid cfg i s'
  effect : Effect cfg i s s'

section Calls

variable {i : Nat} {κ : Know} {s s' : State}

theorem served_rows {rows : List Row} (h : Inv cfg s) (hκ : κ.Valid cfg i s)
    (hle : ∀ σ, ({ s with rows := rows } : State).inFlightCount cfg σ ≤ s.inFlightCount cfg σ)
    (hrows : ∀ {id : Nat} {r : Row}, s.rows[id]? = some r →
      ∃ r', rows[id]? = some r' ∧ r'.req = r.req) :
    Served cfg i κ s { s with rows := rows } := by
  obtain ⟨hinv, hw⟩ := inv_rows h hle
  have he : Effect cfg i s { s with rows := rows } :=
    ⟨hrows, fun hp _ => hp, fun _ _ _ σ _ => hw σ⟩
  exact ⟨hinv, hκ.rows he hw, he⟩

theorem served_readState (h : Inv cfg s) (hκ : κ.Valid cfg i s) {id : Nat} {x : Fault}
    {a : Option Row} (hs : serve cfg i (.readState id) x s = some (a, s')) :
    Served cfg i (learn κ (.readState id) a) s s' := by
  simp only [serve, Option.some.injEq, Prod.mk.injEq] at hs
  obtain ⟨rfl, rfl⟩ := hs
  refine ⟨h, ?_, .refl i s⟩
  rcases hr : (if x then none else s.rows[id]?) with _ | r
  · exact hκ
  · have hrow : s.rows[id]? = some r := by
      split at hr
      · cases hr
      · exact hr
    refine ⟨fun id' req he => ?_, hκ.held⟩
    simp only [learn, Option.some.injEq, Prod.mk.injEq] at he
    obtain ⟨rfl, rfl⟩ := he
    exact ⟨r, hrow, rfl⟩

theorem served_observe (h : Inv cfg s) (hκ : κ.Valid cfg i s) {req : RunnerRequest}
    {profileName : String} {x : Fault} {a : Nat} (hm : may cfg κ (.observe req profileName))
    (hs : serve cfg i (.observe req profileName) x s = some (a, s')) :
    Served cfg i (learn κ (.observe req profileName) a) s s' := by
  simp only [serve, Option.some.injEq, Prod.mk.injEq] at hs
  obtain ⟨rfl, rfl⟩ := hs
  obtain ⟨hinv, hw⟩ := inv_observe h (counterKeys_nodup req profileName)
    (observe_spec h.ordered req profileName) i
  refine ⟨hinv, ⟨hκ.row, fun w hw' => ?_⟩,
    ⟨fun hr => ⟨_, hr, rfl⟩, fun hp _ => ?_, fun _ _ _ σ _ => hw σ⟩⟩
  · simp only [learn, Option.some.injEq] at hw'
    subst hw'
    refine ⟨⟨(observe s.capacity req profileName).2, i, false, false⟩, ?_, rfl, ?_, rfl, rfl, hm,
      observationOf_observe _ _ _, by simp⟩
    · simp
    · exact (observe_spec h.ordered req profileName).reserved
  · rw [List.getElem?_append_left (List.getElem?_eq_some_iff.mp hp).1, hp]

theorem served_inFlightCount (h : Inv cfg s) (hκ : κ.Valid cfg i s) {σ : Scope} {x : Fault}
    {a : Option Nat} (hs : serve cfg i (.inFlightCount σ) x s = some (a, s')) :
    Served cfg i (learn κ (.inFlightCount σ) a) s s' := by
  simp only [serve, Option.some.injEq, Prod.mk.injEq] at hs
  obtain ⟨rfl, rfl⟩ := hs
  refine ⟨h, ?_, .refl i s⟩
  cases x with
  | true => exact hκ
  | false =>
    refine ⟨hκ.row, fun w hw => ?_⟩
    simp only [learn, Bool.false_eq_true, if_false, Option.map_eq_some_iff] at hw
    obtain ⟨w, hw, rfl⟩ := hw
    obtain ⟨a, ha⟩ := hκ.held w hw
    refine ⟨a, ha.place, ha.owner, ha.reserved, ha.settled, ha.finished, ha.profile,
      ha.observation, fun hf τ n hn hτ => ?_⟩
    rcases List.mem_cons.mp hn with hn | hn
    · cases hn
      exact (h.marked a (List.mem_of_getElem? ha.place) (ha.finished.trans hf) σ hτ).counted
    · exact ha.counted hf τ n hn hτ

theorem served_reserve (h : Inv cfg s) (hκ : κ.Valid cfg i s) {start : Nat} {u : Uses} {x : Fault}
    {a : Option CapacityStage} (hm : may cfg κ (.reserve start u))
    (hs : serve cfg i (.reserve start u) x s = some (a, s')) :
    Served cfg i (learn κ (.reserve start u) a) s s' := by
  obtain ⟨w, hw, rfl, hr, hse, hf, hc⟩ := hm
  obtain ⟨b, hb⟩ := hκ.held w hw
  have hmem := List.mem_of_getElem? hb.place
  have hbl := hb.finished.trans hf
  simp only [serve, hb.place] at hs
  rcases hres : reserve s.capacity b.obs u with stage | c
  · simp only [hres, Option.some.injEq, Prod.mk.injEq] at hs
    obtain ⟨rfl, rfl⟩ := hs
    exact ⟨h, hκ, .refl i s⟩
  · simp only [hres, Option.some.injEq, Prod.mk.injEq] at hs
    obtain ⟨rfl, rfl⟩ := hs
    obtain ⟨-, -, -, -, rfl⟩ := reserve_ok hres
    obtain ⟨hinv, hwithin⟩ := inv_reserve h hb.place hbl (hb.reserved.trans hr)
      (hb.settled.trans hse) fun σ hσ hlim =>
        room_of_reserve h hmem hbl hb.observation hc (hb.counted hf) hres σ hσ hlim
    refine ⟨hinv, ⟨hκ.row, fun w' hw' => ?_⟩,
      ⟨fun hrow => ⟨_, hrow, rfl⟩, fun hq hne => starts_set hb.place hb.owner hq hne,
        fun _ _ _ σ _ => hwithin σ⟩⟩
    simp only [learn, hw, Option.map_some, Option.some.injEq] at hw'
    subst hw'
    refine ⟨b.reserve, List.getElem?_set_self (List.getElem?_eq_some_iff.mp hb.place).1, hb.owner,
      rfl, hb.settled, hb.finished, hb.profile, ?_, fun _ σ n hn hσ => ?_⟩
    · exact ⟨hb.observation.profile, hb.observation.account, hb.observation.repository⟩
    have hcount := (hb.counted hf σ n hn (by simpa using hσ)).within (hwithin σ)
    simpa [Counted] using hcount

theorem served_settle (h : Inv cfg s) (hκ : κ.Valid cfg i s) {w : Held} (hw : κ.held = some w)
    (hr : w.reserved = true) (hse : w.settled = false) (hf : w.finished = false)
    (rows : List Row)
    (hle : ∀ σ, ({ s with rows := rows } : State).inFlightCount cfg σ ≤
      s.inFlightCount cfg σ + (cfg.covers w.req σ).toNat)
    (hrows : ∀ {id : Nat} {r : Row}, s.rows[id]? = some r →
      ∃ r', rows[id]? = some r' ∧ r'.req = r.req) :
    Served cfg i { κ with held := κ.held.map fun w => { w with settled := true } } s
      (({ s with rows := rows } : State).settle w.start) := by
  obtain ⟨b, hb⟩ := hκ.held w hw
  obtain ⟨p, hp, hpn⟩ := hb.profile
  have hu : b.uncommitted = true := by
    simp [Start.uncommitted, hb.reserved, hb.settled, hr, hse]
  have hcov : ∀ σ, b.follows σ = cfg.covers w.req σ :=
    follows_eq_covers cfg hp (hpn ▸ hb.observation)
  obtain ⟨hinv, hwithin⟩ := inv_settle h hb.place hu rows (fun σ => hcov σ ▸ hle σ)
  have hset : (({ s with rows := rows } : State).settle w.start) =
      ⟨rows, s.capacity, s.starts.set w.start b.settle⟩ := by
    simp [State.settle, hb.place]
  rw [hset]
  refine ⟨hinv, ⟨fun id req hid => ?_, fun w' hw' => ?_⟩,
    ⟨hrows, fun hq hne => starts_set hb.place hb.owner hq hne, fun _ _ _ σ _ => hwithin σ⟩⟩
  · obtain ⟨r, hrow, hreq⟩ := hκ.row id req hid
    obtain ⟨r', hrow', hreq'⟩ := hrows hrow
    exact ⟨r', hrow', hreq'.trans hreq⟩
  · simp only [hw, Option.map_some, Option.some.injEq] at hw'
    subst hw'
    refine ⟨b.settle, List.getElem?_set_self (List.getElem?_eq_some_iff.mp hb.place).1, hb.owner,
      hb.reserved, rfl, hb.finished, hb.profile, hb.observation, fun _ σ n hn hσ => ?_⟩
    exact (hb.counted hf σ n hn hσ).within (hwithin σ)

theorem served_writeCreating (h : Inv cfg s) (hκ : κ.Valid cfg i s) {id version start : Nat}
    {x : Fault} {a : Bool} (hm : may cfg κ (.writeCreating id version start))
    (hs : serve cfg i (.writeCreating id version start) x s = some (a, s')) :
    Served cfg i (learn κ (.writeCreating id version start) a) s s' := by
  obtain ⟨w, hw, rfl, hr, hse, hf, hrow⟩ := hm
  obtain ⟨r, hrid, hreq⟩ := hκ.row id w.req hrow
  have hfail : Served cfg i (learn κ (.writeCreating id version w.start) a) s
      (s.settle w.start) :=
    served_settle h hκ hw hr hse hf s.rows (fun _ => Nat.le_add_right _ _)
      fun hq => ⟨_, hq, rfl⟩
  simp only [serve] at hs
  split at hs
  · cases hs
    exact hfail
  · rename_i t ht
    cases hs
    have ht' : s.commitCreating id version = some t := by
      split at ht
      · cases ht
      · exact ht
    simp only [State.commitCreating, hrid] at ht'
    split at ht'
    · cases ht'
      exact served_settle h hκ hw hr hse hf _
        (fun σ => hreq ▸ inFlightCount_set_creating hrid σ) fun hq => rows_set hrid _ _ hq
    · cases ht'

theorem served_finish (h : Inv cfg s) (hκ : κ.Valid cfg i s) {start : Nat} {x : Fault} {a : Unit}
    (hm : may cfg κ (.finish start)) (hs : serve cfg i (.finish start) x s = some (a, s')) :
    Served cfg i (learn κ (.finish start) a) s s' := by
  obtain ⟨w, hw, rfl, hf, hset⟩ := hm
  obtain ⟨b, hb⟩ := hκ.held w hw
  have hu : b.uncommitted = false := by
    cases hr : w.reserved with
    | false => simp [Start.uncommitted, hb.reserved, hr]
    | true => simp [Start.uncommitted, hb.settled, hset hr]
  simp only [serve, hb.place] at hs
  cases hs
  obtain ⟨hinv, hwithin⟩ := inv_finish h hb.place (hb.finished.trans hf) hu
  refine ⟨hinv, ⟨hκ.row, fun w' hw' => ?_⟩,
    ⟨fun hrow => ⟨_, hrow, rfl⟩, fun hq hne => starts_set hb.place hb.owner hq hne,
      fun {q c} hq hne hcl σ hσ => hwithin ?_ hq hcl σ hσ⟩⟩
  · simp only [learn, hw, Option.map_some, Option.some.injEq] at hw'
    subst hw'
    exact ⟨b.finish, List.getElem?_set_self (List.getElem?_eq_some_iff.mp hb.place).1, hb.owner,
      hb.reserved, hb.settled, rfl, hb.profile, hb.observation, by simp⟩
  · rintro rfl
    rw [hb.place] at hq
    cases hq
    exact hne hb.owner

theorem served_other (h : Inv cfg s) (hκ : κ.Valid cfg i s) {id : Nat} {status : Status}
    {x : Fault} {a : Unit} (hs : serve cfg i (.other id status) x s = some (a, s')) :
    Served cfg i κ s s' := by
  simp only [serve] at hs
  split at hs
  · cases hs
  · rename_i r hr
    split at hs
    · cases hs
    · rename_i hg
      cases hs
      refine served_rows h hκ (inFlightCount_set_le hr fun hst => ?_) fun hq => rows_set hr _ _ hq
      simpa [hst] using hg

theorem served_createRequest (h : Inv cfg s) (hκ : κ.Valid cfg i s) {req : RunnerRequest}
    {x : Fault} {a : Unit} (hs : serve cfg i (.createRequest req) x s = some (a, s')) :
    Served cfg i κ s s' := by
  simp only [serve] at hs
  cases hs
  refine served_rows h hκ (fun σ => ?_) fun {id r} hq => ⟨r, ?_, rfl⟩
  · simp [State.inFlightCount, Status.inFlight]
  · rw [List.getElem?_append_left (List.getElem?_eq_some_iff.mp hq).1, hq]

theorem served {c : Call} {x : Fault} {a : Reply c} (h : Inv cfg s) (hκ : κ.Valid cfg i s)
    (hm : may cfg κ c) (hs : serve cfg i c x s = some (a, s')) :
    Served cfg i (learn κ c a) s s' := by
  cases c with
  | readState id => exact served_readState h hκ hs
  | observe req profileName => exact served_observe h hκ hm hs
  | inFlightCount σ => exact served_inFlightCount h hκ hs
  | reserve start u => exact served_reserve h hκ hm hs
  | writeCreating id version start => exact served_writeCreating h hκ hm hs
  | finish start => exact served_finish h hκ hm hs
  | other id status => exact served_other h hκ hs
  | createRequest req => exact served_createRequest h hκ hs

end Calls

end CiRunner.Capacity
