import CiRunner.Capacity.CounterSpecs

/-! The invariant of concurrent admissions. For a start that has observed a scope
and not finished, what was pending then plus what was started since covers every
reservation whose write is still open; from the moment it reads the count on, the
count plus these covers the load of the scope. -/

namespace CiRunner.Capacity

open Refcount

variable (cfg : Settings)

/-! ### What the counters stand for -/

def Start.keys (a : Start) : List CounterKey := a.obs.counters.map (·.key)

/-- The value of a scope's counter. -/
def State.tally (s : State) : Scope → Tally
  | .global => ⟨s.capacity.started, s.capacity.pending⟩
  | .counter k => tallyAt s.capacity.counters k

/-- The value of the scope's counter when the start observed it. -/
def Start.mark (a : Start) : Scope → Tally
  | .global => ⟨a.obs.started, a.obs.pending⟩
  | .counter k =>
    match a.obs.counters.find? (·.key = k) with
    | none => ⟨0, 0⟩
    | some m => ⟨m.started, m.pending⟩

/-! A start keeps its counters to the end. -/

@[simp] theorem Start.reserve_follows (a : Start) (σ : Scope) :
    a.reserve.follows σ = a.follows σ := by cases σ <;> rfl

@[simp] theorem Start.settle_follows (a : Start) (σ : Scope) :
    a.settle.follows σ = a.follows σ := rfl

@[simp] theorem Start.finish_follows (a : Start) (σ : Scope) :
    a.finish.follows σ = a.follows σ := rfl

@[simp] theorem Start.reserve_mark (a : Start) (σ : Scope) : a.reserve.mark σ = a.mark σ := by
  cases σ <;> rfl

@[simp] theorem Start.reserve_reserved (a : Start) : a.reserve.obs.reserved = true := rfl

@[simp] theorem Start.reserve_settled (a : Start) : a.reserve.settled = a.settled := rfl

@[simp] theorem Start.reserve_finished (a : Start) : a.reserve.finished = a.finished := rfl

@[simp] theorem Start.settle_uncommitted (a : Start) : a.settle.uncommitted = false := by
  simp [settle, uncommitted]

def State.pendingCount (s : State) (σ : Scope) : Nat :=
  s.starts.countP fun a => a.obs.reserved && !a.finished && a.follows σ

def State.readers (s : State) (k : CounterKey) : Nat :=
  s.starts.countP fun a => !a.finished && a.follows (.counter k)

/-- What was pending at the observation and started since covers the open reservations. -/
structure Marked (s : State) (a : Start) (σ : Scope) : Prop where
  started : (a.mark σ).started ≤ (s.tally σ).started
  covered : (s.uncommittedCount σ + (a.mark σ).started : Int) ≤
    (a.mark σ).pending + (s.tally σ).started

/-- With the count that the start read, they cover the load. -/
def Counted (s : State) (a : Start) (σ : Scope) (count : Nat) : Prop :=
  (s.load cfg σ + (a.mark σ).started : Int) ≤ count + (a.mark σ).pending + (s.tally σ).started

structure Inv (s : State) : Prop where
  ordered : s.capacity.counters.Ordered s.readers
  current : ∀ a ∈ s.starts, a.finished = false → Current s.capacity.counters a.obs.counters
  distinct : ∀ a ∈ s.starts, a.keys.Nodup
  pending : ∀ σ, (s.tally σ).pending = s.pendingCount σ
  settledFirst : ∀ a ∈ s.starts, a.uncommitted = true → a.finished = false
  marked : ∀ a ∈ s.starts, a.finished = false → ∀ σ, a.follows σ = true → Marked s a σ
  bounded : ∀ σ, σ = .global ∨ 0 < cfg.limit σ → (s.load cfg σ : Int) ≤ cfg.limit σ

/-- A step starts at least as many reservations as it adds to the scope. -/
structure Within (s s' : State) (σ : Scope) : Prop where
  started : (s.tally σ).started ≤ (s'.tally σ).started
  uncommitted : s'.uncommittedCount σ + (s.tally σ).started ≤
    s.uncommittedCount σ + (s'.tally σ).started
  load : s'.load cfg σ + (s.tally σ).started ≤ s.load cfg σ + (s'.tally σ).started

variable {cfg}

theorem Marked.within {s s' : State} {a : Start} {σ : Scope} (h : Marked s a σ)
    (hw : Within cfg s s' σ) : Marked s' a σ := by
  obtain ⟨h1, h2⟩ := h
  obtain ⟨w1, w2, -⟩ := hw
  exact ⟨by omega, by omega⟩

theorem Counted.within {s s' : State} {a : Start} {σ : Scope} {count : Nat}
    (h : Counted cfg s a σ count) (hw : Within cfg s s' σ) : Counted cfg s' a σ count := by
  have w := hw.load
  unfold Counted at *
  omega

theorem Marked.counted {s : State} {a : Start} {σ : Scope} (h : Marked s a σ) :
    Counted cfg s a σ (s.inFlightCount cfg σ) := by
  have := h.covered
  unfold Counted State.load
  omega

theorem within_of_eq {s s' : State} {σ : Scope} (ht : s'.tally σ = s.tally σ)
    (hu : s'.uncommittedCount σ = s.uncommittedCount σ)
    (hf : s'.inFlightCount cfg σ ≤ s.inFlightCount cfg σ) : Within cfg s s' σ := by
  refine ⟨Nat.le_of_eq (by rw [ht]), Nat.le_of_eq (by rw [ht, hu]), ?_⟩
  simp only [State.load, ht, hu]
  omega

theorem Inv.uncommittedCount_le {s : State} (h : Inv cfg s) (σ : Scope) :
    s.uncommittedCount σ ≤ s.pendingCount σ := by
  refine List.countP_mono_left fun a ha hu => ?_
  simp only [Bool.and_eq_true] at hu
  have hr : a.obs.reserved = true := by
    have := hu.1
    simp only [Start.uncommitted, Bool.and_eq_true] at this
    exact this.1
  simp [hr, h.settledFirst a ha hu.1, hu.2]

theorem Start.mark_of_mem {a : Start} (hd : a.keys.Nodup) {m : CounterSnapshot}
    (hm : m ∈ a.obs.counters) : a.mark (.counter m.key) = ⟨m.started, m.pending⟩ := by
  have hf : a.obs.counters.find? (·.key = m.key) = some m := by
    refine List.find?_eq_some_iff_append.mpr ⟨by simp, ?_⟩
    obtain ⟨as, bs, hab⟩ := List.append_of_mem hm
    refine ⟨as, bs, hab, fun x hx => ?_⟩
    have hne : x.key ≠ m.key := by
      intro he
      rw [Start.keys, hab, List.map_append, List.nodup_append] at hd
      exact hd.2.2 x.key (List.mem_map_of_mem hx) m.key (by simp) he
    simpa using hne
  simp [mark, hf]

theorem Start.exists_of_follows {a : Start} {k : CounterKey}
    (h : a.follows (.counter k) = true) : ∃ m ∈ a.obs.counters, m.key = k := by
  simpa [follows] using h

theorem Inv.tally_of_mem {s : State} (h : Inv cfg s) {a : Start} (ha : a ∈ s.starts)
    (hl : a.finished = false) {m : CounterSnapshot} (hm : m ∈ a.obs.counters) :
    (s.capacity.counters.cells m.cell).value = s.tally (.counter m.key) :=
  (tallyAt_of_entries (h.current a ha hl m hm)).symm

/-! ### Counting the starts -/

theorem countP_replace {α : Type} (p : α → Bool) {l : List α} {i : Nat} {a b : α} {x y : Bool}
    (h : l[i]? = some a) (ha : p a = x) (hb : p b = y) :
    (l.set i b).countP p + x.toNat = l.countP p + y.toNat := by
  obtain ⟨hi, rfl⟩ := List.getElem?_eq_some_iff.mp h
  have hnat : ∀ z : Bool, (if z = true then 1 else 0) = z.toNat := by decide
  have hle := List.boole_getElem_le_countP (p := p) hi
  rw [ha, hnat] at hle
  rw [List.countP_set hi, ha, hb, hnat, hnat]
  omega

end CiRunner.Capacity
