import CiRunner.Lifecycle.LoopOutline

/-! Runs of the lifecycle from an empty store. A property of the rows follows from
what the writers do to them: one rule for what holds across each step of a run, and
one for what holds in each state, both for runs in which no claim is overtaken. -/

namespace CiRunner.Lifecycle

open Threads Tables CiRunner.State

/-- No request has come in yet. -/
def State.empty : State := State.initial Table.empty

theorem rowsOk_empty : RowsOk State.empty := by
  intro k r hr
  cases hr

section Runs

variable {cfg : Settings} {ok : (machine cfg).Condition}
  (himp : ∀ i c x s, ok i c x s → NotOvertaken cfg i c x s) {c c' : Config Reply State}
include himp

/-- The rows are in order all along. -/
theorem rowsOk_of_reaches (hr : (machine cfg).Reaches ok .empty c) : RowsOk c.state :=
  base_sound.inv_of_reaches rowsOk_empty (hr.mono himp)

/-- A row that is there after a step was there before, is new, or was rewritten by the call that
the step serves. -/
theorem row_origin {d : Decision Choice Op} (hr : (machine cfg).Reaches ok .empty c)
    (hm : (machine cfg).Meets ok c d) (h : (machine cfg).step c d = some c') {k : String}
    {r' : RunnerState} (hf' : c'.state.rows.find k = some r') :
    c.state.rows.find k = some r' ∨ (c.state.rows.find k = none ∧ NewRow r') ∨
    ∃ r i x e l κ, c.state.rows.find k = some r ∧ r.id = k ∧ d = .run i x ∧
      c.threads[i]? = some (.call e l) ∧ Holds i κ c.state ∧ ok i e x c.state ∧
      x.fails = false ∧ Rewrite κ x e r r' := by
  obtain he | he | ⟨i, x, e, l, κ, a, hd, hi, hκ, hmay, hok, hcall⟩ :=
    base_sound.served_of_reaches himp rowsOk_empty hr hm h
  · rw [he] at hf'
    exact .inl hf'
  · rw [he] at hf'
    exact .inl hf'
  · have hserved := served_of_serve hκ hmay (himp _ _ _ _ hok) hcall
    obtain ⟨h, -⟩ | ⟨hn, hnew, -⟩ | ⟨r, hf, hid, hx, hrow, -⟩ := hserved.row hf'
    · exact .inl h
    · exact .inr (.inl ⟨hn, hnew⟩)
    · exact .inr (.inr ⟨r, i, x, e, l, κ, hf, hid, hd, hi, hκ, hok, hx, hrow⟩)

/-- What becomes of a row in a step. -/
theorem row_rewritten {d : Decision Choice Op} (hr : (machine cfg).Reaches ok .empty c)
    (hm : (machine cfg).Meets ok c d) (h : (machine cfg).step c d = some c') {k : String}
    {r r' : RunnerState} (hf : c.state.rows.find k = some r)
    (hf' : c'.state.rows.find k = some r') :
    r' = r ∨ ∃ i x e l κ, r.id = k ∧ d = .run i x ∧ c.threads[i]? = some (.call e l) ∧
      Holds i κ c.state ∧ ok i e x c.state ∧ x.fails = false ∧ Rewrite κ x e r r' := by
  obtain he | ⟨hn, -⟩ | ⟨r₀, i, x, e, l, κ, hf₀, hrow⟩ := row_origin himp hr hm h hf'
  · rw [hf] at he
    exact .inl (Option.some.inj he).symm
  · rw [hf] at hn
    cases hn
  · rw [hf] at hf₀
    cases hf₀
    exact .inr ⟨i, x, e, l, κ, hrow⟩

/-- What every call preserves holds in every state reached. -/
theorem state_invariant {J : State → Prop} (hempty : J .empty)
    (hserve : ∀ {i x d κ a s s'}, RowsOk s → Holds i κ s → may cfg κ d → ok i d x s →
      serve cfg i d x s = some (a, s') → Served κ x s d s' → J s → J s')
    (hrestart : ∀ {s : State}, J s → J s.restart) (hr : (machine cfg).Reaches ok .empty c) :
    J c.state := by
  apply base_sound.invariant_of_reaches himp rowsOk_empty hempty _ hrestart hr
  intro i x d κ a s s' hs hκ hmay hok hcall hJ
  exact hserve hs hκ hmay hok hcall (served_of_serve hκ hmay (himp _ _ _ _ hok) hcall) hJ

end Runs

/-! ### Conditions on accepted writes -/

def writes : Call → Option (Writer × RunnerState)
  | .writeState w st => some (w, st)
  | _ => none

/-- An accepted write of `st` by `w` on thread `i` finds a row `r` with `P i s w st r`. -/
def WritesFind (cfg : Settings) (P : Nat → State → Writer → RunnerState → RunnerState → Prop) :
    (machine cfg).Condition := fun i c x s =>
  ∀ p, writes c = some p → x.fails = false → ∀ r, s.rows.find (sanitizeID p.2.id) = some r →
    r.version = p.2.version → P i s p.1 p.2 r

theorem WritesFind.row {cfg : Settings}
    {P : Nat → State → Writer → RunnerState → RunnerState → Prop} {i : Nat} {x : Choice} {s : State} {w : Writer} {st r : RunnerState}
    (h : WritesFind cfg P i (.writeState w st) x s) (hx : x.fails = false)
    (hf : s.rows.find r.id = some r) (hkey : sanitizeID st.id = r.id)
    (hversion : st.version = r.version) : P i s w st r :=
  h (w, st) rfl hx r (by rw [hkey]; exact hf) hversion.symm

instance decidableForallSome {α : Type} {o : Option α} {P : α → Prop} [DecidablePred P] :
    Decidable (∀ a, o = some a → P a) :=
  match o with
  | none => .isTrue fun _ h => by cases h
  | some a => decidable_of_iff (P a) ⟨fun h _ e => Option.some.inj e ▸ h, fun h => h a rfl⟩

section Decidable

variable (cfg : Settings) (i : Nat) (c : Call) (x : Choice) (s : State)

instance : Decidable (NotOvertaken cfg i c x s) :=
  inferInstanceAs (Decidable (∀ p, claims c = some p → x.fails = false → ∀ r,
    s.rows.find p.1.id = some r → r.status = .queued → r.leaseExpiresAt ≤ p.2 →
      r.version = p.1.version))

instance (P : Nat → State → Writer → RunnerState → RunnerState → Prop)
    [∀ i s w st r, Decidable (P i s w st r)] : Decidable (WritesFind cfg P i c x s) :=
  inferInstanceAs (Decidable (∀ p, writes c = some p → x.fails = false → ∀ r,
    s.rows.find (sanitizeID p.2.id) = some r → r.version = p.2.version → P i s p.1 p.2 r))

end Decidable

/-! ### Concrete runs -/

/-- A test on the row of a request before and after a step. -/
def testRow (k : String) (p : State → RunnerState → RunnerState → Bool)
    (c c' : Config Reply State) : Bool :=
  match c.state.rows.find k, c'.state.rows.find k with
  | some r, some r' => p c.state r r'
  | _, _ => false

theorem of_testRow {k : String} {p : State → RunnerState → RunnerState → Bool}
    {c c' : Config Reply State} (h : testRow k p c c' = true) :
    ∃ r r', c.state.rows.find k = some r ∧ c'.state.rows.find k = some r' ∧
      p c.state r r' = true := by
  unfold testRow at h
  split at h
  · rename_i r r' hr hr'
    exact ⟨r, r', hr, hr', h⟩
  · cases h

/-- The writer whose turn it is on a thread. -/
def nextWriter (i : Nat) (c : Config Reply State) : Option Writer :=
  match c.threads[i]? with
  | some (.call (.writeState w _) _) => some w
  | _ => none

theorem of_nextWriter {i : Nat} {c : Config Reply State} {w : Writer}
    (h : nextWriter i c = some w) :
    ∃ st l, c.threads[i]? = some (.call (.writeState w st) l) := by
  unfold nextWriter at h
  split at h
  · rename_i w' st l hi
    cases h
    exact ⟨st, l, hi⟩
  · cases h

/-- Settings for concrete runs: room for one runner, and ten milliseconds to create it. -/
def oneRunner : Settings where
  maxConcurrentRunners := 1
  retryMaxAttempts := 3
  retryBaseDelay := 1
  retryMaxDelay := 10
  workerID := "worker"
  workerLeaseTTL := 100
  sandboxTimeout := 1000
  sandboxCreateTimeout := 10
  sandboxStopTimeout := 10
  runnerIdleTimeout := 0
  sandboxRegionForAPIURL _ := ""

def sandboxOne : StartResult := ⟨"s1", 7, "template", "", "", by decide +kernel⟩

/-- Several calls of one thread, all under one choice. -/
def calls (i n : Nat) (x : Choice) : List (Decision Choice Op) := List.replicate n (.run i x)

/-- A request comes in by thread 0, and thread 1 claims it and makes the first calls of its start.
The job of the request, if it has one, is queued. -/
def firstStart (jobID n : Nat) : List (Decision Choice Op) :=
  .start (.enqueueWorkflowJob { id := "1", jobID := jobID }) :: calls 0 3 {} ++
    .start .processQueuedRequests ::
      calls 1 n { ticks := 1, job := { id := jobID, status := "queued" } }

/-- The first start up to where it has its sandbox, which takes some calls more with a job. -/
def provisioned (jobID : Nat) : List (Decision Choice Op) :=
  firstStart jobID (if jobID = 0 then 18 else 23) ++
    [.run 1 { ticks := 2, result := some sandboxOne }]

end CiRunner.Lifecycle
