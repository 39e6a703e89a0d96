import Mathlib.Data.List.Basic
import Mathlib.Logic.Function.Basic

/-! Programs that talk to a shared state through atomic calls, and the machine
that interleaves any number of them. A program is a tree: it is finished, or it
makes a call and goes on from whatever is replied. The machine serves one call of
one thread at a time; what the surroundings are free to choose (the outcome of a
remote request, the clock, a fault) is an explicit choice, so a run is a list of
decisions and can be evaluated. -/

namespace CiRunner.Threads

/-! ### Programs -/

/-- A program that makes calls, each with its own type of reply. -/
inductive Prog {Call : Type} (Reply : Call → Type) (α : Type) : Type where
  | done (a : α)
  | call (c : Call) (k : Reply c → Prog Reply α)

namespace Prog

variable {Call : Type} {Reply : Call → Type} {α β γ : Type}

/-- Run `p`, then go on with its result. -/
def andThen : Prog Reply α → (α → Prog Reply β) → Prog Reply β
  | .done a, f => f a
  | .call c k, f => .call c fun r => (k r).andThen f

instance : Monad (Prog Reply) where
  pure := .done
  bind := andThen

/-- The program that makes one call and returns its reply. -/
def ask (c : Call) : Prog Reply (Reply c) := .call c .done

@[simp] theorem pure_eq (a : α) : (pure a : Prog Reply α) = .done a := rfl

@[simp] theorem done_bind (a : α) (f : α → Prog Reply β) : (Prog.done a >>= f) = f a := rfl

@[simp] theorem call_bind (c : Call) (k : Reply c → Prog Reply α) (f : α → Prog Reply β) :
    (Prog.call c k >>= f) = .call c fun r => k r >>= f := rfl

@[simp] theorem ask_bind (c : Call) (f : Reply c → Prog Reply β) :
    (ask c >>= f) = .call c f := rfl

/-- Every call that the program can make passes the test. -/
def Only (P : Call → Prop) : Prog Reply α → Prop
  | .done _ => True
  | .call c k => P c ∧ ∀ r, (k r).Only P

variable {P : Call → Prop}

@[grind .] theorem only_pure (a : α) : (pure a : Prog Reply α).Only P := trivial

@[grind .] theorem only_ask {c : Call} (h : P c) : (ask c : Prog Reply (Reply c)).Only P :=
  ⟨h, fun _ => trivial⟩

@[grind ←] theorem only_bind {p : Prog Reply α} {f : α → Prog Reply β} (hp : p.Only P)
    (hf : ∀ a, (f a).Only P) : (p >>= f).Only P := by
  induction p with
  | done a => exact hf a
  | call c k ih => exact ⟨hp.1, fun r => ih r (hp.2 r)⟩

end Prog

/-! ### The machine -/

/-- A shared state with the atomic calls on it. `serve i c x s` is what call `c` of thread `i`
does in `s` under the surroundings' choice `x`; it is `none` where the call has to wait. -/
structure Machine {Call : Type} (Reply : Call → Type) (State Choice Op : Type) where
  serve : Nat → (c : Call) → Choice → State → Option (Reply c × State)
  /-- The program of each operation. -/
  prog : Op → Prog Reply Unit
  /-- Whether an operation can be started. -/
  enabled : Op → State → Bool
  /-- What is left of the state when the process dies with all its threads. -/
  restart : State → State

/-- The shared state and what each thread, numbered from its start on, has still to do. -/
structure Config {Call : Type} (Reply : Call → Type) (State : Type) where
  state : State
  threads : List (Prog Reply Unit)

inductive Decision (Choice Op : Type) where
  | start (op : Op)
  | run (i : Nat) (x : Choice)
  | restart
  deriving Repr

variable {Call : Type} {Reply : Call → Type} {State Choice Op : Type}

namespace Machine

variable (M : Machine Reply State Choice Op)

/-- Serve the next call of a thread. -/
def advance (i : Nat) (x : Choice) (cfg : Config Reply State) :
    Prog Reply Unit → Option (Config Reply State)
  | .done _ => none
  | .call c k =>
    match M.serve i c x cfg.state with
    | none => none
    | some (a, s) => some ⟨s, cfg.threads.set i (k a)⟩

def step (cfg : Config Reply State) : Decision Choice Op → Option (Config Reply State)
  | .start op =>
    if M.enabled op cfg.state then some ⟨cfg.state, cfg.threads ++ [M.prog op]⟩ else none
  | .run i x =>
    match cfg.threads[i]? with
    | none => none
    | some p => M.advance i x cfg p
  | .restart => some ⟨M.restart cfg.state, cfg.threads.map fun _ => .done ()⟩

/-- Follow a list of decisions. -/
def exec : Config Reply State → List (Decision Choice Op) → Option (Config Reply State)
  | cfg, [] => some cfg
  | cfg, d :: ds =>
    match M.step cfg d with
    | none => none
    | some cfg' => exec cfg' ds

/-- A condition on the calls of a run: on the thread, its call, the choice and the state before. -/
abbrev Condition (_M : Machine Reply State Choice Op) : Type :=
  Nat → Call → Choice → State → Prop

/-- The decision meets the condition, if it serves a call at all. -/
def Meets (ok : M.Condition) (cfg : Config Reply State) : Decision Choice Op → Prop
  | .run i x => ∀ c k, cfg.threads[i]? = some (.call c k) → ok i c x cfg.state
  | _ => True

/-- The configurations reached from `s` with no thread started yet, by steps that all meet
the condition. -/
inductive Reaches (ok : M.Condition) (s : State) : Config Reply State → Prop
  | start : Reaches ok s ⟨s, []⟩
  | step {cfg cfg' : Config Reply State} {d : Decision Choice Op} :
      Reaches ok s cfg → M.Meets ok cfg d → M.step cfg d = some cfg' → Reaches ok s cfg'

/-- The configurations that a run goes on to, by steps that all meet the condition. -/
inductive Leads (ok : M.Condition) (cfg : Config Reply State) : Config Reply State → Prop
  | refl : Leads ok cfg cfg
  | step {mid cfg' : Config Reply State} {d : Decision Choice Op} :
      Leads ok cfg mid → M.Meets ok mid d → M.step mid d = some cfg' → Leads ok cfg cfg'

/-- The configurations reached by any steps at all. -/
abbrev Reachable (s : State) : Config Reply State → Prop := M.Reaches (fun _ _ _ _ => True) s

variable {M}

theorem meets_true (cfg : Config Reply State) (d : Decision Choice Op) :
    M.Meets (fun _ _ _ _ => True) cfg d := by
  cases d <;> simp [Meets]

theorem Meets.mono {ok ok' : M.Condition} (himp : ∀ i c x s, ok i c x s → ok' i c x s)
    {cfg : Config Reply State} {d : Decision Choice Op} (h : M.Meets ok cfg d) :
    M.Meets ok' cfg d := by
  cases d with
  | run i x => exact fun c k hk => himp i c x cfg.state (h c k hk)
  | start => trivial
  | restart => trivial

/-- The runs under a condition are runs under a weaker one. -/
theorem Reaches.leads {ok : M.Condition} {s : State} {cfg cfg' : Config Reply State}
    (hr : M.Reaches ok s cfg) (h : M.Leads ok cfg cfg') : M.Reaches ok s cfg' := by
  induction h with
  | refl => exact hr
  | step _ hm hs ih => exact ih.step hm hs

theorem Reaches.leads_start {ok : M.Condition} {s : State} {cfg : Config Reply State}
    (hr : M.Reaches ok s cfg) : M.Leads ok ⟨s, []⟩ cfg := by
  induction hr with
  | start => exact .refl
  | step _ hm hs ih => exact ih.step hm hs

theorem Reaches.mono {ok ok' : M.Condition} (himp : ∀ i c x s, ok i c x s → ok' i c x s)
    {s : State} {cfg : Config Reply State} (h : M.Reaches ok s cfg) : M.Reaches ok' s cfg := by
  induction h with
  | start => exact .start
  | step _ hm h ih => exact ih.step (hm.mono himp) h

theorem Leads.mono {ok ok' : M.Condition} (himp : ∀ i c x s, ok i c x s → ok' i c x s)
    {cfg cfg' : Config Reply State} (h : M.Leads ok cfg cfg') : M.Leads ok' cfg cfg' := by
  induction h with
  | refl => exact .refl
  | step _ hm hs ih => exact ih.step (hm.mono himp) hs

/-- Everything a step can do. -/
theorem step_cases {cfg cfg' : Config Reply State} {d : Decision Choice Op}
    (h : M.step cfg d = some cfg') :
    (∃ op, d = .start op ∧ M.enabled op cfg.state = true ∧
      cfg' = ⟨cfg.state, cfg.threads ++ [M.prog op]⟩) ∨
    (∃ i x c k a s, d = .run i x ∧ cfg.threads[i]? = some (.call c k) ∧
      M.serve i c x cfg.state = some (a, s) ∧ cfg' = ⟨s, cfg.threads.set i (k a)⟩) ∨
    (d = .restart ∧ cfg' = ⟨M.restart cfg.state, cfg.threads.map fun _ => .done ()⟩) := by
  cases d with
  | start op =>
    simp only [step] at h
    split at h
    · exact .inl ⟨op, rfl, ‹_›, (Option.some.inj h).symm⟩
    · cases h
  | run i x =>
    simp only [step] at h
    rcases hp : cfg.threads[i]? with _ | (a | ⟨c, k⟩)
    · simp [hp] at h
    · simp [hp, advance] at h
    · rcases hs : M.serve i c x cfg.state with _ | ⟨a, s⟩
      · simp [hp, advance, hs] at h
      · refine .inr (.inl ⟨i, x, c, k, a, s, rfl, hp, hs, ?_⟩)
        simpa [hp, advance, hs] using h.symm
  | restart => exact .inr (.inr ⟨rfl, (Option.some.inj h).symm⟩)

theorem step_of_serve {cfg : Config Reply State} {i : Nat} {x : Choice} {c : Call}
    {k : Reply c → Prog Reply Unit} {a : Reply c} {s : State}
    (hi : cfg.threads[i]? = some (.call c k)) (hs : M.serve i c x cfg.state = some (a, s)) :
    M.step cfg (.run i x) = some ⟨s, cfg.threads.set i (k a)⟩ := by
  simp [step, hi, advance, hs]

theorem reachable_exec {s : State} {cfg cfg' : Config Reply State} :
    ∀ {ds : List (Decision Choice Op)}, M.Reachable s cfg → M.exec cfg ds = some cfg' →
      M.Reachable s cfg'
  | [], hr, h => by cases h; exact hr
  | d :: ds, hr, h => by
    simp only [exec] at h
    split at h
    · cases h
    · rename_i mid hmid
      exact reachable_exec (hr.step (meets_true cfg d) hmid) h

/-- A run that ends where the test holds shows a reachable configuration that passes it. -/
theorem exists_reachable_of_exec {s : State} (ds : List (Decision Choice Op))
    (p : Config Reply State → Bool) (h : (M.exec ⟨s, []⟩ ds).any p = true) :
    ∃ cfg, M.Reachable s cfg ∧ p cfg = true := by
  rcases hc : M.exec ⟨s, []⟩ ds with _ | cfg
  · simp [hc] at h
  · exact ⟨cfg, reachable_exec .start hc, by simpa [hc] using h⟩

/-- The same for the last step of a run. -/
theorem exists_step_of_exec {s : State} (ds : List (Decision Choice Op)) (d : Decision Choice Op)
    (p : Config Reply State → Config Reply State → Bool)
    (h : ((M.exec ⟨s, []⟩ ds).any fun cfg => (M.step cfg d).any (p cfg)) = true) :
    ∃ cfg cfg', M.Reachable s cfg ∧ M.step cfg d = some cfg' ∧ p cfg cfg' = true := by
  obtain ⟨cfg, hr, hp⟩ := exists_reachable_of_exec ds _ h
  rcases hs : M.step cfg d with _ | cfg'
  · simp [hs] at hp
  · exact ⟨cfg, cfg', hr, hs, by simpa [hs] using hp⟩

/-! ### Runs that meet a condition -/

section Condition

variable (M) (ok : M.Condition) [∀ i c x s, Decidable (ok i c x s)]

/-- The condition, checked for the call that the decision serves. -/
def meets (cfg : Config Reply State) : Decision Choice Op → Bool
  | .run i x =>
    match cfg.threads[i]? with
    | some (.call c _) => ok i c x cfg.state
    | _ => true
  | _ => true

/-- Follow a list of decisions as long as they meet the condition. -/
def execMeeting : Config Reply State → List (Decision Choice Op) → Option (Config Reply State)
  | cfg, [] => some cfg
  | cfg, d :: ds =>
    if M.meets ok cfg d then
      match M.step cfg d with
      | none => none
      | some cfg' => execMeeting cfg' ds
    else none

variable {M ok}

theorem meets_of_meets {cfg : Config Reply State} {d : Decision Choice Op}
    (h : M.meets ok cfg d = true) : M.Meets ok cfg d := by
  cases d with
  | start op => trivial
  | restart => trivial
  | run i x =>
    intro c k hk
    simpa [meets, hk] using h

theorem leads_execMeeting {start cfg cfg' : Config Reply State} :
    ∀ {ds : List (Decision Choice Op)}, M.Leads ok start cfg →
      M.execMeeting ok cfg ds = some cfg' → M.Leads ok start cfg'
  | [], hl, h => by cases h; exact hl
  | d :: ds, hl, h => by
    simp only [execMeeting] at h
    split at h
    · rename_i hm
      split at h
      · cases h
      · rename_i mid hmid
        exact leads_execMeeting (hl.step (meets_of_meets hm) hmid) h
    · cases h

theorem reaches_execMeeting {s : State} {cfg cfg' : Config Reply State}
    {ds : List (Decision Choice Op)} (hr : M.Reaches ok s cfg)
    (h : M.execMeeting ok cfg ds = some cfg') : M.Reaches ok s cfg' :=
  hr.leads (leads_execMeeting .refl h)

variable (ok) in
/-- A run that goes on under the condition to where the test holds. -/
theorem exists_leads_of_execMeeting {s : State} (ds ds' : List (Decision Choice Op))
    (p : Config Reply State → Config Reply State → Bool)
    (h : ((M.exec ⟨s, []⟩ ds).any fun cfg => (M.execMeeting ok cfg ds').any (p cfg)) = true) :
    ∃ cfg cfg', M.Reachable s cfg ∧ M.Leads ok cfg cfg' ∧ p cfg cfg' = true := by
  obtain ⟨cfg, hr, hp⟩ := exists_reachable_of_exec ds _ h
  rcases hs : M.execMeeting ok cfg ds' with _ | cfg'
  · simp [hs] at hp
  · exact ⟨cfg, cfg', hr, leads_execMeeting .refl hs, by simpa [hs] using hp⟩

variable (ok) in
/-- A run under the condition and its last step. -/
theorem exists_step_of_execMeeting {s : State} (ds : List (Decision Choice Op))
    (d : Decision Choice Op) (p : Config Reply State → Config Reply State → Bool)
    (h : ((M.execMeeting ok ⟨s, []⟩ ds).any fun cfg =>
      M.meets ok cfg d && (M.step cfg d).any (p cfg)) = true) :
    ∃ cfg cfg', M.Reaches ok s cfg ∧ M.Meets ok cfg d ∧ M.step cfg d = some cfg' ∧
      p cfg cfg' = true := by
  rcases hc : M.execMeeting ok ⟨s, []⟩ ds with _ | cfg
  · simp [hc] at h
  · simp only [hc, Option.any_some, Bool.and_eq_true] at h
    rcases hs : M.step cfg d with _ | cfg'
    · simp [hs] at h
    · exact ⟨cfg, cfg', reaches_execMeeting .start hc, meets_of_meets h.1, hs,
        by simpa [hs] using h.2⟩

end Condition

end Machine

end CiRunner.Threads
