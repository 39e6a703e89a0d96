import CiRunner.Threads.Machine

/-! Correctness of one program on its own. `Ends`: whatever the surroundings choose
among what they are allowed to, no call has to wait and the program ends as it
should. `Runs`: the program runs to its end with some such choices. `Yields`: the
program ends as it should, beside others, where the replies to its calls are as they
should be. -/

namespace CiRunner.Threads.Machine

variable {Call : Type} {Reply : Call → Type} {State Choice Op α β : Type}

/-- Thread `i` runs the program from `s` to its end, with a result and a state related by `Q`,
whatever is chosen of what is allowed. -/
def Ends (M : Machine Reply State Choice Op) (i : Nat) (allowed : Call → Choice → Prop)
    (Q : α → State → Prop) : Prog Reply α → State → Prop
  | .done a, s => Q a s
  | .call c k, s =>
    ∀ x, allowed c x → ∃ r t, M.serve i c x s = some (r, t) ∧ Ends M i allowed Q (k r) t

variable {M : Machine Reply State Choice Op} {i : Nat} {allowed : Call → Choice → Prop}
  {Q Q' : α → State → Prop} {s : State}

theorem ends_done {a : α} : M.Ends i allowed Q (.done a) s ↔ Q a s := Iff.rfl

theorem ends_call {c : Call} {k : Reply c → Prog Reply α} :
    M.Ends i allowed Q (.call c k) s ↔
      ∀ x, allowed c x → ∃ r t, M.serve i c x s = some (r, t) ∧ M.Ends i allowed Q (k r) t :=
  Iff.rfl

theorem ends_ask {c : Call} {k : Reply c → Prog Reply α} :
    M.Ends i allowed Q (Prog.ask c >>= k) s ↔
      ∀ x, allowed c x → ∃ r t, M.serve i c x s = some (r, t) ∧ M.Ends i allowed Q (k r) t :=
  Iff.rfl

theorem Ends.mono {p : Prog Reply α} (h : M.Ends i allowed Q p s)
    (himp : ∀ a t, Q a t → Q' a t) : M.Ends i allowed Q' p s := by
  induction p generalizing s with
  | done a => exact himp a s h
  | call c k ih =>
    intro x hx
    obtain ⟨r, t, hserve, hk⟩ := h x hx
    exact ⟨r, t, hserve, ih r hk⟩

theorem Ends.bind {P : β → State → Prop} {p : Prog Reply β} {f : β → Prog Reply α}
    (h : M.Ends i allowed P p s) (hf : ∀ b t, P b t → M.Ends i allowed Q (f b) t) :
    M.Ends i allowed Q (p >>= f) s := by
  induction p generalizing s with
  | done b => exact hf b s h
  | call c k ih =>
    intro x hx
    obtain ⟨r, t, hserve, hk⟩ := h x hx
    exact ⟨r, t, hserve, ih r hk⟩

/-! ### Single runs -/

/-- Thread `i` can run the program from `s` to its end, with the given result and state. -/
def Runs (M : Machine Reply State Choice Op) (i : Nat) (allowed : Call → Choice → Prop) :
    Prog Reply α → State → α → State → Prop
  | .done a, s, b, t => b = a ∧ t = s
  | .call c k, s, b, t =>
    ∃ x r u, allowed c x ∧ M.serve i c x s = some (r, u) ∧ Runs M i allowed (k r) u b t

theorem runs_ask {c : Call} {k : Reply c → Prog Reply α} {b : α} {t : State} :
    M.Runs i allowed (Prog.ask c >>= k) s b t ↔ ∃ x r u, allowed c x ∧
      M.serve i c x s = some (r, u) ∧ M.Runs i allowed (k r) u b t :=
  Iff.rfl

theorem Ends.of_runs {p : Prog Reply α} {b : α} {t : State} (h : M.Ends i allowed Q p s)
    (hrun : M.Runs i allowed p s b t) : Q b t := by
  induction p generalizing s with
  | done a =>
    obtain ⟨rfl, rfl⟩ := hrun
    exact h
  | call c k ih =>
    obtain ⟨x, r, u, hx, hserve, hrun⟩ := hrun
    obtain ⟨r', u', hserve', hk⟩ := h x hx
    rw [hserve] at hserve'
    cases hserve'
    exact ih r hk hrun

theorem Ends.exists_runs {p : Prog Reply α} (h : M.Ends i allowed Q p s)
    (hsome : ∀ c, ∃ x, allowed c x) : ∃ b t, M.Runs i allowed p s b t ∧ Q b t := by
  induction p generalizing s with
  | done a => exact ⟨a, s, ⟨rfl, rfl⟩, h⟩
  | call c k ih =>
    obtain ⟨x, hx⟩ := hsome c
    obtain ⟨r, u, hserve, hk⟩ := h x hx
    obtain ⟨b, t, hrun, hq⟩ := ih r hk
    exact ⟨b, t, ⟨x, r, u, hx, hserve, hrun⟩, hq⟩

/-! ### Beside others -/

/-- The terms on which a program runs: what others may do to the state between two of its calls,
the calls that it may make, and the replies that it may rely on. -/
structure Terms (M : Machine Reply State Choice Op) where
  others : State → State → Prop
  may : Call → Prop
  ok : (c : Call) → Choice → Reply c → Prop

/-- Run by thread `i` on these terms, the program makes no call but those it may, and it ends with
a result and a state related by `Q`. -/
def Yields (M : Machine Reply State Choice Op) (i : Nat) (T : M.Terms) (Q : α → State → Prop) :
    Prog Reply α → State → Prop
  | .done a, s => Q a s
  | .call c k, s => T.may c ∧ ∀ s', T.others s s' → ∀ x r t, M.serve i c x s' = some (r, t) →
    T.ok c x r → Yields M i T Q (k r) t

variable {T : M.Terms}

theorem yields_done {a : α} : M.Yields i T Q (.done a) s ↔ Q a s := Iff.rfl

theorem yields_ask {c : Call} {k : Reply c → Prog Reply α} :
    M.Yields i T Q (Prog.ask c >>= k) s ↔ T.may c ∧ ∀ s', T.others s s' → ∀ x r t,
      M.serve i c x s' = some (r, t) → T.ok c x r → M.Yields i T Q (k r) t :=
  Iff.rfl

theorem Yields.mono {p : Prog Reply α} (h : M.Yields i T Q p s)
    (himp : ∀ a t, Q a t → Q' a t) : M.Yields i T Q' p s := by
  induction p generalizing s with
  | done a => exact himp a s h
  | call c k ih =>
    obtain ⟨hmay, hk⟩ := h
    exact ⟨hmay, fun s' ho x r t hserve hok => ih r (hk s' ho x r t hserve hok)⟩

theorem Yields.bind {P : β → State → Prop} {p : Prog Reply β} {f : β → Prog Reply α}
    (h : M.Yields i T P p s) (hf : ∀ b t, P b t → M.Yields i T Q (f b) t) :
    M.Yields i T Q (p >>= f) s := by
  induction p generalizing s with
  | done b => exact hf b s h
  | call c k ih =>
    obtain ⟨hmay, hk⟩ := h
    exact ⟨hmay, fun s' ho x r t hserve hok => ih r (hk s' ho x r t hserve hok)⟩

-- A proof goes through a program by these rules, never by evaluating it.
attribute [irreducible] Ends Runs Yields

end CiRunner.Threads.Machine
