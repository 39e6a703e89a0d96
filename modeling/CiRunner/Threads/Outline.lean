import CiRunner.Threads.Machine

/-! Proof outlines for interleaved programs. A thread carries knowledge that the
steps of the other threads cannot falsify; each call has an obligation in terms of
that knowledge and adds to it. A program follows the outline when every call on
every path is made under its obligation, which is a property of the program tree
alone. If the calls are sound for the outline, its invariant and the effect it
allows hold along every run of any number of programs that follow it. -/

namespace CiRunner.Threads

variable {Call : Type} {Reply : Call → Type} {State Choice Op Know α β : Type}

/-- What the threads of a machine know, must show and learn at each call. -/
structure Outline (M : Machine Reply State Choice Op) (Know : Type) where
  /-- The runs considered. -/
  ok : M.Condition
  inv : State → Prop
  /-- The knowledge is true of the state, for the thread that has it. -/
  holds : Nat → Know → State → Prop
  /-- What one step of a thread may do to the state. -/
  effect : Nat → State → State → Prop
  /-- The obligation of a call. -/
  may : Know → Call → Prop
  /-- What is certain about the reply. -/
  tells : Know → (c : Call) → Reply c → Prop
  learn : Know → (c : Call) → Reply c → Know

namespace Outline

variable {M : Machine Reply State Choice Op} (O : Outline M Know)

/-- Started with the given knowledge, every call of the program meets its obligation, and the
program ends with a result and knowledge related by `Q`. -/
def Follows (Q : Know → α → Prop) : Know → Prog Reply α → Prop
  | κ, .done a => Q κ a
  | κ, .call c k => O.may κ c ∧ ∀ a, O.tells κ c a → Follows Q (O.learn κ c a) (k a)

/-- The calls do what the outline says, and nothing a thread does takes knowledge from another. -/
structure Sound (fresh : Op → Know) : Prop where
  serve : ∀ {i κ c x a s s'}, O.inv s → O.holds i κ s → O.may κ c → O.ok i c x s →
    M.serve i c x s = some (a, s') →
    O.tells κ c a ∧ O.inv s' ∧ O.holds i (O.learn κ c a) s' ∧ O.effect i s s'
  stable : ∀ {i j κ s s'}, i ≠ j → O.inv s → O.inv s' → O.effect i s s' → O.holds j κ s →
    O.holds j κ s'
  fresh_holds : ∀ {i op s}, O.inv s → M.enabled op s = true → O.holds i (fresh op) s
  restart_inv : ∀ {s}, O.inv s → O.inv (M.restart s)
  follows : ∀ op, O.Follows (fun _ _ => True) (fresh op) (M.prog op)

variable {O}

theorem follows_done {Q : Know → α → Prop} {κ : Know} {a : α} :
    O.Follows Q κ (.done a) ↔ Q κ a := Iff.rfl

theorem follows_call {Q : Know → α → Prop} {κ : Know} {c : Call} {k : Reply c → Prog Reply α} :
    O.Follows Q κ (.call c k) ↔
      O.may κ c ∧ ∀ a, O.tells κ c a → O.Follows Q (O.learn κ c a) (k a) := Iff.rfl

-- From here on a proof goes through a program by the rules below, never by evaluating it.
attribute [irreducible] Follows

theorem follows_pure {Q : Know → α → Prop} {κ : Know} {a : α} (h : Q κ a) :
    O.Follows Q κ (pure a) :=
  follows_done.mpr h

theorem follows_ask (O : Outline M Know) (c : Call) {κ : Know} {Q : Know → Reply c → Prop}
    (hm : O.may κ c) (h : ∀ a, O.tells κ c a → Q (O.learn κ c a) a) :
    O.Follows Q κ (Prog.ask c) :=
  follows_call.mpr ⟨hm, fun a ha => follows_done.mpr (h a ha)⟩

theorem follows_ask_bind {Q : Know → α → Prop} {κ : Know} {c : Call} {f : Reply c → Prog Reply α}
    (hm : O.may κ c) (hf : ∀ a, O.tells κ c a → O.Follows Q (O.learn κ c a) (f a)) :
    O.Follows Q κ (Prog.ask c >>= f) :=
  follows_call.mpr ⟨hm, hf⟩

theorem Follows.mono {Q Q' : Know → α → Prop} (h : ∀ κ a, Q κ a → Q' κ a) :
    ∀ {κ : Know} {p : Prog Reply α}, O.Follows Q κ p → O.Follows Q' κ p
  | _, .done _, hp => follows_done.mpr (h _ _ (follows_done.mp hp))
  | _, .call _ _, hp =>
    follows_call.mpr ⟨(follows_call.mp hp).1, fun a ha => ((follows_call.mp hp).2 a ha).mono h⟩

theorem Follows.bind {Q : Know → α → Prop} {Q' : Know → β → Prop} {f : α → Prog Reply β}
    (hf : ∀ κ a, Q κ a → O.Follows Q' κ (f a)) :
    ∀ {κ : Know} {p : Prog Reply α}, O.Follows Q κ p → O.Follows Q' κ (p >>= f)
  | _, .done _, hp => hf _ _ (follows_done.mp hp)
  | _, .call _ _, hp =>
    follows_call.mpr ⟨(follows_call.mp hp).1, fun a ha => ((follows_call.mp hp).2 a ha).bind hf⟩

/-- A program follows an outline by what it asks of the calls, whatever it says of the states. -/
theorem Follows.congr {State' Choice' Op' : Type} {M' : Machine Reply State' Choice' Op'}
    {O' : Outline M' Know} {Q : Know → α → Prop} (hm : O'.may = O.may)
    (ht : O'.tells = O.tells) (hl : O'.learn = O.learn) :
    ∀ {κ : Know} {p : Prog Reply α}, O.Follows Q κ p → O'.Follows Q κ p
  | _, .done _, hp => follows_done.mpr (follows_done.mp hp)
  | _, .call _ _, hp => by
    obtain ⟨hmay, hnext⟩ := follows_call.mp hp
    refine follows_call.mpr ⟨hm ▸ hmay, fun a ha => ?_⟩
    rw [ht] at ha
    rw [hl]
    exact (hnext a ha).congr hm ht hl

theorem follows_of_only {P : Call → Prop} (hP : ∀ κ c, P c → O.may κ c) :
    ∀ {κ : Know} {p : Prog Reply α}, p.Only P → O.Follows (fun _ _ => True) κ p
  | _, .done _, _ => follows_done.mpr trivial
  | κ, .call c _, h => follows_call.mpr ⟨hP κ c h.1, fun a _ => follows_of_only hP (h.2 a)⟩

/-- Each thread that still has something to do knows enough to go on. -/
def Good (O : Outline M Know) (cfg : Config Reply State) : Prop :=
  O.inv cfg.state ∧ ∀ i c k, cfg.threads[i]? = some (.call c k) →
    ∃ κ, O.holds i κ cfg.state ∧ O.Follows (fun _ _ => True) κ (.call c k)

namespace Sound

variable {fresh : Op → Know} (hO : O.Sound fresh)
include hO

theorem good_run {s s' : State} {threads : List (Prog Reply Unit)} {i : Nat} {x : Choice}
    {c : Call} {k : Reply c → Prog Reply Unit} {a : Reply c} (hg : O.Good ⟨s, threads⟩)
    (hi : threads[i]? = some (.call c k)) (hok : O.ok i c x s)
    (hs : M.serve i c x s = some (a, s')) :
    O.Good ⟨s', threads.set i (k a)⟩ ∧ O.effect i s s' := by
  obtain ⟨κ, hκ, hfollows⟩ := hg.2 i c k hi
  obtain ⟨hmay, hnext⟩ := follows_call.mp hfollows
  obtain ⟨htells, hinv, hlearn, heff⟩ := hO.serve hg.1 hκ hmay hok hs
  refine ⟨⟨hinv, fun j d l hj => ?_⟩, heff⟩
  by_cases hij : i = j
  · subst hij
    have hlt : i < threads.length := (List.getElem?_eq_some_iff.mp hi).1
    rw [List.getElem?_set_self hlt] at hj
    have hka : k a = .call d l := Option.some.inj hj
    exact ⟨_, hlearn, hka ▸ hnext a htells⟩
  · rw [List.getElem?_set_ne hij] at hj
    obtain ⟨κ', hκ', hf⟩ := hg.2 j d l hj
    exact ⟨κ', hO.stable hij hg.1 hinv heff hκ', hf⟩

theorem good_step {cfg cfg' : Config Reply State} {d : Decision Choice Op} (hg : O.Good cfg)
    (hm : M.Meets O.ok cfg d) (h : M.step cfg d = some cfg') : O.Good cfg' := by
  obtain ⟨op, -, hen, rfl⟩ | ⟨i, x, c, k, a, s, rfl, hi, hs, rfl⟩ | ⟨-, rfl⟩ :=
    Machine.step_cases h
  · refine ⟨hg.1, fun j c k hj => ?_⟩
    by_cases hlt : j < cfg.threads.length
    · rw [List.getElem?_append_left hlt] at hj
      exact hg.2 j c k hj
    · rw [List.getElem?_append_right (by omega)] at hj
      have hp : M.prog op = .call c k := by
        rcases hn : j - cfg.threads.length with _ | n
        · simpa [hn] using hj
        · simp [hn] at hj
      exact ⟨fresh op, hO.fresh_holds hg.1 hen, hp ▸ hO.follows op⟩
  · exact (hO.good_run hg hi (hm c k hi) hs).1
  · refine ⟨hO.restart_inv hg.1, fun j c k hj => ?_⟩
    simp only [List.getElem?_map, Option.map_eq_some_iff] at hj
    obtain ⟨_, _, hc⟩ := hj
    cases hc

theorem good_of_reaches {s : State} {cfg : Config Reply State} (hs : O.inv s)
    (hr : M.Reaches O.ok s cfg) : O.Good cfg := by
  induction hr with
  | start => exact ⟨hs, by simp⟩
  | step _ hm h ih => exact hO.good_step ih hm h

/-- The invariant holds in every state reached. -/
theorem inv_of_reaches {s : State} {cfg : Config Reply State} (hs : O.inv s)
    (hr : M.Reaches O.ok s cfg) : O.inv cfg.state :=
  (hO.good_of_reaches hs hr).1

/-- Every call on the way is made under its obligation. -/
theorem may_of_reaches {s : State} {cfg : Config Reply State} {i : Nat} {c : Call}
    {k : Reply c → Prog Reply Unit} (hs : O.inv s) (hr : M.Reaches O.ok s cfg)
    (hi : cfg.threads[i]? = some (.call c k)) : ∃ κ, O.holds i κ cfg.state ∧ O.may κ c := by
  obtain ⟨κ, hκ, hf⟩ := (hO.good_of_reaches hs hr).2 i c k hi
  exact ⟨κ, hκ, (follows_call.mp hf).1⟩

theorem effect_of_reaches {s : State} {cfg cfg' : Config Reply State} {i : Nat} {x : Choice}
    (hs : O.inv s) (hr : M.Reaches O.ok s cfg) (hm : M.Meets O.ok cfg (.run i x))
    (h : M.step cfg (.run i x) = some cfg') : O.effect i cfg.state cfg'.state := by
  obtain ⟨op, hd, -⟩ | ⟨j, y, c, k, a, t, hd, hi, hs', rfl⟩ | ⟨hd, -⟩ := Machine.step_cases h
  · cases hd
  · cases hd
    exact (hO.good_run (hO.good_of_reaches hs hr) hi (hm c k hi) hs').2
  · cases hd

/-! ### Properties on top of the outline -/

section Condition

variable {ok : M.Condition} (himp : ∀ i c x s, ok i c x s → O.ok i c x s)
include himp

/-- A step of a run under a stronger condition serves a call that is made under its obligation,
or leaves the state to a restart, or leaves it as it is. -/
theorem served_of_reaches {s : State} {cfg cfg' : Config Reply State} {d : Decision Choice Op}
    (hs : O.inv s) (hr : M.Reaches ok s cfg) (hm : M.Meets ok cfg d)
    (h : M.step cfg d = some cfg') :
    cfg'.state = cfg.state ∨ cfg'.state = M.restart cfg.state ∨
    ∃ i x c k κ a, d = .run i x ∧ cfg.threads[i]? = some (.call c k) ∧ O.holds i κ cfg.state ∧
      O.may κ c ∧ ok i c x cfg.state ∧ M.serve i c x cfg.state = some (a, cfg'.state) := by
  obtain ⟨op, -, -, rfl⟩ | ⟨i, x, c, k, a, s', rfl, hi, hserve, rfl⟩ | ⟨-, rfl⟩ :=
    Machine.step_cases h
  · exact .inl rfl
  · obtain ⟨κ, hκ, hmay⟩ := hO.may_of_reaches hs (hr.mono himp) hi
    exact .inr (.inr ⟨i, x, c, k, κ, a, rfl, hi, hκ, hmay, hm c k hi, hserve⟩)
  · exact .inr (.inl rfl)

/-- What every call that is made under its obligation preserves is kept as a run goes on under a
stronger condition. -/
theorem preserved_of_leads {J : State → Prop} {s : State} (hs : O.inv s)
    (hserve : ∀ {i x c κ a t t'}, O.inv t → O.holds i κ t → O.may κ c → ok i c x t →
      M.serve i c x t = some (a, t') → J t → J t')
    (hrestart : ∀ {t}, J t → J (M.restart t)) {cfg cfg' : Config Reply State}
    (hr : M.Reaches O.ok s cfg) (hl : M.Leads ok cfg cfg') (hJ : J cfg.state) : J cfg'.state := by
  induction hl with
  | refl => exact hJ
  | @step mid cfg' d hl hm h ih =>
    have hr' : M.Reaches O.ok s mid := hr.leads (hl.mono himp)
    have hinv := hO.inv_of_reaches hs hr'
    obtain ⟨op, -, -, rfl⟩ | ⟨i, x, c, k, a, t, rfl, hi, hcall, rfl⟩ | ⟨-, rfl⟩ :=
      Machine.step_cases h
    · exact ih
    · obtain ⟨κ, hκ, hmay⟩ := hO.may_of_reaches hs hr' hi
      exact hserve hinv hκ hmay (hm c k hi) hcall ih
    · exact hrestart ih

/-- What every call that is made under its obligation preserves holds in every state reached. -/
theorem invariant_of_reaches {J : State → Prop} {s : State} (hs : O.inv s) (hJ : J s)
    (hserve : ∀ {i x c κ a t t'}, O.inv t → O.holds i κ t → O.may κ c → ok i c x t →
      M.serve i c x t = some (a, t') → J t → J t')
    (hrestart : ∀ {t}, J t → J (M.restart t)) {cfg : Config Reply State}
    (hr : M.Reaches ok s cfg) : J cfg.state :=
  hO.preserved_of_leads himp hs hserve hrestart .start hr.leads_start hJ

end Condition

end Sound

end Outline

end CiRunner.Threads
