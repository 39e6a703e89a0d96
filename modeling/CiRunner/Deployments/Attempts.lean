import CiRunner.Deployments.Quota

/-! The attempts of a deployment. The write that begins an attempt counts it, so no two
are begun with the same number, and the thread that has begun one is the only one to
create its sandbox. Between the two the thread may fall behind: once a lookup has given
its attempt up, the deployment can be retried, and the next attempt be created first. -/

namespace CiRunner.Deployments

open Text Threads Tables
open CiRunner.State (Time)

variable {settings : Settings} {maxConcurrent limit i : Nat} {κ : Know} {s s' : State} {x : Choice}
  {e : Call}

/-- A creation is in time as long as no lookup has given the attempt up. -/
def InTime (c : Call) (s : State) : Prop :=
  match c with
  | .createRuntime d attempt => (d.id, attempt) ∉ s.settled
  | _ => True

def inTime : Call → State → Bool
  | .createRuntime d attempt, s => !s.settled.contains (d.id, attempt)
  | _, _ => true

theorem inTime_iff (c : Call) (s : State) : inTime c s = true ↔ InTime c s := by
  unfold inTime InTime
  cases c with
  | createRuntime d attempt => simp
  | _ => simp

instance (c : Call) (s : State) : Decidable (InTime c s) := decidable_of_iff _ (inTime_iff c s)

/-- The attempts of each deployment were created in order; the last one stands first. -/
def InOrder (attempts : List (String × Nat)) : Prop :=
  attempts.Pairwise fun p q => p.1 = q.1 → q.2 < p.2

theorem Inv.created_lt (h : Inv s) {id : String} {attempt : Nat}
    (hticket : (i, id, attempt) ∈ s.tickets) (hsettled : (id, attempt) ∉ s.settled) {n : Nat}
    (hmem : (id, n) ∈ s.creations) : n < attempt := by
  obtain ⟨row, hrow, hattempt, -⟩ := h.pending ⟨⟨i, hticket⟩, hsettled⟩
  have hle := (h.committed (h.creations hmem)).2.2 hrow
  have hne : n ≠ attempt := by
    rintro rfl
    exact (h.tickets hticket).2 hmem
  omega

theorem InOrder.action (h : InOrder s.creations) (hinv : Inv s) (hκ : Holds limit i κ s)
    (hintime : InTime e s) (haction : Action i κ e x s s') : InOrder s'.creations := by
  cases haction with
  | idle | sameCores | prune | locks | create | retry | resolve | answer => exact h
  | @update w c d row row' st' =>
    obtain ⟨-, he⟩ | ⟨-, tickets, -, he⟩ := s.record_cases i w d x.lost
    all_goals
      rw [he]
      exact h
  | make hcall hticket _ =>
    subst hcall
    refine List.pairwise_cons.mpr ⟨fun ⟨id, n⟩ hmem hid => ?_, h⟩
    dsimp only at hid
    subst hid
    exact hinv.created_lt (hκ _ hticket) hintime hmem

/-- A creation is of an attempt that was begun before. -/
theorem Action.created_mem (haction : Action i κ e x s s') (hinv : Inv s) (hκ : Holds limit i κ s)
    {p : String × Nat} (hp : s'.creations = p :: s.creations) : p ∈ s.commits := by
  have hne : s.creations ≠ p :: s.creations := (List.cons_ne_self p _).symm
  cases haction with
  | idle | sameCores | prune | locks | create | retry | resolve | answer => exact absurd hp hne
  | @update w c d row row' st' =>
    obtain ⟨-, he⟩ | ⟨-, tickets, -, he⟩ := s.record_cases i w d x.lost
    all_goals
      rw [he] at hp
      exact absurd hp hne
  | make _ hticket _ =>
    cases List.cons_eq_cons.mp hp |>.1
    exact (hinv.tickets (hκ _ hticket)).1

/-- An attempt is begun by a write that leaves its row creating. -/
theorem Action.begun_row (haction : Action i κ e x s s') {p : String × Nat}
    (hp : s'.commits = p :: s.commits) : ∃ row, s'.store.find p.1 = some row ∧
      row.status = .creating ∧ row.attempt = p.2 := by
  have hne : s.commits ≠ p :: s.commits := (List.cons_ne_self p _).symm
  cases haction with
  | idle | sameCores | prune | locks | create | retry | make | resolve | answer =>
    exact absurd hp hne
  | @update w c d row row' st' _ _ hw _ ha =>
    obtain ⟨-, he⟩ | ⟨rfl, tickets, -, he⟩ := s.record_cases i w d x.lost
    · rw [he] at hp
      exact absurd hp hne
    · rw [he] at hp ⊢
      cases List.cons_eq_cons.mp hp |>.1
      refine ⟨row', (ha.find' _).trans (if_pos rfl), ?_, congrArg Core.attempt ha.core'⟩
      have hstatus : d.core.status = .creating := by rw [hw.2]
      exact (congrArg Core.status ha.core').trans hstatus

/-- In runs that create no sandbox for an attempt that has been given up, and no deployment under an
id that one has had before, each attempt is created at most once, the attempts of a deployment are
created in ascending order, and each was begun, in a row that was creating, before it was created. -/
theorem creations_once_in_order {st : Store} {cfg : Config Reply State} (hst : st.WellFormed)
    (hr : (machine settings).Reaches (fun _ c x s => Fresh c x s ∧ InTime c s) (State.initial st)
      cfg) :
    cfg.state.creations.Nodup ∧ InOrder cfg.state.creations ∧
    ∀ d cfg', (machine settings).Meets (fun _ c x s => Fresh c x s ∧ InTime c s) cfg d →
      (machine settings).step cfg d = some cfg' →
      (∀ p, cfg'.state.creations = p :: cfg.state.creations → p ∈ cfg.state.commits) ∧
      ∀ p, cfg'.state.commits = p :: cfg.state.commits → ∃ row,
        cfg'.state.store.find p.1 = some row ∧ row.status = .creating ∧ row.attempt = p.2 := by
  have himp : ∀ (i : Nat) (c : Call) (x : Choice) (s : State),
      Fresh c x s ∧ InTime c s → Fresh c x s := fun _ _ _ _ h => h.1
  have hsound := outline_sound settings
  have hinv : Inv cfg.state := hsound.inv_of_reaches (inv_initial hst) (hr.mono himp)
  have horder : InOrder cfg.state.creations := by
    refine hsound.invariant_of_reaches (J := fun s => InOrder s.creations) himp (inv_initial hst)
      (inv_initial hst).order ?_ (fun h => h) hr
    intro i x c κ a s s' hinv hκ hmay hok hserve h
    exact h.action hinv hκ hok.2 (action_of_serve hκ hmay hserve)
  refine ⟨hinv.once, horder, fun d cfg' hm hstep => ?_⟩
  obtain he | he | ⟨i, x, c, k, κ, a, -, -, hκ, hmay, -, hserve⟩ :=
    hsound.served_of_reaches himp (inv_initial hst) hr hm hstep
  · rw [he]
    exact ⟨fun p hp => absurd hp.symm (List.cons_ne_self p _),
      fun p hp => absurd hp.symm (List.cons_ne_self p _)⟩
  · rw [he]
    exact ⟨fun p hp => absurd hp.symm (List.cons_ne_self p _),
      fun p hp => absurd hp.symm (List.cons_ne_self p _)⟩
  · have haction := action_of_serve hκ hmay hserve
    exact ⟨fun _ => haction.created_mem hinv hκ, fun _ => haction.begun_row⟩

/-- The first attempt fails and the deployment is retried. -/
def secondAttempt : List (Decision Choice Op) :=
  created 0 "k" 1 ++
  .start (.lane .provision "k") :: calls 1 14 (atTime 2) ++
  .start (.retry 1 "k" (.revision 0)) :: calls 2 11 (atTime 3) ++
  .start (.lane .provision "k") :: calls 3 11 (atTime 4)

theorem creations_once_in_order_retried :
    ∃ cfg, (machine oneAtATime).Reaches (fun _ c x s => Fresh c x s ∧ InTime c s)
        (State.initial .empty) cfg ∧
      cfg.state.creations = [("k", 2), ("k", 1)] ∧ InOrder cfg.state.creations := by
  obtain ⟨cfg, cfg', hr, hm, hstep, hp⟩ := Machine.exists_step_of_execMeeting
    (M := machine oneAtATime) (fun _ c x s => Fresh c x s ∧ InTime c s) (s := State.initial .empty)
    secondAttempt (.run 3 (atTime 5))
    (fun _ cfg => decide (cfg.state.creations = [("k", 2), ("k", 1)])) (by decide +kernel)
  have hreaches := hr.step hm hstep
  exact ⟨cfg', hreaches, of_decide_eq_true hp,
    (creations_once_in_order Store.wellFormed_empty hreaches).2.1⟩

/-- A worker stops short between the write that begins the first attempt and the creation. More
than two minutes after the expiry a lookup finds no sandbox and the attempt is given up; the
deployment is retried, the second attempt is created, and then the worker goes on. -/
def lateCreation : List (Decision Choice Op) :=
  created 0 "k" 1 ++
  .start (.lane .provision "k") :: calls 1 11 (atTime 2) ++
  .start (.lane .cleanup "k") :: calls 2 5 (atTime 4000000) ++
  .start (.retry 1 "k" (.revision 0)) :: calls 3 11 (atTime 4000001) ++
  .start (.lane .provision "k") :: calls 4 12 (atTime 4000002)

theorem creation_out_of_order :
    ∃ cfg, (machine oneAtATime).Reaches (fun _ c x s => Fresh c x s) (State.initial .empty) cfg ∧
      cfg.state.creations = [("k", 1), ("k", 2)] ∧ ¬InOrder cfg.state.creations := by
  obtain ⟨cfg, cfg', hr, hm, hstep, hp⟩ := Machine.exists_step_of_execMeeting
    (M := machine oneAtATime) (fun _ c x s => Fresh c x s) (s := State.initial .empty)
    lateCreation (.run 1 (atTime 4000003))
    (fun _ cfg => decide (cfg.state.creations = [("k", 1), ("k", 2)])) (by decide +kernel)
  refine ⟨cfg', hr.step hm hstep, of_decide_eq_true hp, ?_⟩
  rw [of_decide_eq_true hp]
  intro horder
  simp [InOrder] at horder

end CiRunner.Deployments
