import CiRunner.Deployments.Attempts

/-! No sandbox of a deployment is forgotten. A row lets go of its sandbox only when it
is gone or has been looked for in vain, and every place that writes a row goes by what
it knows of that. A retry with another plan clears the sandbox in its own copy, so what
it requeues may be a row that has a sandbox again. -/

namespace CiRunner.Deployments

open Text Threads Tables
open CiRunner.State (Time)

variable {settings : Settings} {limit i : Nat} {κ : Know} {s s' : State} {x : Choice} {e : Call}

/-- A retry that is admitted finds no sandbox in the row that it requeues. -/
def FindsNoSandbox (c : Call) (x : Choice) (s : State) : Prop :=
  match c with
  | .commitRetry d expiresAt event =>
    (commitAdmission (s.store.retryDeployment d expiresAt x.now) event x).isOk = true →
      (s.store.find d.id).all fun row => row.sandboxID = ""
  | _ => True

instance (c : Call) (x : Choice) (s : State) : Decidable (FindsNoSandbox c x s) := by
  unfold FindsNoSandbox
  split <;> infer_instance

/-- The deployment has been pruned, or its row has no sandbox and is terminal or waits for an
attempt. -/
def State.LetGo (s : State) (id : String) : Prop :=
  s.store.find id = none ∨ ∃ d, s.store.find id = some d ∧ d.sandboxID = "" ∧
    (d.status.terminal = true ∨ d.status = .queued ∨ d.status = .planning)

/-- Nothing is left of a deployment that has been let go. -/
theorem Inv.resolved_of_letGo (h : Inv s) {id : String} (hno : id ∉ s.overwritten)
    (hlet : s.LetGo id) (attempt : Nat) : ¬s.Unresolved id attempt := by
  rcases hlet with hnone | ⟨d, hd, hempty, hstatus⟩
  · intro hu
    obtain ⟨d, hd, -⟩ := h.covered hno attempt hu
    rw [hnone] at hd
    cases hd
  · refine Inv.resolved_of_not_tracks (h.covered hno) hd ?_
    rcases hstatus with hterminal | hqueued | hplanning
    · exact Core.not_tracks_of_over ⟨hterminal, hempty⟩
    · exact Core.not_tracks_of_status (.inl hqueued)
    · exact Core.not_tracks_of_status (.inr (.inl hplanning))

/-- As long as retries find no sandbox, none is overwritten. -/
theorem Action.overwritten_eq_nil (haction : Action i κ e x s s') (hfinds : FindsNoSandbox e x s)
    (h : s.overwritten = []) : s'.overwritten = [] := by
  cases haction with
  | idle | sameCores | prune | locks | create | make | resolve | answer => exact h
  | @update w c d row row' st' =>
    obtain ⟨-, he⟩ | ⟨-, tickets, -, he⟩ := s.record_cases i w d x.lost
    all_goals
      rw [he]
      exact h
  | retry hcall hok _ hfind _ _ _ _ _ hkept =>
    subst hcall
    have hempty := hfinds (by rw [hok]; rfl)
    rw [hfind] at hempty
    exact (hkept (by simpa using hempty)).trans h

/-- In runs whose retries find no sandbox in the row that they requeue, and that create no
deployment under an id that one has had before: when a deployment is terminal, pruned or requeued
without a sandbox in its row, each sandbox that was created for it has been closed or reported
missing, or a lookup more than two minutes after the expiry has found none for its attempt. -/
theorem sandboxes_resolved {st : Store} {cfg : Config Reply State} (hst : st.WellFormed)
    (hr : (machine settings).Reaches (fun _ c x s => Fresh c x s ∧ FindsNoSandbox c x s)
      (State.initial st) cfg) {id : String} (hlet : cfg.state.LetGo id) {sandboxID : String}
    {attempt : Nat} (hmem : (sandboxID, id, attempt) ∈ cfg.state.sandboxes) :
    sandboxID ∈ cfg.state.gone ∨ (id, attempt) ∈ cfg.state.settled := by
  have himp : ∀ (i : Nat) (c : Call) (x : Choice) (s : State),
      Fresh c x s ∧ FindsNoSandbox c x s → Fresh c x s := fun _ _ _ _ h => h.1
  have hsound := outline_sound settings
  have hinv : Inv cfg.state := hsound.inv_of_reaches (inv_initial hst) (hr.mono himp)
  have hnil : cfg.state.overwritten = [] := by
    refine hsound.invariant_of_reaches (J := fun s => s.overwritten = []) himp (inv_initial hst)
      rfl ?_ (fun h => h) hr
    intro i x c κ a s s' _ hκ hmay hok hserve h
    exact (action_of_serve hκ hmay hserve).overwritten_eq_nil hok.2 h
  by_contra hleft
  rw [not_or] at hleft
  refine hinv.resolved_of_letGo (by simp [hnil]) hlet attempt ?_
  exact ⟨.inl ⟨sandboxID, hmem, hleft.1⟩, hleft.2⟩

/-- The creation of an attempt comes back with a sandbox that is not ready and cannot be closed, as
thread `i`. -/
def unclosed (i ticks : Nat) (sandboxID : String) : List (Decision Choice Op) :=
  .start (.lane .provision "k") :: calls i 11 (atTime ticks) ++
  [.run i { atTime ticks with create := .made ⟨sandboxID, 0⟩ true }, .run i (atTime ticks),
    .run i { atTime ticks with fails := true }] ++
  calls i 2 (atTime ticks)

/-- The row has no sandbox, and the deployment has ended. -/
def endedWithout (s : State) (id : String) : Bool :=
  (s.store.find id).any fun d => d.sandboxID = "" ∧ d.status.terminal

theorem letGo_of_endedWithout {id : String} (h : endedWithout s id = true) : s.LetGo id := by
  rcases hd : s.store.find id with _ | d
  · simp [endedWithout, hd] at h
  · rw [endedWithout, hd, Option.any_some, decide_eq_true_eq] at h
    exact .inr ⟨d, hd, h.1, .inl h.2⟩

/-- The sandbox is closed when the deployment is cleaned up for a retry. -/
theorem sandboxes_resolved_cleaned :
    ∃ cfg, (machine oneAtATime).Reaches (fun _ c x s => Fresh c x s ∧ FindsNoSandbox c x s)
        (State.initial .empty) cfg ∧
      cfg.state.LetGo "k" ∧ ("sbx-1", "k", 1) ∈ cfg.state.sandboxes ∧
      ("sbx-1" ∈ cfg.state.gone ∨ ("k", 1) ∈ cfg.state.settled) := by
  obtain ⟨cfg, cfg', hr, hm, hstep, hp⟩ := Machine.exists_step_of_execMeeting
    (M := machine oneAtATime) (fun _ c x s => Fresh c x s ∧ FindsNoSandbox c x s)
    (s := State.initial .empty)
    (created 0 "k" 1 ++ unclosed 1 2 "sbx-1" ++
      .start (.retry 1 "k" (.revision 0)) :: calls 2 7 (atTime 3)) (.run 2 (atTime 3))
    (fun _ cfg => endedWithout cfg.state "k" &&
      decide (("sbx-1", "k", 1) ∈ cfg.state.sandboxes)) (by decide +kernel)
  rw [Bool.and_eq_true, decide_eq_true_eq] at hp
  have hreaches := hr.step hm hstep
  have hlet := letGo_of_endedWithout hp.1
  exact ⟨cfg', hreaches, hlet, hp.2, sandboxes_resolved Store.wellFormed_empty hreaches hlet hp.2⟩

/-- A handler cleans up a deployment for the retry of its first revision. Before it reads the row
again, another retry is admitted and leaves a second sandbox behind; the handler clears that in its
copy and requeues the row without it. -/
def forgotten : List (Decision Choice Op) :=
  created 0 "k" 1 ++ unclosed 1 2 "sbx-1" ++
  .start (.retry 1 "k" (.revision 1)) :: calls 2 8 (atTime 3) ++
  .start (.retry 1 "k" (.revision 0)) :: calls 3 11 (atTime 4) ++
  unclosed 4 5 "sbx-2" ++
  calls 2 8 (atTime 6)

theorem sandbox_forgotten :
    ∃ cfg, (machine oneAtATime).Reaches (fun _ c x s => Fresh c x s) (State.initial .empty) cfg ∧
      ∃ d, cfg.state.store.find "k" = some d ∧ d.status = .queued ∧ d.sandboxID = "" ∧
        ("sbx-2", "k", 2) ∈ cfg.state.sandboxes ∧ "sbx-2" ∉ cfg.state.gone ∧
        ("k", 2) ∉ cfg.state.settled := by
  obtain ⟨cfg, cfg', hr, hm, hstep, hp⟩ := Machine.exists_step_of_execMeeting
    (M := machine oneAtATime) (fun _ c x s => Fresh c x s) (s := State.initial .empty)
    forgotten (.run 2 (atTime 6))
    (fun _ cfg => (cfg.state.store.find "k").any fun d =>
      d.status = .queued ∧ d.sandboxID = "" ∧ ("sbx-2", "k", 2) ∈ cfg.state.sandboxes ∧
        "sbx-2" ∉ cfg.state.gone ∧ ("k", 2) ∉ cfg.state.settled) (by decide +kernel)
  refine ⟨cfg', hr.step hm hstep, ?_⟩
  rcases hd : cfg'.state.store.find "k" with _ | d
  · simp [hd] at hp
  · rw [hd, Option.any_some, decide_eq_true_eq] at hp
    exact ⟨d, rfl, hp⟩

end CiRunner.Deployments
