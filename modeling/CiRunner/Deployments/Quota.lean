import CiRunner.Deployments.Runs

/-! The limit of a scope. An admission counts under the lock of its scope and takes
the place that it has found, and no other write takes one: a copy that is written over
the row it was read from finds that row holding a place. A deployment that was pruned
and created again under the same id starts over with its versions, and there a copy of
the old one can be taken for a copy of the new one. -/

namespace CiRunner.Deployments

open Text Threads Tables
open CiRunner.State (Time)

variable {settings : Settings} {limit i : Nat} {κ : Know} {s s' : State} {x : Choice} {e : Call}

theorem Store.Puts.active_le_succ {st st' : Store} {row : Deployment} (hp : st.Puts st' row)
    {excludeID : String} (hexclude : excludeID = "" ∨ excludeID = row.id) (scope : Scope) :
    st'.active scope "" ≤ st.active scope excludeID + 1 := by
  apply Table.count_le_count_succ (k := row.id)
  intro e he hcounts
  by_cases hid : e.id = row.id
  · exact .inl hid
  · right
    have hfind : st'.find e.id = some e := Table.find_of_mem he
    rw [hp, if_neg hid] at hfind
    refine ⟨e, Table.mem_of_find hfind, rfl, ?_⟩
    simp only [Bool.and_eq_true] at hcounts ⊢
    refine ⟨hcounts.1, ?_⟩
    rcases hexclude with rfl | rfl
    · rfl
    · simp [hid]

theorem Store.SameCores.active_le {st st' : Store} (h : st.SameCores st') (scope : Scope) :
    st'.active scope "" ≤ st.active scope "" := by
  refine Store.active_le (fun {id e} he hscope hcounts => ?_) ""
  obtain ⟨d, hd, hcore⟩ := h.find he
  exact ⟨d, hd, (congrArg Core.scope hcore).trans hscope, hcore ▸ hcounts⟩

/-- Every scope keeps to the limit. -/
def WithinLimit (limit : Nat) (s : State) : Prop := ∀ scope, s.store.active scope "" ≤ limit

theorem WithinLimit.puts {st : Store} {row : Deployment} {excludeID : String}
    (h : WithinLimit limit s) (hputs : s.store.Puts st row) (hsame : st.SameCores s'.store)
    (hexclude : excludeID = "" ∨ excludeID = row.id)
    (hplace : s.store.active row.scope excludeID < limit) : WithinLimit limit s' := by
  intro scope
  refine (hsame.active_le scope).trans ?_
  by_cases hscope : row.scope = scope
  · subst hscope
    exact (hputs.active_le_succ hexclude _).trans hplace
  · exact (hputs.active_le hscope "").trans (h scope)

/-- What a call does takes no scope over its limit. -/
theorem WithinLimit.action (h : WithinLimit limit s) (hinv : Inv s) (hκ : Holds limit i κ s)
    (haction : Action i κ e x s s') : WithinLimit limit s' := by
  cases haction with
  | idle | locks | make | resolve | answer => exact h
  | sameCores hsame => exact fun scope => (hsame.active_le scope).trans (h scope)
  | update _ _ hw _ ha => exact fun scope => (ha.active_le hinv hw scope "").trans (h scope)
  | prune hp =>
    intro scope
    refine (Store.active_le (fun hd hscope hcounts => ?_) "").trans (h scope)
    exact ⟨_, hp.find hd, hscope, hcounts⟩
  | create _ _ hplace _ _ hputs hsame hscope =>
    exact h.puts hputs hsame (.inl rfl) (hscope ▸ (hκ _ hplace).2)
  | @retry d row row' _ _ _ _ _ _ _ _ _ hplace hfind _ hscope hcore hputs hsame =>
    have hid : row'.id = d.id := (congrArg Core.id hcore).trans (Store.id_of_find hfind)
    have hscope' : row'.scope = d.scope := (congrArg Core.scope hcore).trans hscope
    exact h.puts hputs hsame (.inr hid.symm) (hscope' ▸ (hκ _ hplace).2)

/-- In runs that create no deployment under an id that one has had before, no scope ever has more
deployments that hold a place than the limit, if none has at the start. -/
theorem active_le_of_reaches {st : Store} {cfg : Config Reply State}
    (hn : 1 ≤ settings.maxConcurrent) (hst : st.WellFormed)
    (hstart : ∀ scope, st.active scope "" ≤ settings.maxConcurrent)
    (hr : (machine settings).Reaches (fun _ c x s => Fresh c x s) (State.initial st) cfg)
    (scope : Scope) : cfg.state.store.active scope "" ≤ settings.maxConcurrent := by
  have hlimit : quotaLimit settings.maxConcurrent = settings.maxConcurrent := if_neg (by omega)
  have hwithin : WithinLimit (quotaLimit settings.maxConcurrent) cfg.state := by
    refine (outline_sound settings).invariant_of_reaches (fun _ _ _ _ h => h) (inv_initial hst)
      ?_ ?_ ?_ hr
    · rw [hlimit]
      exact hstart
    · intro i x c κ a s s' hinv hκ hmay _ hserve h
      exact h.action hinv hκ (action_of_serve hκ hmay hserve)
    · exact fun h => h
  rw [← hlimit]
  exact hwithin scope

/-- With one deployment admitted and another refused, the scope has one. -/
theorem active_le_of_reaches_refused :
    ∃ cfg, (machine oneAtATime).Reaches (fun _ c x s => Fresh c x s) (State.initial .empty) cfg ∧
      cfg.state.store.active ⟨.account, 1⟩ "" = 1 ∧ cfg.state.answers.length = 2 ∧
      ∀ scope, cfg.state.store.active scope "" ≤ 1 := by
  obtain ⟨cfg, cfg', hr, hm, hstep, hp⟩ := Machine.exists_step_of_execMeeting
    (M := machine oneAtATime) (fun _ c x s => Fresh c x s) (s := State.initial .empty)
    (created 0 "k" 1 ++ .start (.create 1 "m" mainBranch) :: calls 1 10 (atTime 2))
    (.run 1 (atTime 2))
    (fun _ cfg => decide (cfg.state.store.active ⟨.account, 1⟩ "" = 1 ∧
      cfg.state.answers.length = 2)) (by decide +kernel)
  obtain ⟨hactive, hanswers⟩ := of_decide_eq_true hp
  have hreaches := hr.step hm hstep
  exact ⟨cfg', hreaches, hactive, hanswers, active_le_of_reaches (by decide)
    Store.wellFormed_empty (fun _ => Nat.zero_le _) hreaches⟩

/-- A deployment is pruned while a worker is about to begin its first attempt, and created again
under the same key. The new one is completed before it is planned, which brings it to the version
that the worker has, and gives its place to another one; then the worker begins the attempt. -/
def pastLimit : List (Decision Choice Op) :=
  created 0 "k" 1 ++
  .start (.lane .provision "k") :: calls 1 9 (atTime 2) ++
  .start (.stop "k") :: calls 2 9 (atTime 3) ++
  .start (.prune 100 100) :: calls 3 2 (atTime 86400099) ++
  created 4 "k" 86400100 ++
  .start (.stop "k") :: calls 5 3 (atTime 86400101) ++
  created 6 "m" 86400102 ++
  calls 1 1 (atTime 86400103)

theorem active_past_limit :
    ∃ cfg, (machine oneAtATime).Reachable (State.initial .empty) cfg ∧
      oneAtATime.maxConcurrent < cfg.state.store.active ⟨.account, 1⟩ "" := by
  obtain ⟨cfg, hr, hp⟩ := Machine.exists_reachable_of_exec (M := machine oneAtATime)
    (s := State.initial .empty) pastLimit
    (fun cfg => decide (oneAtATime.maxConcurrent < cfg.state.store.active ⟨.account, 1⟩ ""))
    (by decide +kernel)
  exact ⟨cfg, hr, of_decide_eq_true hp⟩

end CiRunner.Deployments
