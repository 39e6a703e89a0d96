import CiRunner.Lifecycle.Runs

/-! Requests in flight. Only a creating write, for which capacity is reserved,
takes a request into flight, in the runs in which a stop finds its request in
flight; then the requests in flight and the reservations stay within the limit. -/

namespace CiRunner.Lifecycle

open Threads Tables CiRunner.State

/-- The writers that move a row to stopping whatever its status is. -/
def Writer.stops : Writer → Bool
  | .stopping | .forceStopping | .jitRetained _ => true
  | _ => false

/-- Every other writer but the creating one finds the row in flight that it leaves in flight. -/
theorem Site.inFlight_found {stopped : List String} {c d : Core} {w : Writer}
    (h : Site stopped c d w) (hw : w ≠ .creating) (hstops : w.stops = false)
    (hd : d.status.inFlight = true) : c.status.inFlight = true := by
  have hstarted : c.Started → c.status.inFlight = true := by
    rintro (hs | hs) <;> rw [hs] <;> rfl
  have hout : ∀ {status : Status}, d.status = status → status.inFlight = false →
      c.status.inFlight = true := by
    intro status hs hn
    rw [hs, hn] at hd
    cases hd
  cases w with
  | creating => exact absurd rfl hw
  | stopping | forceStopping | jitRetained => cases hstops
  | running | jitInterrupted | exitCleanupRetry | stopRetry | stopCleanupRetry
  | forceCleanupRetry => rw [h.1]; rfl
  | skipped => exact hout h.2.status_eq rfl
  | failStart | retryOrFail =>
    obtain hs | rfl := h.outcome
    · exact hout hs rfl
    · cases hd
  | snapshot => obtain ⟨service, rfl⟩ := h; exact hd
  | jobCheckDeferred =>
    obtain ⟨-, -, -, rfl | h⟩ := h
    · cases hd
    · exact hout h.status_eq rfl
  | deferQueued => obtain ⟨hq, rfl⟩ := h; exact hout hq rfl
  | deferCreating => obtain ⟨-, -, rfl⟩ := h; cases hd
  | jobCheckCleared | jobStarted | jobInProgress | exitJobResult | stopConflictResult
  | stopCompletedResult | recoverLease | wake => cases h; exact hd
  | exitBusy | exitStopping | reconnect => exact hstarted h.1
  | exitFinal =>
    obtain h | ⟨-, rfl | h | h, -⟩ := h
    · exact hout h.status_eq rfl
    · cases hd
    · exact hout h rfl
    · exact hout h.status_eq rfl
  | lateExit => rw [← h.2.2.2.status_eq]; exact hd
  | requeueInterrupted | mismatchRequeued => obtain ⟨-, rfl⟩ := h; cases hd
  | stopFailed | forceStopFailed | stopCleanupFailed | forceFailed | jitFailed
  | completeObserved => exact hout h.status_eq rfl
  | stopFinal => obtain ⟨-, h | h⟩ := h <;> exact hout h.status_eq rfl
  | mismatchKept => rw [← h.2.status_eq]; exact hd
  | mismatchCompleted => exact hout h.2.status_eq rfl
  | jitRequeued => exact hout h.2.1 rfl
  | historical => obtain ⟨-, -, rfl⟩ := h; cases hd

/-! ### Runs in which stops find requests in flight -/

variable (cfg : Settings)

/-- No claim is overtaken, and a write that moves a row to stopping finds it in flight. -/
def StopsInFlight : (machine cfg).Condition := fun i c x s =>
  NotOvertaken cfg i c x s ∧
  WritesFind cfg (fun _ _ w _ r => w.stops = true → r.status.inFlight = true) i c x s

instance (i : Nat) (c : Call) (x : Choice) (s : State) : Decidable (StopsInFlight cfg i c x s) :=
  inferInstanceAs (Decidable (_ ∧ _))

variable {cfg} {i : Nat} {κ : Know} {x : Choice} {c : Call} {s s' : State}

/-- A rewrite that takes a row into flight is a creating write. -/
theorem Rewrite.creating_of_inFlight {r r' : RunnerState} (h : Rewrite κ x c r r')
    (hok : StopsInFlight cfg i c x s) (hx : x.fails = false) (hf : s.rows.find r.id = some r)
    (hr : r.status.inFlight = false) (hr' : r'.status.inFlight = true) :
    ∃ st, c = .writeState .creating st ∧ sanitizeID st.id = r.id ∧ κ.reserved = true := by
  cases h with
  | @write w st b _ _ _ _ hkey hversion hsite hpermit =>
    have hstatus : (st.written r x.now).status = (core st).status :=
      (congrArg Core.status (core_written st r x.now)).trans (status_stamp _ _)
    by_cases hw : w = .creating
    · subst hw
      exact ⟨st, rfl, hkey, hpermit.1⟩
    · have hfound : r.status.inFlight = true := by
        rcases hs : w.stops with _ | _
        · exact hsite.inFlight_found hw hs (by rw [← hstatus]; exact hr')
        · exact hok.2.row hx hf hkey hversion hs
      rw [hr] at hfound
      cases hfound
  | claim | release =>
    have hkept : r.status.inFlight = true := hr'
    rw [hr] at hkept
    cases hkept
  | retry => cases hr'

theorem NewRow.not_inFlight {r : RunnerState} (h : NewRow r) : r.status.inFlight = false := by
  obtain hc | ⟨hs, -⟩ := h.status
  · have hs : r.status = .queued := congrArg Core.status hc
    rw [hs]
    rfl
  · rw [hs]
    rfl

/-! ### The number of requests in flight -/

theorem reservations_writeState (s : State) (i : Nat) (w : Writer) (st : RunnerState)
    (now : Time) : (s.writeState i w st now).2.reservations = (s.settle i w).reservations := by
  rcases writeState_cases s i w st now with he | ⟨cur, -, -, -, he⟩
  · rw [he]
  · rw [he]
    exact (record_frame (s.settle i w) w cur.id now).2.2.2.1

theorem reservations_write {w : Writer} {st : RunnerState} {a : Option RunnerState}
    (h : serve cfg i (.writeState w st) x s = some (a, s')) :
    s'.reservations = if w = .creating then s.reservations.erase i else s.reservations := by
  have hs : s'.reservations = (s.settle i w).reservations := by
    rcases hx : x.fails with _ | _ <;> simp only [serve, hx] at h
    · simp only [Bool.false_eq_true, if_false] at h
      have hw : s.writeState i w st x.now = (a, s') := Option.some.inj h
      rw [← reservations_writeState s i w st x.now, hw]
    · cases h
      rfl
  rw [hs, State.settle]
  split <;> rfl

theorem reservations_serve {a : Reply c} (h : serve cfg i c x s = some (a, s'))
    (hc : ∀ st, c ≠ .writeState .creating st) :
    s'.reservations = s.reservations ∨
    (s'.rows = s.rows ∧ s'.reservations = i :: s.reservations ∧
      s.rows.inFlightCount + s.reservations.length < cfg.maxConcurrentRunners) := by
  cases c with
  | writeState w st =>
    have hw : w ≠ .creating := fun e => hc st (by rw [e])
    rw [reservations_write h, if_neg hw]
    exact .inl rfl
  | reserve =>
    simp only [serve, State.reserve] at h
    split at h
    · cases h; exact .inl rfl
    · split at h
      · cases h; exact .inl rfl
      · rename_i hroom
        cases h
        exact .inr ⟨rfl, rfl, by omega⟩
  | claimUpdate candidate workerID now leaseTTL =>
    rcases hx : x.fails with _ | _ <;> simp only [serve, hx] at h
    · have hs : s' = (s.claimUpdate candidate workerID now leaseTTL).2 := by
        simp only [Bool.false_eq_true, if_false] at h
        rw [Option.some.inj h]
      rcases claimUpdate_cases s candidate workerID now leaseTTL with he | ⟨_, _, _, _, _, he⟩ <;>
        (rw [hs, he]; exact .inl rfl)
    · cases h
      exact .inl rfl
  | releaseLease | retryUpdate | createRequest =>
    rcases hx : x.fails with _ | _ <;> (simp only [serve, hx] at h; cases h; exact .inl rfl)
  | lock id | lockCreation id =>
    simp only [serve] at h
    split at h <;> cases h
    exact .inl rfl
  | stopSandbox sandboxID =>
    simp only [serve, State.stopSandbox] at h
    split at h
    · cases h; exact .inl rfl
    · cases h
      split <;> exact .inl rfl
  | _ => cases h; exact .inl rfl

/-- The requests in flight and the reservations are within the limit. -/
def WithinLimit (cfg : Settings) (s : State) : Prop :=
  s.rows.inFlightCount + s.reservations.length ≤ cfg.maxConcurrentRunners

theorem Served.inFlightCount_le (h : Served κ x s c s') (hok : StopsInFlight cfg i c x s)
    (hc : ∀ st, c ≠ .writeState .creating st) : s'.rows.inFlightCount ≤ s.rows.inFlightCount := by
  cases h with
  | rest rows => rw [rows]
  | create hnew => exact Nat.le_of_eq (Table.count_insert hnew.not_inFlight)
  | @rewrite _ _ cur new hf hrow rows _ hx =>
    rw [rows]
    apply Table.count_put_le
    intro r hr hnew
    rw [hrow.id_eq, hf] at hr
    cases hr
    rcases hcur : cur.status.inFlight with _ | _
    · obtain ⟨st, he, -⟩ := hrow.creating_of_inFlight hok hx hf hcur hnew
      exact absurd he (hc st)
    · rfl

theorem Served.inFlightCount_le_succ (h : Served κ x s c s') :
    s'.rows.inFlightCount ≤ s.rows.inFlightCount + 1 := by
  cases h with
  | rest rows => rw [rows]; exact Nat.le_succ _
  | create hnew =>
    exact Nat.le_succ_of_le (Nat.le_of_eq (Table.count_insert hnew.not_inFlight))
  | rewrite _ _ rows => rw [rows]; exact Table.count_put_le_succ ..

/-- A creating write turns its reservation into a request in flight. -/
theorem withinLimit_serve {a : Reply c} (hκ : Holds i κ s) (hm : may cfg κ c)
    (hok : StopsInFlight cfg i c x s) (h : serve cfg i c x s = some (a, s'))
    (hserved : Served κ x s c s') (hs : WithinLimit cfg s) : WithinLimit cfg s' := by
  unfold WithinLimit at hs ⊢
  by_cases hc : ∃ st, c = .writeState .creating st
  · obtain ⟨st, rfl⟩ := hc
    obtain ⟨b, -, -, -, -, hpermit, -⟩ := hm
    have hmem : i ∈ s.reservations := hκ.reserved hpermit.1
    have hpos : 0 < s.reservations.length := List.length_pos_of_mem hmem
    have hcount := hserved.inFlightCount_le_succ
    rw [reservations_write h, if_pos rfl, List.length_erase_of_mem hmem]
    omega
  · have hother : ∀ st, c ≠ .writeState .creating st := fun st e => hc ⟨st, e⟩
    have hcount := hserved.inFlightCount_le hok hother
    rcases reservations_serve h hother with hr | ⟨hrows, hr, hroom⟩
    · rw [hr]
      omega
    · rw [hr, hrows, List.length_cons]
      omega

/-- In every run whose steps all meet the condition, a row that a step takes into flight is taken
there by a creating write with a reservation, and the requests in flight stay within the limit
together with the reservations. -/
theorem only_admissions_enter_flight {c c' : Config Reply State} {d : Decision Choice Op}
    (hr : (machine cfg).Reaches (StopsInFlight cfg) .empty c)
    (hm : (machine cfg).Meets (StopsInFlight cfg) c d) (h : (machine cfg).step c d = some c') :
    (∀ k r', c'.state.rows.find k = some r' → r'.status.inFlight = true →
      (∃ r, c.state.rows.find k = some r ∧ r.status.inFlight = true) ∨
      ∃ i x st l, d = .run i x ∧ c.threads[i]? = some (.call (.writeState .creating st) l) ∧
        sanitizeID st.id = k ∧ i ∈ c.state.reservations) ∧
    c'.state.rows.inFlightCount + c'.state.reservations.length ≤ cfg.maxConcurrentRunners := by
  have himp : ∀ i c x s, StopsInFlight cfg i c x s → NotOvertaken cfg i c x s :=
    fun _ _ _ _ hok => hok.1
  constructor
  · intro k r' hf' hflight
    obtain he | ⟨-, hnew⟩ | ⟨r, i, x, e, l, κ, hf, hid, hd, hi, hκ, hok, hx, hrow⟩ :=
      row_origin himp hr hm h hf'
    · exact .inl ⟨r', he, hflight⟩
    · rw [hnew.not_inFlight] at hflight
      cases hflight
    · subst hid
      rcases hq : r.status.inFlight with _ | _
      · obtain ⟨st, rfl, hkey, hres⟩ := hrow.creating_of_inFlight hok hx hf hq hflight
        exact .inr ⟨i, x, st, l, hd, hi, hkey, hκ.reserved hres⟩
      · exact .inl ⟨r, hf, hq⟩
  · have hinv : WithinLimit cfg c'.state := by
      apply state_invariant himp (J := WithinLimit cfg) (Nat.zero_le _)
      · exact fun _ hκ hmay hok hcall hserved hJ => withinLimit_serve hκ hmay hok hcall hserved hJ
      · intro s hs
        exact (Nat.le_add_right _ _).trans hs
      · exact hr.step hm h
    exact hinv

/-- The creating write of a start. -/
theorem only_admissions_enter_flight_start : ∃ c c' r r',
    (machine oneRunner).Reaches (StopsInFlight oneRunner) .empty c ∧
    (machine oneRunner).step c (.run 1 { ticks := 1 }) = some c' ∧
    c.state.rows.find "1" = some r ∧ c'.state.rows.find "1" = some r' ∧
    r.status = .queued ∧ r'.status = .creating ∧ 1 ∈ c.state.reservations ∧
    c'.state.rows.inFlightCount + c'.state.reservations.length ≤ 1 := by
  obtain ⟨c, c', hr, hm, h, hp⟩ := Machine.exists_step_of_execMeeting (M := machine oneRunner)
    (StopsInFlight oneRunner) (s := .empty) (firstStart 0 11) (.run 1 { ticks := 1 })
    (testRow "1" fun _ r r' => r.status = .queued && r'.status = .creating) (by decide +kernel)
  obtain ⟨r, r', hf, hf', hrow⟩ := of_testRow hp
  simp only [Bool.and_eq_true, decide_eq_true_eq] at hrow
  obtain ⟨henter, hlimit⟩ := only_admissions_enter_flight hr hm h
  obtain ⟨r₀, hf₀, hflight⟩ | ⟨i, x, st, l, hd, -, -, hres⟩ := henter "1" r' hf' (by rw [hrow.2]; rfl)
  · rw [hf] at hf₀
    cases hf₀
    rw [hrow.1] at hflight
    cases hflight
  · cases hd
    exact ⟨c, c', r, r', hr, h, hf, hf', hrow.1, hrow.2, hres, hlimit⟩

/-- A queued request is deleted by hand while another one has the only runner: the stop takes it
into flight, beyond the limit and without a reservation. -/
theorem delete_enters_flight : ∃ c c' st l r r',
    (machine oneRunner).Reachable .empty c ∧
    (machine oneRunner).step c (.run 3 { ticks := 5 }) = some c' ∧
    c.threads[3]? = some (.call (.writeState .stopping st) l) ∧
    c.state.rows.find "2" = some r ∧ c'.state.rows.find "2" = some r' ∧
    r.status = .queued ∧ r'.status = .stopping ∧ c.state.reservations = [] ∧
    oneRunner.maxConcurrentRunners < c'.state.rows.inFlightCount := by
  obtain ⟨c, c', hr, h, hp⟩ := Machine.exists_step_of_exec (M := machine oneRunner) (s := .empty)
    (provisioned 0 ++ calls 1 6 { ticks := 3 } ++
      .start (.enqueueWorkflowJob { id := "2" }) :: calls 2 3 { ticks := 4 } ++
      .start (.deleteRunner "2") :: calls 3 3 { ticks := 4 })
    (.run 3 { ticks := 5 })
    (fun c c' => nextWriter 3 c = some .stopping &&
      testRow "2" (fun s r r' => r.status = .queued && r'.status = .stopping &&
        s.reservations = []) c c' &&
      oneRunner.maxConcurrentRunners < c'.state.rows.inFlightCount) (by decide +kernel)
  simp only [Bool.and_eq_true, decide_eq_true_eq] at hp
  obtain ⟨⟨hcall, hrows⟩, hcount⟩ := hp
  obtain ⟨r, r', hf, hf', hrow⟩ := of_testRow hrows
  simp only [Bool.and_eq_true, decide_eq_true_eq] at hrow
  obtain ⟨st, l, hi⟩ := of_nextWriter hcall
  exact ⟨c, c', st, l, r, r', hr, h, hi, hf, hf', hrow.1.1, hrow.1.2, hrow.2, hcount⟩

end CiRunner.Lifecycle
