import CiRunner.Deployments.Sandboxes

/-! The outcome of a deployment that has failed. Each stop works out again, from the
status, the stage and the reason that it finds, what is to be kept; whatever a crash or
a failed cleanup has left, the failure is still there to be read. -/

namespace CiRunner.Deployments

open Text Threads Tables
open CiRunner.State (Time)

variable {settings : Settings} {i : Nat} {κ : Know} {s s' : State} {x : Choice} {e : Call} {w : Site}
  {c d : Core}

/-- The deployment has failed, other than in cleaning up after its expiry, and may be stopping
again. -/
def Core.KeepsFailure (c : Core) : Prop :=
  (c.status = .failed ∨ c.status = .stopping) ∧ c.failure.reason ≠ "" ∧
    c.failure.stage ≠ some .expiryCleanup

/-- The deployment has failed in cleaning up after its expiry, may be stopping again, or has
expired. -/
def Core.Expires (c : Core) : Prop :=
  ((c.status = .failed ∨ c.status = .stopping) ∧ c.failure.reason ≠ "" ∧
    c.failure.stage = some .expiryCleanup) ∨
    (c.status = .expired ∧ c.failure = {} ∧ c.error = "")

/-- The places that write a deployment that is failed or stopping. -/
inductive Site.Closes : Site → Core → Core → Prop
  | found {c d : Core} (h : c.Finds d) : Closes .stopRecovered c d
  | stopping {c d : Core} {unstarted : Bool} (hs : d.status = .stopping)
      (hf : c.failure.reason ≠ "" → d.failure = c.failure) : Closes (.stopping unstarted) c d
  | requested {c d : Core} (hs : d.status = c.status) (hf : d.failure = c.failure) :
      Closes .stopRequested c d
  | unclosed {c d : Core} (hs : d.status = .failed) (hr : d.failure.reason ≠ "")
      (hf : c.failure.reason ≠ "" →
        (d.failure.stage = some .expiryCleanup ↔ c.failure.stage = some .expiryCleanup)) :
      Closes .stopCleanupFailed c d
  | failed {c d : Core} (hs : d.status = .failed) (hf : d.failure = c.failure)
      (hstage : c.failure.stage ≠ some .expiryCleanup) : Closes .stopped c d
  | expired {c d : Core} (hs : d.status = .expired) (hf : d.failure = {}) (he : d.error = "")
      (h : c.failure.reason = "" ∨ c.failure.stage = some .expiryCleanup) : Closes .stopped c d
  | completed {c d : Core} (h : c.failure.reason = "") : Closes .stopped c d

theorem Site.Writes.closes (h : w.Writes c d)
    (hs : c.status = .failed ∨ c.status = .stopping) : w.Closes c d := by
  have hidle : ∀ {status : DeploymentStatus}, c.status = status → status = .failed ∨
      status = .stopping := fun he => he ▸ hs
  cases w with
  | stopRecovered => exact .found h.2
  | stopping unstarted =>
    obtain ⟨-, -, rfl⟩ := h
    refine .stopping rfl fun hr => if_pos ?_
    exact hs.imp_right fun hs => ⟨hs, hr⟩
  | stopRequested =>
    obtain ⟨-, rfl⟩ := h
    refine .requested ?_ rfl
    rcases hs with hs | hs <;> simp [hs]
  | stopCleanupFailed =>
    obtain ⟨-, -, stage, reason, hreason, hto, hfrom, rfl⟩ := h
    refine .unclosed rfl hreason.1 fun hr => ⟨fun he => hto (Option.some.inj he) hr, fun he => ?_⟩
    exact congrArg some (hfrom hr he)
  | stopped =>
    obtain ⟨-, ⟨-, hstage, rfl⟩ | ⟨he, rfl⟩ | ⟨hr, rfl⟩⟩ := h
    · exact .failed rfl rfl hstage
    · exact .expired rfl rfl rfl he
    · exact .completed hr
  | createUnconfirmed => exact h.elim
  | planning | requeue | planFailed | templateFailed | creating | created | recovered | createFailed
  | applyFailed | applyStage | checkpoint | applyExpired | applyCleanupFailed | running
  | recoveryLost | recovery | processExit => simpa using hidle h.1

theorem Core.KeepsFailure.writes (h : c.KeepsFailure) (hw : w.Writes c d) : d.KeepsFailure := by
  obtain ⟨hs, hreason, hstage⟩ := h
  cases hw.closes hs with
  | found hf =>
    rw [hf.2.2.2]
    exact ⟨hs, hreason, hstage⟩
  | stopping hd hf =>
    rw [Core.KeepsFailure, hf hreason]
    exact ⟨.inr hd, hreason, hstage⟩
  | requested hd hf =>
    rw [Core.KeepsFailure, hd, hf]
    exact ⟨hs, hreason, hstage⟩
  | unclosed hd hr hf => exact ⟨.inl hd, hr, fun he => hstage ((hf hreason).mp he)⟩
  | failed hd hf _ =>
    rw [Core.KeepsFailure, hf]
    exact ⟨.inl hd, hreason, hstage⟩
  | expired _ _ _ h => exact (h.elim hreason hstage).elim
  | completed h => exact absurd h hreason

theorem Core.Expires.writes (h : c.Expires) (hok : c.Ok) (hw : w.Writes c d) : d.Expires := by
  rcases h with ⟨hs, hreason, hstage⟩ | ⟨hs, -⟩
  · cases hw.closes hs with
    | found hf =>
      rw [hf.2.2.2]
      exact .inl ⟨hs, hreason, hstage⟩
    | stopping hd hf =>
      refine .inl ⟨.inr hd, ?_⟩
      rw [hf hreason]
      exact ⟨hreason, hstage⟩
    | requested hd hf =>
      rw [Core.Expires, hd, hf]
      exact .inl ⟨hs, hreason, hstage⟩
    | unclosed hd hr hf => exact .inl ⟨.inl hd, hr, (hf hreason).mpr hstage⟩
    | failed _ _ hne => exact absurd hstage hne
    | expired hd hf he _ => exact .inr ⟨hd, hf, he⟩
    | completed h => exact absurd h hreason
  · -- No place writes a deployment that has expired.
    have hcounts := hw.counts hok
    simp [Core.counts, hs, DeploymentStatus.active] at hcounts

/-! ### Runs -/

/-- The property holds of the deployment as long as it has the revision, which it does until it is
retried. -/
structure Until (Q : Core → Prop) (id : String) (revision : Nat) (s : State) : Prop where
  used : id ∈ s.usedIDs
  row : ∀ {d}, s.store.find id = some d →
    revision ≤ d.revisionNumber ∧ (d.revisionNumber = revision → Q d.core)

section Until

variable {Q : Core → Prop} {id : String} {revision : Nat}

theorem Until.sameCores {st st' : Store} (hsame : st.SameCores st')
    (h : ∀ {d}, st.find id = some d →
      revision ≤ d.revisionNumber ∧ (d.revisionNumber = revision → Q d.core))
    {d : Deployment} (hd : st'.find id = some d) :
    revision ≤ d.revisionNumber ∧ (d.revisionNumber = revision → Q d.core) := by
  obtain ⟨d', hd', hcore⟩ := hsame.find hd
  have hrevision : d'.revisionNumber = d.revisionNumber := congrArg Core.revisionNumber hcore
  have h' := h hd'
  rw [hrevision, hcore] at h'
  exact h'

/-- A property that every place preserves is kept by every call, until the deployment is retried. -/
theorem Until.action (h : Until Q id revision s) (hinv : Inv s) (hfresh : Fresh e x s)
    (hQ : ∀ {w : Site} {c d : Core} (n : Nat), Q c → c.Ok → w.Writes c d →
      Q { d with version := n })
    (haction : Action i κ e x s s') : Until Q id revision s' := by
  cases haction with
  | idle => exact h
  | locks | make | resolve | answer => exact ⟨h.used, h.row⟩
  | sameCores hsame => exact ⟨h.used, Until.sameCores hsame h.row⟩
  | prune hp => exact ⟨h.used, fun hd => h.row (hp.find hd)⟩
  | @update w c d row row' st' _ _ hw _ ha =>
    have hused : (s.record i w d x.lost).usedIDs = s.usedIDs := by
      obtain ⟨-, he⟩ | ⟨-, tickets, -, he⟩ := s.record_cases i w d x.lost <;> rw [he]
    refine ⟨hused ▸ h.used, fun {e} he => ?_⟩
    have he : st'.find id = some e := he
    rw [ha.find'] at he
    split at he
    · rename_i hid
      cases he
      subst hid
      obtain ⟨hle, hrow⟩ := h.row ha.find
      have hrevision : row'.revisionNumber = row.revisionNumber :=
        (congrArg Core.revisionNumber ha.core').trans
          (hw.same.2.2.1.trans (congrArg Core.revisionNumber ha.core).symm)
      rw [hrevision]
      refine ⟨hle, fun he => ?_⟩
      rw [ha.core']
      have hcok : c.core.Ok := ha.core ▸ (hinv.rows ha.find).1
      exact hQ _ (ha.core ▸ hrow he) hcok hw
    · exact h.row he
  | @create d row event st st' locks hcall hok _ hid hunused hputs hsame =>
    subst hcall
    have hnot : row.id ∉ s.usedIDs := by
      rw [hid]
      exact hfresh (by rw [hok]; rfl)
    refine ⟨List.mem_cons_of_mem _ h.used, Until.sameCores hsame fun {e} he => ?_⟩
    have hne : id ≠ row.id := fun he => hnot (he ▸ h.used)
    rw [hputs, if_neg hne] at he
    exact h.row he
  | @retry d row row' _ _ _ _ _ _ _ _ _ _ hfind _ _ hcore hputs hsame =>
    refine ⟨h.used, Until.sameCores hsame fun {e} he => ?_⟩
    rw [hputs] at he
    split at he
    · rename_i hid
      cases he
      have hrow'id : row'.id = d.id := (congrArg Core.id hcore).trans (Store.id_of_find hfind)
      rw [hid, hrow'id] at h
      have hle := (h.row hfind).1
      have hrevision : row'.revisionNumber = row.revisionNumber + 1 :=
        congrArg Core.revisionNumber hcore
      exact ⟨by omega, fun he => absurd he (by omega)⟩
    · exact h.row he

/-- What every place preserves holds from one point of a run on, until the deployment is retried or
pruned. -/
theorem until_of_leads {st : Store} {cfg cfg' : Config Reply State} (hst : st.WellFormed)
    (hr : (machine settings).Reaches (fun _ c x s => Fresh c x s) (State.initial st) cfg)
    (hl : (machine settings).Leads (fun _ c x s => Fresh c x s) cfg cfg')
    (hQ : ∀ {w : Site} {c d : Core} (n : Nat), Q c → c.Ok → w.Writes c d →
      Q { d with version := n })
    {d d' : Deployment} (hd : cfg.state.store.find id = some d) (hdQ : d.core.Ok → Q d.core)
    (hd' : cfg'.state.store.find id = some d') (hrevision : d'.revisionNumber = d.revisionNumber) :
    Q d'.core := by
  have hsound := outline_sound settings
  have hinv : Inv cfg.state := hsound.inv_of_reaches (inv_initial hst) hr
  have hstart : Until Q id d.revisionNumber cfg.state := by
    refine ⟨(hinv.rows hd).2, fun {e} he => ?_⟩
    rw [hd] at he
    cases he
    exact ⟨Nat.le_refl _, fun _ => hdQ (hinv.rows hd).1⟩
  have hend : Until Q id d.revisionNumber cfg'.state := by
    refine hsound.preserved_of_leads (fun _ _ _ _ h => h) (inv_initial hst) ?_ ?_ hr hl hstart
    · intro i x c κ a s s' hinv hκ hmay hfresh hserve h
      exact h.action hinv hfresh hQ (action_of_serve hκ hmay hserve)
    · exact fun h => ⟨h.used, h.row⟩
  exact (hend.row hd').2 hrevision

end Until

/-- From the moment that a deployment has failed until it is retried, which gives it a new revision,
or pruned: if it has not failed in cleaning up after its expiry, it is failed or stopping, with a
reason; if it has, it is stopping, failed in the same stage, or expired with its failure cleared.
In runs that create no deployment under an id that one has had before. -/
theorem failure_kept_until_retried {st : Store} {cfg cfg' : Config Reply State}
    (hst : st.WellFormed)
    (hr : (machine settings).Reaches (fun _ c x s => Fresh c x s) (State.initial st) cfg)
    (hl : (machine settings).Leads (fun _ c x s => Fresh c x s) cfg cfg') {id : String}
    {d d' : Deployment} (hd : cfg.state.store.find id = some d) (hfailed : d.status = .failed)
    (hd' : cfg'.state.store.find id = some d') (hrevision : d'.revisionNumber = d.revisionNumber) :
    (d.failure.stage ≠ some .expiryCleanup →
      (d'.status = .failed ∨ d'.status = .stopping) ∧ d'.failure.reason ≠ "") ∧
    (d.failure.stage = some .expiryCleanup → d'.status = .stopping ∨
      (d'.status = .failed ∧ d'.failure.stage = some .expiryCleanup) ∨
      (d'.status = .expired ∧ d'.failure = {} ∧ d'.error = "")) := by
  constructor
  · intro hstage
    have hQ : ∀ {w : Site} {c d : Core} (n : Nat), c.KeepsFailure → c.Ok → w.Writes c d →
        Core.KeepsFailure { d with version := n } := by
      intro w c d n h _ hw
      have hd := h.writes hw
      exact hd
    have hkept : d'.core.KeepsFailure :=
      until_of_leads hst hr hl hQ hd (fun hok => ⟨.inl hfailed, hok.failed hfailed, hstage⟩) hd' hrevision
    exact ⟨hkept.1, hkept.2.1⟩
  · intro hstage
    have hQ : ∀ {w : Site} {c d : Core} (n : Nat), c.Expires → c.Ok → w.Writes c d →
        Core.Expires { d with version := n } := by
      intro w c d n h hok hw
      have hd := h.writes hok hw
      exact hd
    have hexpires : d'.core.Expires :=
      until_of_leads hst hr hl hQ hd (fun hok => .inl ⟨.inl hfailed, hok.failed hfailed, hstage⟩) hd' hrevision
    rcases hexpires with ⟨hs | hs, -, hstage'⟩ | h
    · exact .inr (.inl ⟨hs, hstage'⟩)
    · exact .inl hs
    · exact .inr (.inr h)

/-- A deployment that has failed is about to be cleaned up. -/
theorem failure_kept_until_retried_stopping :
    ∃ cfg cfg' d', (machine oneAtATime).Leads (fun _ c x s => Fresh c x s) cfg cfg' ∧
      cfg'.state.store.find "k" = some d' ∧ d'.status = .stopping ∧ d'.failure.reason ≠ "" := by
  obtain ⟨cfg, cfg', hr, hm, hstep, hp⟩ := Machine.exists_step_of_execMeeting
    (M := machine oneAtATime) (fun _ c x s => Fresh c x s) (s := State.initial .empty)
    (created 0 "k" 1 ++ unclosed 1 2 "sbx-1" ++
      .start (.lane .cleanup "k") :: calls 2 3 (atTime 3)) (.run 2 (atTime 3))
    (fun cfg cfg' => ((cfg.state.store.find "k").any fun d =>
      d.status = .failed ∧ d.failure.stage = some .sandboxCreate ∧ d.revisionNumber = 1) &&
      (cfg'.state.store.find "k").any fun d => d.status = .stopping ∧ d.revisionNumber = 1)
    (by decide +kernel)
  rw [Bool.and_eq_true] at hp
  rcases hd : cfg.state.store.find "k" with _ | d
  · simp [hd] at hp
  · rcases hd' : cfg'.state.store.find "k" with _ | d'
    · simp [hd'] at hp
    · rw [hd, hd', Option.any_some, Option.any_some, decide_eq_true_eq, decide_eq_true_eq] at hp
      obtain ⟨⟨hfailed, hstage, hrevision⟩, hstopping, hrevision'⟩ := hp
      have hkept := failure_kept_until_retried Store.wellFormed_empty hr (.step .refl hm hstep) hd
        hfailed hd' (hrevision'.trans hrevision.symm)
      exact ⟨cfg, cfg', d', .step .refl hm hstep, hd', hstopping, (hkept.1 (by simp [hstage])).2⟩

end CiRunner.Deployments
