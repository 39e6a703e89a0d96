import CiRunner.Deployments.Invariant

/-! The updates of deployments keep the invariant. The copy that a thread writes is
that of the row if the update is accepted, so what the place does to its copy is what
happens to the row. -/

namespace CiRunner.Deployments

open Text Threads Tables
open CiRunner.State (Time)

section Update

variable {limit i : Nat} {κ : Know} {s s' : State} {w : Site} {c d : Deployment} {x : Choice}
  {r : Option StoreError}

theorem State.updateDeployment_cases (h : s.updateDeployment i w d x = (r, s')) :
    (s' = s ∧ r ≠ none) ∨
    ∃ d' row store, normalizeDeployment d = .ok d' ∧ s.store.find d'.id = some row ∧
      row.version = d'.version ∧
      (∀ k, store.find k = if k = d'.id then some (row.updated d' x.now) else s.store.find k) ∧
      r = replied x.lost ∧ s' = { s.record i w d x.lost with store := store } := by
  rcases hu : s.store.updateDeployment d x.now with e | store
  · simp only [updateDeployment, hu, Prod.mk.injEq] at h
    exact .inl ⟨h.2.symm, by simp [← h.1]⟩
  · simp only [updateDeployment, hu, Prod.mk.injEq] at h
    obtain ⟨d', row, rev, hn, hf, hv, -, rfl⟩ := Store.updateDeployment_ok hu
    have hrow : row.id = d'.id := Store.id_of_find hf
    have hid : (row.updated d' x.now).id = d'.id := hrow
    refine .inr ⟨d', row, _, hn, hf, hv, ?_, h.1.symm, h.2.symm⟩
    exact Store.find_put hf hid

theorem State.Seen.core_eq {row : Deployment} (h : s.Seen c) (hrow : s.store.find c.id = some row)
    (hv : row.version = c.version) : row.core = c.core := by
  rcases h with (⟨hnone, -⟩ | ⟨row', hrow', hlt⟩) | ⟨row', hrow', hcore⟩
  · rw [hrow] at hnone
    cases hnone
  · rw [hrow] at hrow'
    cases hrow'
    omega
  · rw [hrow] at hrow'
    cases hrow'
    exact hcore

/-- An accepted update: the row had the core of the copy, and has that of what was written. -/
structure Accepted (c d row row' : Deployment) (st st' : Store) : Prop where
  find : st.find d.id = some row
  id : row.id = d.id
  core : row.core = c.core
  core' : row'.core = { d.core with version := d.version + 1 }
  find' : ∀ k, st'.find k = if k = d.id then some row' else st.find k

theorem accepted_of_update (hκ : Holds limit i κ s) (hc : .copy c ∈ κ)
    (hw : w.Writes c.core d.core) (h : s.updateDeployment i w d x = (r, s')) :
    (s' = s ∧ r ≠ none) ∨
    ∃ row row' store, Accepted c d row row' s.store store ∧ r = replied x.lost ∧
      s' = { s.record i w d x.lost with store := store } := by
  obtain hrefused | ⟨d', row, store, hn, hf, hv, hfind, hr, hs'⟩ := State.updateDeployment_cases h
  · exact .inl hrefused
  · right
    obtain ⟨hcok, hseen⟩ : c.core.Ok ∧ s.Seen c := hκ _ hc
    have hdok : d.core.Ok := hw.ok hcok
    obtain ⟨hid, hversion, hrevision, hscope⟩ := hw.same
    have hd' : d'.id = d.id ∧ d'.version = d.version := by
      obtain ⟨_, _, _, rfl⟩ := normalizeDeployment_ok hn
      exact ⟨hdok.id, rfl⟩
    rw [hd'.1] at hf hfind
    have hcore : row.core = c.core := by
      apply hseen.core_eq
      · rw [show c.id = d.id from hid.symm]
        exact hf
      · rw [hv, hd'.2]
        exact hversion
    have hrow : row.id = d.id := Store.id_of_find hf
    have hcore' : (row.updated d' x.now).core = { d.core with version := d.version + 1 } :=
      Deployment.core_updated hn hdok hrow
        ((congrArg Core.revisionNumber hcore).trans hrevision.symm)
        ((congrArg Core.scope hcore).trans hscope.symm)
    exact ⟨row, row.updated d' x.now, store, ⟨hf, hrow, hcore, hcore', hfind⟩, hr, hs'⟩

theorem State.record_cases (s : State) (i : Nat) (w : Site) (d : Deployment) (lost : Bool) :
    (w ≠ .creating ∧ s.record i w d lost = s) ∨
    (w = .creating ∧ ∃ tickets, (tickets = s.tickets ∨ tickets = (i, d.id, d.attempt) :: s.tickets) ∧
      s.record i w d lost = { s with commits := (d.id, d.attempt) :: s.commits, tickets := tickets }) := by
  unfold record
  by_cases hw : w = .creating
  · refine .inr ⟨hw, _, ?_, if_pos hw⟩
    cases lost
    · exact .inr rfl
    · exact .inl rfl
  · exact .inl ⟨hw, if_neg hw⟩

variable {row row' : Deployment} {store : Store}

theorem Site.Writes.attempt_le {c d : Core} (h : w.Writes c d) : c.attempt ≤ d.attempt := by
  cases w with
  | created | recovered | stopRecovered => exact h.2.same.1.ge
  | createFailed | applyFailed =>
    obtain ⟨-, c', hdrops, hfails⟩ := h
    rw [hfails.same.1, hdrops.id_eq.2.2]
  | createUnconfirmed => exact h.elim
  | planFailed | processExit => exact h.2.same.1.ge
  | templateFailed =>
    rw [h.2.same.1]
    exact Nat.le_succ _
  | recoveryLost | recovery => exact h.2.2.same.1.ge
  | applyStage | checkpoint => exact h.2.same.1.ge
  | applyCleanupFailed =>
    obtain ⟨-, -, reason, -, rfl⟩ := h
    exact Nat.le_refl _
  | stopCleanupFailed =>
    obtain ⟨-, -, stage, reason, -, -, -, rfl⟩ := h
    exact Nat.le_refl _
  | stopped => obtain ⟨-, ⟨-, -, rfl⟩ | ⟨-, rfl⟩ | ⟨-, rfl⟩⟩ := h <;> exact Nat.le_refl _
  | running | stopping unstarted =>
    obtain ⟨-, -, rfl⟩ := h
    exact Nat.le_refl _
  | creating =>
    obtain ⟨-, rfl⟩ := h
    exact Nat.le_succ _
  | planning | requeue | applyExpired | stopRequested =>
    obtain ⟨-, rfl⟩ := h
    exact Nat.le_refl _

/-- The sandbox that is written is the one that was there, one that was found, or none. -/
theorem Site.Writes.sandbox {c d : Core} (h : w.Writes c d) (he : w.Evidence κ c d) (hc : c.Ok)
    (hne : d.sandboxID ≠ "") :
    d.attempt = c.attempt ∧ (d.sandboxID = c.sandboxID ∨ .made d.sandboxID c.id c.attempt ∈ κ) := by
  cases w with
  | created | recovered | stopRecovered => exact ⟨h.2.same.1, .inr he⟩
  | createFailed | applyFailed =>
    obtain ⟨-, c', rfl | rfl, stage, reason, -, -, rfl⟩ := h
    · exact ⟨rfl, .inl rfl⟩
    · exact absurd rfl hne
  | createUnconfirmed => exact h.elim
  | planFailed | processExit => exact ⟨h.2.same.1, .inl h.2.same.2⟩
  | templateFailed =>
    obtain ⟨hs, stage, reason, -, -, rfl⟩ := h
    exact absurd (hc.clean (by simp [hs])) hne
  | recoveryLost | recovery => exact ⟨h.2.2.same.1, .inl h.2.2.same.2⟩
  | applyStage | checkpoint => exact ⟨h.2.same.1, .inl h.2.same.2.2⟩
  | applyCleanupFailed =>
    obtain ⟨-, -, reason, -, rfl⟩ := h
    exact ⟨rfl, .inl rfl⟩
  | stopCleanupFailed =>
    obtain ⟨-, -, stage, reason, -, -, -, rfl⟩ := h
    exact ⟨rfl, .inl rfl⟩
  | stopped =>
    obtain ⟨-, ⟨-, -, rfl⟩ | ⟨-, rfl⟩ | ⟨-, rfl⟩⟩ := h <;> exact absurd rfl hne
  | running | stopping unstarted =>
    obtain ⟨-, -, rfl⟩ := h
    exact ⟨rfl, .inl rfl⟩
  | creating =>
    obtain ⟨hs, rfl⟩ := h
    exact absurd (hc.clean (by simp [hs])) hne
  | applyExpired =>
    obtain ⟨-, rfl⟩ := h
    exact absurd rfl hne
  | planning | requeue | stopRequested =>
    obtain ⟨-, rfl⟩ := h
    exact ⟨rfl, .inl rfl⟩

theorem State.ticket_record {lost : Bool} {j : Nat} {id : String} {attempt : Nat}
    (h : (j, id, attempt) ∈ (s.record i w d lost).tickets) :
    (j, id, attempt) ∈ s.tickets ∨ (w = .creating ∧ id = d.id ∧ attempt = d.attempt) := by
  obtain ⟨-, he⟩ | ⟨hw, tickets, ht, he⟩ := s.record_cases i w d lost
  · rw [he] at h
    exact .inl h
  · rw [he] at h
    rcases ht with rfl | rfl
    · exact .inl h
    · rcases List.mem_cons.mp h with heq | hmem
      · cases heq
        exact .inr ⟨hw, rfl, rfl⟩
      · exact .inl hmem

theorem State.evidence_record (s : State) (i : Nat) (w : Site) (d : Deployment) (lost : Bool) :
    (s.record i w d lost).sandboxes = s.sandboxes ∧ (s.record i w d lost).gone = s.gone ∧
      (s.record i w d lost).settled = s.settled := by
  obtain ⟨-, he⟩ | ⟨hw, tickets, ht, he⟩ := s.record_cases i w d lost <;> rw [he] <;> simp

theorem State.pending_record {lost : Bool} {id : String} {attempt : Nat}
    (h : State.Pending { s.record i w d lost with store := store } id attempt) :
    s.Pending id attempt ∨ (w = .creating ∧ id = d.id ∧ attempt = d.attempt) := by
  obtain ⟨⟨j, hticket⟩, hsettled⟩ := h
  have hsettled : (id, attempt) ∉ (s.record i w d lost).settled := hsettled
  rw [(s.evidence_record i w d lost).2.2] at hsettled
  exact (State.ticket_record hticket).imp_left fun hmem => ⟨⟨j, hmem⟩, hsettled⟩

theorem State.unresolved_record {lost : Bool} {id : String} {attempt : Nat}
    (h : State.Unresolved { s.record i w d lost with store := store } id attempt) :
    s.Unresolved id attempt ∨ (w = .creating ∧ id = d.id ∧ attempt = d.attempt) := by
  obtain ⟨⟨sandboxID, hmem, hgone⟩ | ⟨j, hticket⟩, hsettled⟩ := h
  · have hmem : _ ∈ (s.record i w d lost).sandboxes := hmem
    have hgone : sandboxID ∉ (s.record i w d lost).gone := hgone
    have hsettled : (id, attempt) ∉ (s.record i w d lost).settled := hsettled
    obtain ⟨hs, hg, ht⟩ := s.evidence_record i w d lost
    rw [hs] at hmem
    rw [hg] at hgone
    rw [ht] at hsettled
    exact .inl ⟨.inl ⟨sandboxID, hmem, hgone⟩, hsettled⟩
  · have hpending : State.Pending { s.record i w d lost with store := store } id attempt :=
      ⟨⟨j, hticket⟩, hsettled⟩
    exact (State.pending_record hpending).imp_left fun hp => ⟨.inr hp.1, hp.2⟩

theorem Core.Ok.withVersion {c : Core} (h : c.Ok) (version : Nat) :
    Core.Ok { c with version := version } :=
  ⟨h.id, h.sandbox, h.reason, h.clean, h.failed, h.started, h.running⟩

/-- The rows after an accepted update are in order. -/
theorem Accepted.rows (ha : Accepted c d row row' s.store store) (h : Inv s)
    (hw : w.Writes c.core d.core) {id : String} {e : Deployment} (he : store.find id = some e) :
    e.core.Ok ∧ id ∈ s.usedIDs := by
  rw [ha.find'] at he
  split at he
  · rename_i hid
    cases he
    have hcok : c.core.Ok := ha.core ▸ (h.rows ha.find).1
    rw [ha.core', hid]
    exact ⟨(hw.ok hcok).withVersion _, (h.rows ha.find).2⟩
  · exact h.rows he

theorem Accepted.evidence (ha : Accepted c d row row' s.store store) (h : Inv s)
    (hκ : Holds limit i κ s) (hw : w.Writes c.core d.core) (hev : w.Evidence κ c.core d.core)
    {id : String} {e : Deployment} (he : store.find id = some e) (hne : e.sandboxID ≠ "") :
    (e.sandboxID, id, e.attempt) ∈ s.sandboxes := by
  rw [ha.find'] at he
  split at he
  · rename_i hid
    cases he
    have hsandbox : row'.sandboxID = d.sandboxID := congrArg Core.sandboxID ha.core'
    have hattempt : row'.attempt = d.attempt := congrArg Core.attempt ha.core'
    have hcok : c.core.Ok := ha.core ▸ (h.rows ha.find).1
    have hcid : c.core.id = d.id := (congrArg Core.id ha.core).symm.trans ha.id
    rw [hsandbox] at hne
    obtain ⟨hsame, hold | hmade⟩ := hw.sandbox hev hcok hne
    · rw [hsandbox, hattempt, hid, show d.attempt = row.attempt from
        hsame.trans (congrArg Core.attempt ha.core).symm, show d.sandboxID = row.sandboxID from
        hold.trans (congrArg Core.sandboxID ha.core).symm]
      refine h.evidence ha.find ?_
      rw [show row.sandboxID = d.sandboxID from
        (congrArg Core.sandboxID ha.core).trans hold.symm]
      exact hne
    · have hmem : (d.sandboxID, c.core.id, c.core.attempt) ∈ s.sandboxes := hκ _ hmade
      rw [hsandbox, hattempt, hid, show d.attempt = c.core.attempt from hsame, ← hcid]
      exact hmem
  · exact h.evidence he hne

theorem Accepted.attempt_le (ha : Accepted c d row row' s.store store) (h : Inv s)
    (hw : w.Writes c.core d.core) {id : String} {attempt : Nat} (hmem : (id, attempt) ∈ s.commits)
    {e : Deployment} (he : store.find id = some e) : attempt ≤ e.attempt := by
  rw [ha.find'] at he
  split at he
  · rename_i hid
    cases he
    subst hid
    have hle := (h.committed hmem).2.2 ha.find
    have hrow : row.attempt = c.core.attempt := congrArg Core.attempt ha.core
    have hattempt : row'.attempt = d.core.attempt := congrArg Core.attempt ha.core'
    rw [hattempt]
    exact (hle.trans_eq hrow).trans hw.attempt_le
  · exact (h.committed hmem).2.2 he

/-- What may be left is tracked by the rows after the update. -/
theorem Accepted.covered {lost : Bool} (ha : Accepted c d row row' s.store store) (h : Inv s)
    (hκ : Holds limit i κ s) (hw : w.Writes c.core d.core) (hev : w.Evidence κ c.core d.core)
    {id : String} (hno : id ∉ s.overwritten) :
    State.Covered { s.record i w d lost with store := store } id := by
  intro attempt hu
  have hcovered := h.covered hno
  by_cases hid : id = d.id
  · subst hid
    refine ⟨row', (ha.find' _).trans (if_pos rfl), ?_⟩
    have hcok : c.core.Ok := ha.core ▸ (h.rows ha.find).1
    have hattempt : row'.attempt = d.core.attempt := congrArg Core.attempt ha.core'
    have htracks : d.core.Tracks → row'.core.Tracks := by
      rw [ha.core']
      exact fun ht => ht
    have hrowid := ha.id
    have hfind := ha.find
    rw [← hrowid] at hcovered hno hfind
    rcases State.unresolved_record hu with hu | ⟨rfl, -, rfl⟩
    · rcases h.tracks_or_resolved hκ hw hev hcok hcovered hno hfind ha.core with ⟨hsame, ht⟩ | hnone
      · obtain ⟨e, he, hea, -⟩ := hcovered attempt (hrowid ▸ hu)
        rw [hfind] at he
        cases he
        refine ⟨?_, htracks ht⟩
        rw [hattempt, hsame, ← ha.core, hea]
        rfl
      · exact absurd (hrowid ▸ hu) (hnone attempt)
    · exact ⟨hattempt.symm, htracks (.inl (by rw [hw.2]))⟩
  · rcases State.unresolved_record hu with hu | ⟨-, hid', -⟩
    · obtain ⟨e, he, hea, ht⟩ := hcovered attempt hu
      exact ⟨e, (ha.find' _).trans ((if_neg hid).trans he), hea, ht⟩
    · exact absurd hid' hid

theorem Accepted.pending {lost : Bool} (ha : Accepted c d row row' s.store store) (h : Inv s)
    (hκ : Holds limit i κ s) (hw : w.Writes c.core d.core) (hev : w.Evidence κ c.core d.core)
    {id : String} {attempt : Nat}
    (hp : State.Pending { s.record i w d lost with store := store } id attempt) :
    ∃ e, store.find id = some e ∧ e.attempt = attempt ∧ e.core.Awaits := by
  have hattempt : row'.attempt = d.core.attempt := congrArg Core.attempt ha.core'
  have hawaits : d.core.Awaits → row'.core.Awaits := by
    rw [ha.core']
    exact fun h => h
  rcases State.pending_record hp with hp | ⟨rfl, rfl, rfl⟩
  · obtain ⟨e, he, hea, hwaits⟩ := h.pending hp
    by_cases hid : id = d.id
    · subst hid
      rw [ha.find] at he
      cases he
      subst hea
      have hfind := ha.find
      rw [← ha.id] at hfind hp
      obtain ⟨hsame, haw⟩ := h.awaits hκ hw hev hfind ha.core hp (ha.core ▸ hwaits)
      refine ⟨row', (ha.find' _).trans (if_pos rfl), ?_, hawaits haw⟩
      rw [hattempt, hsame, ← ha.core]
      rfl
    · exact ⟨e, (ha.find' _).trans ((if_neg hid).trans he), hea, hwaits⟩
  · have hcok : c.core.Ok := ha.core ▸ (h.rows ha.find).1
    refine ⟨row', (ha.find' _).trans (if_pos rfl), hattempt, hawaits ?_⟩
    rw [hw.2]
    exact ⟨.inl rfl, hcok.clean (.inr (.inl hw.1))⟩

theorem Inv.update (h : Inv s) (hκ : Holds limit i κ s) (hw : w.Writes c.core d.core)
    (hev : w.Evidence κ c.core d.core) (ha : Accepted c d row row' s.store store) (lost : Bool) :
    Inv { s.record i w d lost with store := store } := by
  have hcovered : ∀ {id}, id ∉ s.overwritten →
      State.Covered { s.record i w d lost with store := store } id :=
    fun hno => ha.covered h hκ hw hev hno
  have hpending : ∀ {id attempt},
      State.Pending { s.record i w d lost with store := store } id attempt →
      ∃ e, store.find id = some e ∧ e.attempt = attempt ∧ e.core.Awaits :=
    fun hp => ha.pending h hκ hw hev hp
  obtain ⟨-, he⟩ | ⟨rfl, tickets, ht, he⟩ := s.record_cases i w d lost
  · rw [he] at hcovered hpending ⊢
    exact { h with
      rows := ha.rows h hw
      evidence := ha.evidence h hκ hw hev
      committed := fun hmem =>
        ⟨(h.committed hmem).1, (h.committed hmem).2.1, ha.attempt_le h hw hmem⟩
      covered := hcovered
      pending := hpending }
  · rw [he] at hcovered hpending ⊢
    have hattempt : d.attempt = row.attempt + 1 := by
      have hd : d.core.attempt = c.core.attempt + 1 := by rw [hw.2]
      rw [← ha.core] at hd
      exact hd
    have hnew : (d.id, d.attempt) ∉ s.commits := by
      intro hmem
      have := (h.committed hmem).2.2 ha.find
      omega
    have hcommitted : ∀ {id attempt}, (id, attempt) ∈ (d.id, d.attempt) :: s.commits →
        id ∈ s.usedIDs ∧ 0 < attempt ∧ ∀ {e}, store.find id = some e → attempt ≤ e.attempt := by
      intro id attempt hmem
      rcases List.mem_cons.mp hmem with heq | hmem
      · cases heq
        refine ⟨(h.rows ha.find).2, by omega, fun {e} hf => ?_⟩
        rw [ha.find', if_pos rfl] at hf
        cases hf
        exact Nat.le_of_eq (congrArg Core.attempt ha.core').symm
      · exact ⟨(h.committed hmem).1, (h.committed hmem).2.1, ha.attempt_le h hw hmem⟩
    have horder : ((d.id, d.attempt) :: s.commits).Pairwise fun p q => p.1 = q.1 → q.2 < p.2 := by
      refine List.pairwise_cons.mpr ⟨fun ⟨id, attempt⟩ hmem hid => ?_, h.order⟩
      dsimp only at hid ⊢
      rw [← hid] at hmem
      have := (h.committed hmem).2.2 ha.find
      omega
    have htickets : ∀ {j id attempt}, (j, id, attempt) ∈ tickets →
        (id, attempt) ∈ (d.id, d.attempt) :: s.commits ∧ (id, attempt) ∉ s.creations := by
      intro j id attempt hmem
      rcases ht with rfl | rfl
      · exact ⟨List.mem_cons_of_mem _ (h.tickets hmem).1, (h.tickets hmem).2⟩
      · rcases List.mem_cons.mp hmem with heq | hmem
        · cases heq
          exact ⟨List.mem_cons_self, fun hc => hnew (h.creations hc)⟩
        · exact ⟨List.mem_cons_of_mem _ (h.tickets hmem).1, (h.tickets hmem).2⟩
    have honeTicket : (tickets.map Prod.snd).Nodup := by
      rcases ht with rfl | rfl
      · exact h.oneTicket
      · rw [List.map_cons, List.nodup_cons]
        refine ⟨fun hmem => ?_, h.oneTicket⟩
        obtain ⟨⟨j, p⟩, hmem, rfl⟩ := List.mem_map.mp hmem
        exact hnew (h.tickets hmem).1
    exact { h with
      rows := ha.rows h hw
      evidence := ha.evidence h hκ hw hev
      committed := hcommitted
      order := horder
      tickets := htickets
      oneTicket := honeTicket
      creations := fun _ hmem => List.mem_cons_of_mem _ (h.creations hmem)
      covered := hcovered
      pending := hpending }

/-! ### Effects -/

theorem Deployment.core_counts (d : Deployment) : d.core.counts = d.countsForQuota := rfl

theorem Store.active_le {st st' : Store} {scope : Scope}
    (h : ∀ {id e}, st'.find id = some e → e.scope = scope → e.core.counts = true →
      ∃ o, st.find id = some o ∧ o.scope = scope ∧ o.core.counts = true) (excludeID : String) :
    st'.active scope excludeID ≤ st.active scope excludeID := by
  apply Table.count_le_count
  intro e he hp
  simp only [Bool.and_eq_true, beq_iff_eq] at hp
  obtain ⟨o, ho, hscope, hcounts⟩ := h (Table.find_of_mem he) hp.1.1 hp.1.2
  have hid : o.id = e.id := Store.id_of_find ho
  refine ⟨o, Table.mem_of_find ho, hid, ?_⟩
  simp only [Bool.and_eq_true, beq_iff_eq, hscope, true_and, hid]
  exact ⟨hcounts, hp.2⟩

theorem Accepted.active_le (ha : Accepted c d row row' s.store store) (h : Inv s)
    (hw : w.Writes c.core d.core) (scope : Scope) (excludeID : String) :
    store.active scope excludeID ≤ s.store.active scope excludeID := by
  apply Store.active_le
  intro id e he hscope hcounts
  rw [ha.find'] at he
  split at he
  · rename_i hid
    cases he
    have hcok : c.core.Ok := ha.core ▸ (h.rows ha.find).1
    refine ⟨row, hid ▸ ha.find, ?_, ?_⟩
    · rw [← hscope]
      exact (congrArg Core.scope ha.core).trans
        (hw.same.2.2.2.symm.trans (congrArg Core.scope ha.core').symm)
    · rw [ha.core]
      exact hw.counts hcok
  · exact ⟨e, he, hscope, hcounts⟩

theorem Accepted.version_lt (ha : Accepted c d row row' s.store store)
    (hw : w.Writes c.core d.core) : row.version < row'.version := by
  have hrow : row.version = c.core.version := congrArg Core.version ha.core
  have hrow' : row'.version = d.version + 1 := congrArg Core.version ha.core'
  have hd : d.version = c.core.version := hw.same.2.1
  omega

theorem Grows.update (ha : Accepted c d row row' s.store store) (hw : w.Writes c.core d.core)
    (lost : Bool) : Grows i s { s.record i w d lost with store := store } := by
  have hlt := ha.version_lt hw
  have hmoved : (store.find d.id).map Deployment.core ≠ (s.store.find d.id).map Deployment.core := by
    intro hsame
    rw [ha.find', if_pos rfl, ha.find] at hsame
    exact hlt.ne' (congrArg Core.version (Option.some.inj hsame))
  have hquiet : ∀ {id}, (store.find id).map Deployment.core =
      (s.store.find id).map Deployment.core → ∀ {attempt},
      State.Unresolved { s.record i w d lost with store := store } id attempt →
      s.Unresolved id attempt := by
    intro id hsame attempt hu
    rcases State.unresolved_record hu with hu | ⟨-, rfl, -⟩
    · exact hu
    · exact absurd hsame hmoved
  have hpending : ∀ {id}, (store.find id).map Deployment.core =
      (s.store.find id).map Deployment.core → ∀ {attempt},
      State.Pending { s.record i w d lost with store := store } id attempt →
      s.Pending id attempt := by
    intro id hsame attempt hp
    rcases State.pending_record hp with hp | ⟨-, rfl, -⟩
    · exact hp
    · exact absurd hsame hmoved
  have hrows : ∀ id, (store.find id).map Deployment.core =
      (s.store.find id).map Deployment.core ∨
      ∃ e e', s.store.find id = some e ∧ store.find id = some e' ∧ e.version < e'.version := by
    intro id
    by_cases hid : id = d.id
    · subst hid
      exact .inr ⟨row, row', ha.find, (ha.find' _).trans (if_pos rfl), hlt⟩
    · exact .inl (by rw [ha.find', if_neg hid])
  obtain ⟨-, he⟩ | ⟨rfl, tickets, ht, he⟩ := s.record_cases i w d lost
  all_goals
    rw [he] at hquiet hpending ⊢
    exact { Grows.refl i s with
      rows := fun id => (hrows id).imp_right .inl
      quiet := hquiet
      pending := hpending }

theorem Spares.update (ha : Accepted c d row row' s.store store) (h : Inv s)
    (hw : w.Writes c.core d.core) (lost : Bool) (j : Nat) :
    Spares j s { s.record i w d lost with store := store } := by
  obtain ⟨-, he⟩ | ⟨rfl, tickets, ht, he⟩ := s.record_cases i w d lost
  · rw [he]
    exact ⟨id, id, fun _ excludeID => ha.active_le h hw _ excludeID⟩
  · rw [he]
    refine ⟨fun hmem => ?_, id, fun _ excludeID => ha.active_le h hw _ excludeID⟩
    rcases ht with rfl | rfl
    · exact hmem
    · exact List.mem_cons_of_mem _ hmem

theorem Accepted.clear (ha : Accepted c d row row' s.store store) (h : Inv s)
    (hw : Site.Writes (.stopping true) c.core d.core) :
    Fact.Holds limit i { s.record i (.stopping true) d false with store := store }
      (.clear d.id (d.version + 1)) := by
  have hrecord : s.record i (.stopping true) d false = s := if_neg (by simp)
  rw [hrecord]
  refine .inr ⟨row', (ha.find' _).trans (if_pos rfl), congrArg Core.version ha.core', ?_, ?_⟩
  · intro attempt hp
    obtain ⟨e, he, -, hstatus, -⟩ := h.pending hp
    rw [ha.find] at he
    cases he
    rw [ha.core] at hstatus
    rcases hw.2.1 rfl with hs | hs <;> simp [hs] at hstatus
  · by_cases ho : d.id ∈ s.overwritten
    · exact .inl ho
    · right
      intro attempt hu
      refine Inv.resolved_of_not_tracks (h.covered ho) ha.find ?_ hu
      rw [ha.core]
      exact Core.not_tracks_of_status ((hw.2.1 rfl).imp_right .inl)

theorem Know.settled_of_confirmed (hκ : Holds limit i κ s) {f : Fact} (hf : f ∈ κ.confirmed d)
    (hnot : ¬s.Past d.id d.version) : ∃ id attempt, f = .settled id attempt ∧
      (id, attempt) ∈ s.settled := by
  rw [Know.confirmed, List.mem_filterMap] at hf
  obtain ⟨g, hg, hgf⟩ := hf
  cases g with
  | lookedUp id attempt version =>
    simp only at hgf
    split at hgf
    · rename_i heq
      obtain ⟨rfl, rfl⟩ := heq
      cases hgf
      exact ⟨_, _, rfl, (hκ _ hg).resolve_left hnot⟩
    · cases hgf
  | _ => cases hgf

theorem Holds.update (hκ : Holds limit i κ s) (h : Inv s) (hc : .copy c ∈ κ)
    (hw : w.Writes c.core d.core) (hev : w.Evidence κ c.core d.core)
    (ha : Accepted c d row row' s.store store) :
    Holds limit i (learn κ (.updateDeployment w d) none)
      { s.record i w d false with store := store } := by
  have hcok : c.core.Ok := (hκ _ hc).1
  have hinv := h.update hκ hw hev ha false
  have hgrows : Grows i s { s.record i w d false with store := store } := .update ha hw false
  have hspares := Spares.update (i := i) ha h hw false i
  have hnotPast : ¬s.Past d.id d.version := by
    rintro (⟨hnone, -⟩ | ⟨e, he, hlt⟩)
    · rw [ha.find] at hnone
      cases hnone
    · rw [ha.find] at he
      cases he
      have hrow : row.version = c.core.version := congrArg Core.version ha.core
      have hd : d.version = c.core.version := hw.same.2.1
      omega
  intro f hf
  rcases List.mem_cons.mp hf with rfl | hf
  · refine ⟨(hw.ok hcok).withVersion _, .inr ⟨row', (ha.find' _).trans (if_pos rfl), ha.core'⟩⟩
  · rcases List.mem_append.mp hf with hf | hf
    · rcases List.mem_append.mp hf with hf | hf
      · cases w with
        | creating =>
          cases List.mem_singleton.mp hf
          exact List.mem_cons_self
        | stopping unstarted =>
          cases unstarted with
          | false => cases hf
          | true =>
            cases List.mem_singleton.mp hf
            exact ha.clear h hw
        | _ => cases hf
      · obtain ⟨id, attempt, rfl, hmem⟩ := Know.settled_of_confirmed hκ hf hnotPast
        exact hgrows.settled hmem
    · exact (hκ f hf).stable hgrows hspares fun hmem => (h.tickets hmem).2

end Update

end CiRunner.Deployments
