import CiRunner.Deployments.Steps

/-! Deployments come and go: they are created and retried under the lock of their
scope, and pruned when they are over. A new deployment has an id that no deployment has
had, so a copy of an old one can never be taken for it. -/

namespace CiRunner.Deployments

open Text Threads Tables
open CiRunner.State (Time)

variable {limit i : Nat} {κ : Know} {s s' : State} {x : Choice} {st st' : Store}

/-! ### Pruning -/

/-- The rows that are pruned are those of deployments that are over. -/
def Store.PrunesTo (st st' : Store) : Prop :=
  ∀ k, st'.find k = st.find k ∨ (st'.find k = none ∧ ∃ row, st.find k = some row ∧ row.core.Over)

theorem Store.prunesTo_pruneDeployment (st : Store) (before : Time) (record : Deployment) :
    st.PrunesTo (st.pruneDeployment before record) := by
  intro k
  obtain he | ⟨row, hrow, -, hp, he⟩ := st.pruneDeployment_cases before record
  · rw [he]
    exact .inl rfl
  · rw [he]
    have hremove : (st.deployments.remove fun d => d.id == record.id).find k =
        (st.deployments.find k).filter fun d => !(d.id == record.id) := Table.find_remove _ _ _
    rcases hk : st.deployments.find k with _ | d
    · left
      rw [hk] at hremove
      exact hremove.trans hk.symm
    · have hid : d.id = k := Table.key_of_find hk
      rw [hk] at hremove
      by_cases hki : k = record.id
      · right
        subst hki
        refine ⟨hremove.trans (by simp [Option.filter, hid]), row, hrow, ?_⟩
        simp only [Deployment.prunable, Bool.and_eq_true, beq_iff_eq] at hp
        exact ⟨hp.1.1, hp.1.2⟩
      · left
        exact hremove.trans (by simp [Option.filter, hid, hki, find, hk])

theorem Store.prunesTo_pruneDeployments (before : Time) (records : List Deployment) (st : Store) :
    st.PrunesTo (st.pruneDeployments records before) := by
  induction records generalizing st with
  | nil => exact fun k => .inl rfl
  | cons record records ih =>
    intro k
    rcases ih (st.pruneDeployment before record) k with hsame | ⟨hnone, row, hrow, hover⟩
    · rcases st.prunesTo_pruneDeployment before record k with hsame' | ⟨hnone, hrow⟩
      · exact .inl (hsame.trans hsame')
      · exact .inr ⟨hsame.trans hnone, hrow⟩
    · refine .inr ⟨hnone, row, ?_, hover⟩
      rcases st.prunesTo_pruneDeployment before record k with hsame' | ⟨hnone', -⟩
      · exact hsame' ▸ hrow
      · rw [hnone'] at hrow
        cases hrow

theorem Store.PrunesTo.find (h : st.PrunesTo st') {k : String} {d : Deployment}
    (hd : st'.find k = some d) : st.find k = some d := by
  rcases h k with hsame | ⟨hnone, -⟩
  · exact hsame ▸ hd
  · rw [hnone] at hd
    cases hd

theorem Inv.prune (h : Inv s) (hp : s.store.PrunesTo st') : Inv { s with store := st' } :=
  { h with
    rows := fun hd => h.rows (hp.find hd)
    evidence := fun hd => h.evidence (hp.find hd)
    committed := fun hmem =>
      ⟨(h.committed hmem).1, (h.committed hmem).2.1, fun hd => (h.committed hmem).2.2 (hp.find hd)⟩
    covered := fun {id} hno attempt hu => by
      obtain ⟨d, hd, hattempt, htracks⟩ := h.covered hno attempt hu
      rcases hp id with hsame | ⟨-, row, hrow, hover⟩
      · exact ⟨d, hsame.trans hd, hattempt, htracks⟩
      · rw [hd] at hrow
        cases hrow
        exact absurd htracks (Core.not_tracks_of_over hover)
    pending := fun {id attempt} hq => by
      obtain ⟨d, hd, hattempt, hawaits⟩ := h.pending hq
      rcases hp id with hsame | ⟨-, row, hrow, hover⟩
      · exact ⟨d, hsame.trans hd, hattempt, hawaits⟩
      · rw [hd] at hrow
        cases hrow
        exact absurd hover hawaits.not_over }

theorem Effect.prune (h : Inv s) (hp : s.store.PrunesTo st') :
    Grows i s { s with store := st' } ∧ ∀ j, Spares j s { s with store := st' } := by
  constructor
  · exact { Grows.refl i s with
      rows := fun id => by
        rcases hp id with hsame | ⟨hnone, row, hrow, -⟩
        · exact .inl (congrArg _ hsame)
        · exact .inr (.inr (.inl ⟨hnone, (h.rows hrow).2⟩))
      quiet := fun _ _ hu => hu
      pending := fun _ _ hq => hq }
  · exact fun j => ⟨id, id, fun _ excludeID =>
      Store.active_le (fun hd hscope hcounts => ⟨_, hp.find hd, hscope, hcounts⟩) excludeID⟩

/-! ### The transaction of an admission -/

theorem commitAdmission_ok {admitted : Except StoreError Store} {event : DeploymentEvent}
    (h : commitAdmission admitted event x = .ok st') :
    ∃ st, admitted = .ok st ∧ st'.deployments = st.deployments := by
  unfold commitAdmission at h
  split at h
  · cases h
  · split at h
    · cases h
    · rename_i st
      split at h
      · cases h
      · rename_i store happend
        split at h
        · cases h
        · cases h
          refine ⟨st, rfl, ?_⟩
          obtain ⟨e', owner, r, b, kept, -, -, -, -, rfl⟩ :=
            Store.appendDeploymentEvent_ok happend
          rfl

theorem Grows.trans_sameCores (h : Grows i s s') (hc : s'.store.SameCores st') :
    Grows i s { s' with store := st' } :=
  { h with
    rows := fun id => by
      obtain hsame | ⟨d, d', hd, hd', hlt⟩ | ⟨hnone, hused⟩ | hnew := h.rows id
      · exact .inl ((hc id).trans hsame)
      · obtain ⟨e, he, hcore⟩ := hc.symm.find hd'
        refine .inr (.inl ⟨d, e, hd, he, ?_⟩)
        rw [show e.version = d'.version from congrArg Core.version hcore]
        exact hlt
      · refine .inr (.inr (.inl ⟨?_, hused⟩))
        have hcid := hc id
        rw [hnone, Option.map_none, Option.map_eq_none_iff] at hcid
        exact hcid
      · exact .inr (.inr (.inr hnew))
    quiet := fun hsame _ hu => h.quiet ((hc _).symm.trans hsame) hu
    pending := fun hsame _ hp => h.pending ((hc _).symm.trans hsame) hp }

theorem Grows.trans_locks (h : Grows i s s') (locks : Scope → Option Nat) :
    Grows i s { s' with scopeLocks := locks } :=
  { h with
    quiet := fun hsame _ hu => h.quiet hsame hu
    pending := fun hsame _ hp => h.pending hsame hp }

theorem Spares.trans_sameCores {j : Nat} (h : Spares j s s') (hc : s'.store.SameCores st') :
    Spares j s { s' with store := st' } :=
  ⟨h.tickets, h.locks, fun hlock excludeID =>
    ((Spares.sameCores hc j).active (h.locks hlock) excludeID).trans (h.active hlock excludeID)⟩

/-! ### Creation -/

/-- One row is new or new in place of another. -/
def Store.Puts (st st' : Store) (row : Deployment) : Prop :=
  ∀ k, st'.find k = if k = row.id then some row else st.find k

theorem Store.createDeployment_puts {d : Deployment} {now : Time} (hnew : d.New)
    (h : st.createDeployment d now = .ok st') :
    st.find (trimSpace d.id) = none ∧ ∃ row, st.Puts st' row ∧ row.id = trimSpace d.id ∧
      row.scope = d.scope ∧ row.status = .queued ∧ row.sandboxID = "" ∧ row.failure = {} := by
  obtain ⟨d', hn, hnone, -, rfl⟩ := createDeployment_ok h
  have hd' : d'.id = trimSpace d.id ∧ d'.scope = d.scope ∧ d'.status = .queued ∧
      d'.sandboxID = "" ∧ d'.failure = {} := by
    obtain ⟨_, _, _, rfl⟩ := normalizeDeployment_ok hn
    exact ⟨rfl, rfl, hnew.status, hnew.sandboxID, hnew.failure⟩
  refine ⟨hd'.1 ▸ hnone, newDeploymentRecord d' now, fun k => ?_, hd'⟩
  rw [find, Table.find_insert]
  by_cases hk : k = d'.id
  · subst hk
    have hnone' : st.deployments.find d'.id = none := hnone
    simp [newDeploymentRecord, hnone']
  · exact (if_neg fun he => hk he.symm).trans (if_neg hk).symm

theorem Deployment.ok_of_queued {row : Deployment} (hid : trimSpace row.id = row.id)
    (hstatus : row.status = .queued) (hsandbox : row.sandboxID = "") (hfailure : row.failure = {}) :
    row.core.Ok where
  id := hid
  sandbox := by
    rw [show row.core.sandboxID = "" from hsandbox]
    exact Core.trimmed_empty
  reason := by
    rw [show row.core.failure = {} from hfailure]
    exact Core.trimmed_empty
  clean _ := hsandbox
  failed h := by simp [core, hstatus] at h
  started h := by simp [core, hstatus] at h
  running h := by simp [core, hstatus] at h

section Create

variable {row : Deployment} (hnone : s.store.find row.id = none) (hunused : row.id ∉ s.usedIDs)
  (hp : s.store.Puts st' row)
include hnone hunused hp

/-- A deployment with a new id has no past. -/
theorem Inv.create (h : Inv s) (hok : row.core.Ok) (hsandbox : row.sandboxID = "") :
    Inv { s with store := st', usedIDs := row.id :: s.usedIDs } :=
  { h with
    rows := fun {id d} hd => by
      rw [hp] at hd
      split at hd
      · rename_i hid
        cases hd
        exact ⟨hok, hid ▸ List.mem_cons_self⟩
      · exact ⟨(h.rows hd).1, List.mem_cons_of_mem _ (h.rows hd).2⟩
    evidence := fun {id d} hd hne => by
      rw [hp] at hd
      split at hd
      · cases hd
        exact absurd hsandbox hne
      · exact h.evidence hd hne
    committed := fun {id attempt} hmem => by
      obtain ⟨hused, hpos, hle⟩ := h.committed hmem
      refine ⟨List.mem_cons_of_mem _ hused, hpos, fun {d} hd => hle ?_⟩
      have hid : id ≠ row.id := fun hid => hunused (hid ▸ hused)
      rw [hp, if_neg hid] at hd
      exact hd
    covered := fun {id} hno attempt hu => by
      obtain ⟨d, hd, hattempt, htracks⟩ := h.covered hno attempt hu
      refine ⟨d, ?_, hattempt, htracks⟩
      have hid : id ≠ row.id := by
        rintro rfl
        rw [hnone] at hd
        cases hd
      rw [hp, if_neg hid]
      exact hd
    pending := fun {id attempt} hq => by
      obtain ⟨d, hd, hattempt, hawaits⟩ := h.pending hq
      refine ⟨d, ?_, hattempt, hawaits⟩
      have hid : id ≠ row.id := by
        rintro rfl
        rw [hnone] at hd
        cases hd
      rw [hp, if_neg hid]
      exact hd }

theorem Grows.create : Grows i s { s with store := st', usedIDs := row.id :: s.usedIDs } :=
  { Grows.refl i s with
    used := List.subset_cons_self _ _
    rows := fun id => by
      by_cases hid : id = row.id
      · subst hid
        exact .inr (.inr (.inr ⟨hnone, hunused⟩))
      · exact .inl (by rw [hp, if_neg hid])
    quiet := fun _ _ hu => hu
    pending := fun _ _ hq => hq }

end Create

/-! ### Places -/

theorem Store.Puts.active_le {row : Deployment} {scope : Scope} (hp : st.Puts st' row)
    (hscope : row.scope ≠ scope) (excludeID : String) :
    st'.active scope excludeID ≤ st.active scope excludeID := by
  apply Store.active_le
  intro id e he hes hcounts
  rw [hp] at he
  split at he
  · cases he
    exact absurd hes hscope
  · exact ⟨e, he, hes, hcounts⟩

/-- The thread that takes a place has locked the scope, so the places of the scopes that another
thread has locked are left alone. -/
theorem Spares.puts {row : Deployment} {locks : Scope → Option Nat} {used overwritten : List String}
    (hp : s.store.Puts st' row) (hlock : s.scopeLocks row.scope = some i)
    (hlocks : ∀ {j k}, j ≠ i → s.scopeLocks k = some j → locks k = some j) {j : Nat} (hij : i ≠ j) :
    Spares j s { s with
      store := st', scopeLocks := locks, usedIDs := used, overwritten := overwritten } := by
  refine ⟨fun hmem => hmem, hlocks hij.symm, fun {scope} hj => hp.active_le ?_⟩
  rintro rfl
  rw [hlock] at hj
  exact hij (Option.some.inj hj)

/-! ### Retries -/

theorem Store.retryDeployment_puts {d : Deployment} {expiresAt now : Time}
    (h : st.retryDeployment d expiresAt now = .ok st') :
    ∃ row row' expiresAt', st.find d.id = some row ∧ row.version = d.version ∧
      row.status.terminal = true ∧ row'.core = { row.core with
        revisionNumber := row.revisionNumber + 1
        status := .queued
        sandboxID := ""
        failure := {}
        error := ""
        expiresAt := expiresAt'
        version := row.version + 1 } ∧ st.Puts st' row' := by
  obtain ⟨-, -, row, expiresAt', hrow, hv, hterminal, -, rfl⟩ := retryDeployment_ok h
  have hid : row.id = d.id := id_of_find hrow
  refine ⟨row, row.retried d expiresAt' now, expiresAt', hrow, hv, hterminal, ?_, ?_⟩
  · rw [Deployment.core_retried, hv]
  · intro k
    have hkey : (row.retried d expiresAt' now).id = d.id := hid
    have hput := find_put hrow hkey k
    rw [← hid] at hput
    exact hput

section Retry

variable {row row' : Deployment} {overwritten : List String} (hfind : s.store.find row'.id = some row)
  (hp : s.store.Puts st' row')
include hfind hp

/-- A deployment that is retried is over, or it counts as overwritten. -/
theorem Inv.retry (h : Inv s) (hok : row'.core.Ok) (hsandbox : row'.sandboxID = "")
    (hattempt : row'.attempt = row.attempt) (hterminal : row.status.terminal = true)
    (hsub : s.overwritten ⊆ overwritten) (hover : row.sandboxID ≠ "" → row'.id ∈ overwritten) :
    Inv { s with store := st', overwritten := overwritten } :=
  { h with
    rows := fun {id d} hd => by
      rw [hp] at hd
      split at hd
      · rename_i hid
        cases hd
        exact ⟨hok, hid ▸ (h.rows hfind).2⟩
      · exact h.rows hd
    evidence := fun {id d} hd hne => by
      rw [hp] at hd
      split at hd
      · cases hd
        exact absurd hsandbox hne
      · exact h.evidence hd hne
    committed := fun {id attempt} hmem => by
      obtain ⟨hused, hpos, hle⟩ := h.committed hmem
      refine ⟨hused, hpos, fun {d} hd => ?_⟩
      rw [hp] at hd
      split at hd
      · rename_i hid
        cases hd
        rw [hattempt]
        exact hle (hid ▸ hfind)
      · exact hle hd
    covered := fun {id} hno attempt hu => by
      obtain ⟨d, hd, hd', htracks⟩ := h.covered (fun hmem => hno (hsub hmem)) attempt hu
      by_cases hid : id = row'.id
      · subst hid
        rw [hfind] at hd
        cases hd
        have hempty : row.sandboxID = "" := by_contra fun hne => hno (hover hne)
        exact absurd htracks (Core.not_tracks_of_over ⟨hterminal, hempty⟩)
      · exact ⟨d, (hp id).trans ((if_neg hid).trans hd), hd', htracks⟩
    pending := fun {id attempt} hq => by
      obtain ⟨d, hd, hd', hawaits⟩ := h.pending hq
      by_cases hid : id = row'.id
      · subst hid
        rw [hfind] at hd
        cases hd
        exact absurd hterminal hawaits.not_terminal
      · exact ⟨d, (hp id).trans ((if_neg hid).trans hd), hd', hawaits⟩ }

theorem Grows.retry (hv : row.version < row'.version) (hsub : s.overwritten ⊆ overwritten) :
    Grows i s { s with store := st', overwritten := overwritten } :=
  { Grows.refl i s with
    overwritten := hsub
    rows := fun id => by
      by_cases hid : id = row'.id
      · subst hid
        exact .inr (.inl ⟨row, row', hfind, (hp _).trans (if_pos rfl), hv⟩)
      · exact .inl (by rw [hp, if_neg hid])
    quiet := fun _ _ hu => hu
    pending := fun _ _ hq => hq }

end Retry

/-! ### Admissions as calls -/

section Calls

variable {d : Deployment} {event : DeploymentEvent} {r : Option StoreError}

theorem State.commitCreate_cases (hnew : d.New) (h : s.commitCreate i d event x = (r, s')) :
    ∃ locks, (∀ {j k}, j ≠ i → s.scopeLocks k = some j → locks k = some j) ∧
      (s' = { s with scopeLocks := locks } ∨
        ∃ row st st', commitAdmission (s.store.createDeployment d x.now) event x = .ok st' ∧
          s.store.find row.id = none ∧ s.store.Puts st row ∧ st.SameCores st' ∧
          row.id = trimSpace d.id ∧ row.scope = d.scope ∧ row.status = .queued ∧
          row.sandboxID = "" ∧ row.failure = {} ∧
          s' = { s with
            scopeLocks := locks, store := st', usedIDs := row.id :: s.usedIDs }) := by
  obtain ⟨locks, hrelease, hlocks⟩ := s.release_cases i d.scope
  refine ⟨locks, hlocks, ?_⟩
  unfold commitCreate at h
  rw [hrelease] at h
  rcases hc : commitAdmission (s.store.createDeployment d x.now) event x with e | st'
  · simp only [hc, Prod.mk.injEq] at h
    exact .inl h.2.symm
  · simp only [hc, Prod.mk.injEq] at h
    obtain ⟨st, hcreate, hdeployments⟩ := commitAdmission_ok hc
    have hsame := Store.sameCores_of_deployments hdeployments
    obtain ⟨hnone, row, hputs, hid, hscope, hstatus, hsandbox, hfailure⟩ :=
      Store.createDeployment_puts hnew hcreate
    refine .inr ⟨row, st, st', rfl, hid ▸ hnone, hputs, hsame, hid, hscope, hstatus, hsandbox,
      hfailure, ?_⟩
    rw [hid]
    exact h.2.symm

theorem State.commitRetry_cases {expiresAt : Time}
    (h : s.commitRetry i d expiresAt event x = (r, s')) :
    ∃ locks, (∀ {j k}, j ≠ i → s.scopeLocks k = some j → locks k = some j) ∧
      (s' = { s with scopeLocks := locks } ∨
        ∃ row row' st st' expiresAt' overwritten,
          commitAdmission (s.store.retryDeployment d expiresAt x.now) event x = .ok st' ∧
          s.store.find d.id = some row ∧ row.version = d.version ∧ row.status.terminal = true ∧
          row'.core = { row.core with
            revisionNumber := row.revisionNumber + 1
            status := .queued
            sandboxID := ""
            failure := {}
            error := ""
            expiresAt := expiresAt'
            version := row.version + 1 } ∧
          s.store.Puts st row' ∧ st.SameCores st' ∧ s.overwritten ⊆ overwritten ∧
          (row.sandboxID ≠ "" → d.id ∈ overwritten) ∧
          (row.sandboxID = "" → overwritten = s.overwritten) ∧
          s' = { s with scopeLocks := locks, store := st', overwritten := overwritten }) := by
  obtain ⟨locks, hrelease, hlocks⟩ := s.release_cases i d.scope
  refine ⟨locks, hlocks, ?_⟩
  unfold commitRetry at h
  rw [hrelease] at h
  rcases hc : commitAdmission (s.store.retryDeployment d expiresAt x.now) event x with e | st'
  · simp only [hc, Prod.mk.injEq] at h
    exact .inl h.2.symm
  · simp only [hc, Prod.mk.injEq] at h
    obtain ⟨st, hretry, hdeployments⟩ := commitAdmission_ok hc
    have hsame := Store.sameCores_of_deployments hdeployments
    obtain ⟨row, row', expiresAt', hrow, hv, hterminal, hcore, hputs⟩ :=
      Store.retryDeployment_puts hretry
    refine .inr ⟨row, row', st, st', expiresAt', _, rfl, hrow, hv, hterminal, hcore, hputs, hsame,
      ?_, ?_, ?_, h.2.symm⟩
    · split
      · exact List.subset_cons_self _ _
      · exact List.Subset.refl _
    · intro hne
      rw [if_pos (by simp [hrow, hne])]
      exact List.mem_cons_self
    · intro he
      exact if_neg (by simp [hrow, he])

end Calls

end CiRunner.Deployments
