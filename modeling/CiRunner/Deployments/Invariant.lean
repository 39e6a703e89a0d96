import CiRunner.Deployments.Knowledge

/-! The invariant of the deployment machine. Attempts are begun in ascending order
and each is created at most once, by the thread that has begun it; and a sandbox that
may be left belongs to the last attempt of a deployment whose row shows it, or is
still waiting to learn of it. -/

namespace CiRunner.Deployments

open Text Threads Tables
open CiRunner.State (Time)

/-- The row of a deployment with a sandbox that may be left. -/
def Core.Tracks (c : Core) : Prop :=
  c.status = .creating ∨ c.status = .stopping ∨
    (c.sandboxID ≠ "" ∧ (c.status = .running ∨ c.status = .failed))

/-- The row of a deployment whose creation may not have been made yet. -/
def Core.Awaits (c : Core) : Prop :=
  (c.status = .creating ∨ c.status = .stopping) ∧ c.sandboxID = ""

/-- What may be left of a deployment is of its last attempt, and its row keeps track of it. -/
def State.Covered (s : State) (id : String) : Prop :=
  ∀ attempt, s.Unresolved id attempt →
    ∃ d, s.store.find id = some d ∧ attempt = d.attempt ∧ d.core.Tracks

structure Inv (s : State) : Prop where
  rows : ∀ {id d}, s.store.find id = some d → d.core.Ok ∧ id ∈ s.usedIDs
  /-- The sandbox in a row is that of its attempt. -/
  evidence : ∀ {id d}, s.store.find id = some d → d.sandboxID ≠ "" →
    (d.sandboxID, id, d.attempt) ∈ s.sandboxes
  committed : ∀ {id attempt}, (id, attempt) ∈ s.commits → id ∈ s.usedIDs ∧ 0 < attempt ∧
    ∀ {d}, s.store.find id = some d → attempt ≤ d.attempt
  order : s.commits.Pairwise fun p q => p.1 = q.1 → q.2 < p.2
  tickets : ∀ {j id attempt}, (j, id, attempt) ∈ s.tickets →
    (id, attempt) ∈ s.commits ∧ (id, attempt) ∉ s.creations
  oneTicket : (s.tickets.map Prod.snd).Nodup
  creations : s.creations ⊆ s.commits
  once : s.creations.Nodup
  sandboxes : ∀ {sandboxID id attempt}, (sandboxID, id, attempt) ∈ s.sandboxes →
    (id, attempt) ∈ s.creations ∧ Named sandboxID
  oneSandbox : (s.sandboxes.map Prod.snd).Nodup
  covered : ∀ {id}, id ∉ s.overwritten → s.Covered id
  /-- An attempt that is still to be created is that of its row. -/
  pending : ∀ {id attempt}, s.Pending id attempt → ∃ d, s.store.find id = some d ∧
    d.attempt = attempt ∧ d.core.Awaits

namespace Inv

variable {s : State} {id : String} {d : Deployment} {attempt : Nat}

theorem sandbox_unique (h : Inv s) {sandboxID sandboxID' : String}
    (hx : (sandboxID, id, attempt) ∈ s.sandboxes) (hy : (sandboxID', id, attempt) ∈ s.sandboxes) :
    sandboxID = sandboxID' :=
  congrArg Prod.fst (List.inj_on_of_nodup_map h.oneSandbox hx hy rfl)

theorem committed_of_unresolved (h : Inv s) (hu : s.Unresolved id attempt) :
    (id, attempt) ∈ s.commits := by
  obtain ⟨⟨sandboxID, hmem, -⟩ | ⟨j, hmem⟩, -⟩ := hu
  · exact h.creations (h.sandboxes hmem).1
  · exact (h.tickets hmem).1

theorem resolved_of_gone (h : Inv s) (hcovered : s.Covered id) (hd : s.store.find id = some d)
    (hne : d.sandboxID ≠ "") (hgone : d.sandboxID ∈ s.gone) : ¬s.Unresolved id attempt := by
  intro hu
  obtain ⟨d', hd', rfl, -⟩ := hcovered attempt hu
  rw [hd] at hd'
  cases hd'
  have hmem := h.evidence hd hne
  obtain ⟨⟨sandboxID, hsandbox, hnot⟩ | ⟨j, hticket⟩, -⟩ := hu
  · rw [h.sandbox_unique hsandbox hmem] at hnot
    exact hnot hgone
  · exact (h.tickets hticket).2 (h.sandboxes hmem).1

theorem resolved_of_unmade (h : Inv s) (hcovered : s.Covered id) (hd : s.store.find id = some d)
    (hcreated : (id, d.attempt) ∈ s.creations)
    (hnone : ∀ sandboxID, (sandboxID, id, d.attempt) ∉ s.sandboxes) :
    ¬s.Unresolved id attempt := by
  intro hu
  obtain ⟨d', hd', rfl, -⟩ := hcovered attempt hu
  rw [hd] at hd'
  cases hd'
  obtain ⟨⟨sandboxID, hsandbox, -⟩ | ⟨j, hticket⟩, -⟩ := hu
  · exact hnone sandboxID hsandbox
  · exact (h.tickets hticket).2 hcreated

theorem resolved_of_settled (hcovered : s.Covered id) (hd : s.store.find id = some d)
    (hsettled : (id, d.attempt) ∈ s.settled) : ¬s.Unresolved id attempt := by
  intro hu
  obtain ⟨d', hd', rfl, -⟩ := hcovered attempt hu
  rw [hd] at hd'
  cases hd'
  exact hu.2 hsettled

theorem resolved_of_attempt_zero (h : Inv s) (hcovered : s.Covered id)
    (hd : s.store.find id = some d) (hzero : d.attempt = 0) : ¬s.Unresolved id attempt := by
  intro hu
  obtain ⟨d', hd', rfl, -⟩ := hcovered attempt hu
  rw [hd] at hd'
  cases hd'
  have := (h.committed (h.committed_of_unresolved hu)).2.1
  omega

theorem resolved_of_not_tracks (hcovered : s.Covered id) (hd : s.store.find id = some d)
    (hno : ¬d.core.Tracks) : ¬s.Unresolved id attempt := by
  intro hu
  obtain ⟨d', hd', -, htracks⟩ := hcovered attempt hu
  rw [hd] at hd'
  cases hd'
  exact hno htracks

end Inv

theorem Core.not_tracks_of_status {c : Core} (hs : c.status = .queued ∨ c.status = .planning ∨
    c.status = .completed ∨ c.status = .expired) : ¬c.Tracks := by
  rintro (h | h | ⟨-, h | h⟩) <;> simp [h] at hs

theorem Core.not_tracks_of_over {c : Core} (h : c.Over) : ¬c.Tracks := by
  obtain ⟨hterminal, hempty⟩ := h
  rintro (h | h | ⟨hne, -⟩)
  · simp [h, DeploymentStatus.terminal] at hterminal
  · simp [h, DeploymentStatus.terminal] at hterminal
  · exact hne hempty

theorem Core.Awaits.not_terminal {c : Core} (h : c.Awaits) : c.status.terminal ≠ true := by
  rcases h.1 with hs | hs <;> simp [hs, DeploymentStatus.terminal]

theorem Core.Awaits.not_over {c : Core} (h : c.Awaits) : ¬c.Over := fun ho => h.not_terminal ho.1

/-! ### What the places do to what may be left -/

theorem Core.Fails.tracks {c d : Core} (h : c.Fails d) (hne : c.sandboxID ≠ "") : d.Tracks := by
  obtain ⟨stage, reason, -, -, rfl⟩ := h
  exact .inr (.inr ⟨hne, .inr rfl⟩)

theorem Core.Fails.same {c d : Core} (h : c.Fails d) :
    d.attempt = c.attempt ∧ d.sandboxID = c.sandboxID := by
  obtain ⟨stage, reason, -, -, rfl⟩ := h
  exact ⟨rfl, rfl⟩

theorem Core.Finds.same {c d : Core} (h : c.Finds d) :
    d.attempt = c.attempt ∧ d.status = c.status := by
  rw [h.2.2.2]
  exact ⟨rfl, rfl⟩

section Sites

variable {s : State} {κ : Know} {limit i : Nat} {w : Site} {c d : Core} {row : Deployment}

/-- A deployment fails after its creation: either its sandbox stays in the row, or it is gone. -/
theorem Inv.tracks_or_resolved_fails (h : Inv s) {c' : Core} (hcovered : s.Covered row.id)
    (hrow : s.store.find row.id = some row) (hcore : row.core = c) (hdrops : c.Drops c')
    (hfails : c'.Fails d)
    (hgone : d.sandboxID = "" → (∀ attempt, ¬s.Unresolved row.id attempt) ∨
      (c.sandboxID ≠ "" ∧ c.sandboxID ∈ s.gone)) :
    (d.attempt = c.attempt ∧ d.Tracks) ∨ ∀ attempt, ¬s.Unresolved row.id attempt := by
  by_cases hempty : d.sandboxID = ""
  · right
    intro attempt
    rcases hgone hempty with hnone | ⟨hne, hmem⟩
    · exact hnone attempt
    · rw [← hcore] at hne hmem
      exact h.resolved_of_gone hcovered hrow hne hmem
  · left
    rw [hfails.same.2] at hempty
    exact ⟨hfails.same.1.trans hdrops.id_eq.2.2, hfails.tracks hempty⟩

theorem Inv.tracks_or_resolved (h : Inv s) (hκ : Holds limit i κ s) (hw : w.Writes c d)
    (he : w.Evidence κ c d) (hc : c.Ok) (hcovered : s.Covered row.id) (hno : row.id ∉ s.overwritten)
    (hrow : s.store.find row.id = some row) (hcore : row.core = c) :
    (d.attempt = c.attempt ∧ d.Tracks) ∨ ∀ attempt, ¬s.Unresolved row.id attempt := by
  have hnot : ∀ {version : Nat}, version = c.version → ¬s.Past row.id version := by
    rintro version rfl (⟨hnone, -⟩ | ⟨row', hrow', hlt⟩)
    · rw [hrow] at hnone
      cases hnone
    · rw [hrow] at hrow'
      cases hrow'
      rw [← hcore] at hlt
      exact Nat.lt_irrefl _ hlt
  have hid : c.id = row.id := by rw [← hcore]; rfl
  have hattempt : c.attempt = row.attempt := by rw [← hcore]; rfl
  have hidle : c.status = .queued ∨ c.status = .planning → ∀ attempt, ¬s.Unresolved row.id attempt := by
    intro hs attempt
    refine Inv.resolved_of_not_tracks hcovered hrow ?_
    rw [hcore]
    exact Core.not_tracks_of_status (by rcases hs with hs | hs <;> simp [hs])
  cases w with
  | planning => exact .inr (hidle (.inl hw.1))
  | requeue | planFailed | templateFailed | creating => exact .inr (hidle (.inr hw.1))
  | created | recovered => exact .inl ⟨hw.2.same.1, .inl (hw.2.same.2.trans hw.1)⟩
  | stopRecovered =>
    left
    refine ⟨hw.2.same.1, ?_⟩
    rcases hw.1 with hs | hs
    · exact .inl (hw.2.same.2.trans hs)
    · exact .inr (.inl (hw.2.same.2.trans hs))
  | createFailed =>
    obtain ⟨-, c', hdrops, hfails⟩ := hw
    refine h.tracks_or_resolved_fails hcovered hrow hcore hdrops hfails fun hempty => ?_
    rcases he hempty with ⟨-, hmem⟩ | ⟨hne, hmem⟩
    · left
      obtain ⟨hcreated, hnone⟩ := hκ _ hmem
      rw [hid, hattempt] at hcreated hnone
      exact fun attempt => h.resolved_of_unmade hcovered hrow hcreated hnone
    · exact .inr ⟨hne, hκ _ hmem⟩
  | applyFailed =>
    obtain ⟨-, c', hdrops, hfails⟩ := hw
    exact h.tracks_or_resolved_fails hcovered hrow hcore hdrops hfails fun hempty =>
      .inr ⟨(he hempty).1, hκ _ (he hempty).2⟩
  | createUnconfirmed => exact hw.elim
  | applyStage | checkpoint => exact .inl ⟨hw.2.same.1, .inl (hw.2.same.2.1.trans hw.1)⟩
  | applyExpired =>
    right
    intro attempt
    obtain ⟨hne, hmem⟩ := he
    have hgone : c.sandboxID ∈ s.gone := hκ _ hmem
    rw [← hcore] at hne hgone
    exact h.resolved_of_gone hcovered hrow hne hgone
  | applyCleanupFailed =>
    obtain ⟨-, hne, reason, -, rfl⟩ := hw
    exact .inl ⟨rfl, .inr (.inr ⟨hne, .inr rfl⟩)⟩
  | running =>
    obtain ⟨-, hne, rfl⟩ := hw
    exact .inl ⟨rfl, .inr (.inr ⟨hne, .inl rfl⟩)⟩
  | recoveryLost =>
    right
    intro attempt
    rcases hκ _ he with hp | hmem
    · rw [hid] at hp
      exact absurd hp (hnot rfl)
    · rw [hid, hattempt] at hmem
      exact Inv.resolved_of_settled hcovered hrow hmem
  | recovery => exact .inl ⟨hw.2.2.same.1, hw.2.2.tracks hw.2.1⟩
  | processExit => exact .inl ⟨hw.2.same.1, hw.2.tracks (hc.running hw.1)⟩
  | stopping unstarted =>
    obtain ⟨-, -, rfl⟩ := hw
    exact .inl ⟨rfl, .inr (.inl rfl)⟩
  | stopCleanupFailed =>
    obtain ⟨-, hne, stage, reason, -, -, -, rfl⟩ := hw
    exact .inl ⟨rfl, .inr (.inr ⟨hne, .inr rfl⟩)⟩
  | stopped =>
    right
    intro attempt
    rcases he with ⟨hne, hmem⟩ | ⟨-, hzero | hmem | hmem⟩
    · have hgone : c.sandboxID ∈ s.gone := hκ _ hmem
      rw [← hcore] at hne hgone
      exact h.resolved_of_gone hcovered hrow hne hgone
    · exact h.resolved_of_attempt_zero hcovered hrow (hattempt.symm.trans hzero)
    · have hsettled : (c.id, c.attempt) ∈ s.settled := hκ _ hmem
      rw [hid, hattempt] at hsettled
      exact Inv.resolved_of_settled hcovered hrow hsettled
    · have hclear := hκ _ hmem
      simp only [Fact.Holds, hid] at hclear
      rcases hclear with hp | ⟨_, _, _, _, ho | hclear⟩
      · exact absurd hp (hnot rfl)
      · exact absurd ho hno
      · exact hclear attempt
  | stopRequested =>
    obtain ⟨hover, rfl⟩ := hw
    by_cases hq : c.status = .queued
    · exact .inr (hidle (.inl hq))
    · left
      refine ⟨rfl, ?_⟩
      by_cases hf : c.status = .failed
      · have hne : c.sandboxID ≠ "" := fun he => hover ⟨by rw [hf]; rfl, he⟩
        exact .inr (.inr ⟨hne, .inr (by simp [hf])⟩)
      · exact .inr (.inl (by simp [hq, hf]))

theorem Inv.awaits (h : Inv s) (hκ : Holds limit i κ s) (hw : w.Writes c d)
    (he : w.Evidence κ c d) (hrow : s.store.find row.id = some row) (hcore : row.core = c)
    (hpending : s.Pending row.id row.attempt) (hawaits : c.Awaits) :
    d.attempt = c.attempt ∧ d.Awaits := by
  obtain ⟨⟨j, hticket⟩, hsettled⟩ := hpending
  obtain ⟨hcommit, hcreation⟩ := h.tickets hticket
  obtain ⟨hstatus, hempty⟩ := hawaits
  have hid : c.id = row.id := by rw [← hcore]; rfl
  have hattempt : c.attempt = row.attempt := by rw [← hcore]; rfl
  have hmade : ∀ {sandboxID}, Fact.made sandboxID c.id c.attempt ∉ κ := by
    intro sandboxID hmem
    have hsandbox : (sandboxID, c.id, c.attempt) ∈ s.sandboxes := hκ _ hmem
    rw [hid, hattempt] at hsandbox
    exact hcreation (h.sandboxes hsandbox).1
  have hpast : ¬s.Past row.id c.version := by
    rintro (⟨hnone, -⟩ | ⟨row', hrow', hlt⟩)
    · rw [hrow] at hnone
      cases hnone
    · rw [hrow] at hrow'
      cases hrow'
      rw [← hcore] at hlt
      exact Nat.lt_irrefl _ hlt
  have hidle : c.status ≠ .queued ∧ c.status ≠ .planning ∧ c.status ≠ .running := by
    rcases hstatus with hs | hs <;> simp [hs]
  cases w with
  | planning => exact absurd hw.1 hidle.1
  | requeue | planFailed | templateFailed | creating => exact absurd hw.1 hidle.2.1
  | processExit => exact absurd hw.1 hidle.2.2
  | created | recovered | stopRecovered => exact absurd he hmade
  | createUnconfirmed => exact hw.elim
  | createFailed =>
    obtain ⟨-, c', hdrops, hfails⟩ := hw
    have hd : d.sandboxID = "" := by
      rw [hfails.same.2]
      rcases hdrops with rfl | rfl
      · exact hempty
      · rfl
    rcases he hd with ⟨-, hmem⟩ | ⟨hne, -⟩
    · have hunmade := (hκ _ hmem).1
      rw [hid, hattempt] at hunmade
      exact absurd hunmade hcreation
    · exact absurd hempty hne
  | applyFailed =>
    obtain ⟨-, c', hdrops, hfails⟩ := hw
    have hd : d.sandboxID = "" := by
      rw [hfails.same.2]
      rcases hdrops with rfl | rfl
      · exact hempty
      · rfl
    exact absurd hempty (he hd).1
  | applyExpired => exact absurd hempty he.1
  | applyStage | checkpoint =>
    obtain ⟨ha, hs, hsandbox⟩ := hw.2.same
    exact ⟨ha, .inl (hs.trans hw.1), hsandbox.trans hempty⟩
  | applyCleanupFailed | running | recovery | stopCleanupFailed => exact absurd hempty hw.2.1
  | recoveryLost =>
    rcases hκ _ he with hp | hmem
    · rw [hid] at hp
      exact absurd hp hpast
    · rw [hid, hattempt] at hmem
      exact absurd hmem hsettled
  | stopping unstarted =>
    obtain ⟨-, -, rfl⟩ := hw
    exact ⟨rfl, .inr rfl, hempty⟩
  | stopped =>
    rcases he with ⟨hne, -⟩ | ⟨-, hzero | hmem | hmem⟩
    · exact absurd hempty hne
    · have := (h.committed hcommit).2.1
      omega
    · have hmem' : (c.id, c.attempt) ∈ s.settled := hκ _ hmem
      rw [hid, hattempt] at hmem'
      exact absurd hmem' hsettled
    · have hclear := hκ _ hmem
      simp only [Fact.Holds, hid] at hclear
      rcases hclear with hp | ⟨_, _, _, hnone, -⟩
      · exact absurd hp hpast
      · exact absurd ⟨⟨j, hticket⟩, hsettled⟩ (hnone row.attempt)
  | stopRequested =>
    obtain ⟨-, rfl⟩ := hw
    refine ⟨rfl, .inr ?_, hempty⟩
    rcases hstatus with hs | hs <;> simp [hs]

end Sites

end CiRunner.Deployments
