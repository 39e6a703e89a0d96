import CiRunner.Sponsorship.Store

/-! Approvals do not outlive their policy. Every operation locks the policy whose approvals it
writes, or that it deletes together with them, until its transaction ends; so in every
committed state an approval belongs to a policy of the same sponsor and source. -/

namespace CiRunner.Sponsorship

open Tables Threads

/-! ### Rows -/

section Rows

variable {t t' : Rows} {sponsor source fork : Int} {p : ForkSponsorshipPolicy}
  {a : ForkSponsorshipApproval}

theorem policyOf_eq_some :
    policyOf t source = some p ↔ t.find (.policy source) = some (.policy p) := by
  unfold policyOf
  split <;> simp_all

theorem approvalOf_eq_some :
    approvalOf t source fork = some a ↔ t.find (.approval source fork) = some (.approval a) := by
  unfold approvalOf
  split <;> simp_all

theorem policyBy_eq_some :
    policyBy t sponsor source = some p ↔
      policyOf t source = some p ∧ p.sponsorInstallationID = sponsor := by
  simp [policyBy, Option.filter_eq_some_iff]

theorem policyOf_of_mem (h : .policy p ∈ t.rows) : policyOf t p.sourceRepositoryID = some p :=
  policyOf_eq_some.mpr (Table.find_of_mem h)

theorem approvalOf_of_mem (h : .approval a ∈ t.rows) :
    approvalOf t a.sourceRepositoryID a.forkRepositoryID = some a :=
  approvalOf_eq_some.mpr (Table.find_of_mem h)

theorem mem_of_policyOf (h : policyOf t source = some p) :
    .policy p ∈ t.rows ∧ p.sourceRepositoryID = source := by
  rw [policyOf_eq_some] at h
  have hkey : Row.key (.policy p) = .policy source := Table.key_of_find h
  exact ⟨Table.mem_of_find h, by simpa [Row.key] using hkey⟩

theorem policyOf_congr (h : t'.find (.policy source) = t.find (.policy source)) :
    policyOf t' source = policyOf t source := by
  rw [policyOf, policyOf, h]

theorem policyBy_congr (h : t'.find (.policy source) = t.find (.policy source)) :
    policyBy t' sponsor source = policyBy t sponsor source := by
  rw [policyBy, policyBy, policyOf_congr h]

theorem mem_approvalKeys {k : RowKey} :
    k ∈ approvalKeys t sponsor source ↔ ∃ fork a, k = .approval source fork ∧
      approvalOf t source fork = some a ∧ a.sponsorInstallationID = sponsor := by
  simp only [approvalKeys, List.mem_filterMap]
  constructor
  · rintro ⟨row, hmem, hk⟩
    cases row with
    | policy p => cases hk
    | approval a =>
      dsimp only at hk
      split at hk
      · rename_i h
        cases hk
        refine ⟨a.forkRepositoryID, a, rfl, approvalOf_eq_some.mpr ?_, h.1⟩
        rw [← h.2]
        exact Table.find_of_mem hmem
      · cases hk
  · rintro ⟨fork, a, rfl, ha, hsponsor⟩
    have hfind := approvalOf_eq_some.mp ha
    have hkey : Row.key (.approval a) = .approval source fork := Table.key_of_find hfind
    rw [Row.key, RowKey.approval.injEq] at hkey
    refine ⟨_, Table.mem_of_find hfind, ?_⟩
    simp [hsponsor, hkey]

/-- Every approval belongs to a policy of its sponsor and source. -/
def Belongs (t : Rows) : Prop :=
  ∀ source fork a, approvalOf t source fork = some a →
    ∃ p, policyBy t a.sponsorInstallationID source = some p

end Rows

/-! ### What a transaction has done -/

inductive Know where
  | unconnected
  | idle
  | locked (sponsor source : Int)
  | approving (sponsor source : Int)
  | saving (sponsor source : Int)
  | dropping
  | cleared (sponsor source : Int)
  | deleting (sponsor source : Int)

/-- The transaction has locked a policy that is there. -/
def Locked (i : ℕ) (sponsor source : Int) (db : Store) : Prop :=
  db.locks (.policy source) = some i ∧ ∃ p, policyBy db.rows sponsor source = some p

/-- The transaction has deleted all approvals of a source, and done what is left. -/
def Cleared (i : ℕ) (source : Int) (rest : List (Write Row.key)) (db : Store) : Prop :=
  ∃ keys : List RowKey, db.writes i = keys.map .delete ++ rest ∧
    (∀ k ∈ keys, ∃ fork, k = .approval source fork) ∧
    ∀ fork a, approvalOf db.rows source fork = some a → .approval source fork ∈ keys

def Holds (i : ℕ) (κ : Know) (db : Store) : Prop :=
  match κ with
  | .unconnected => True
  | .idle => db.writes i = []
  | .locked sponsor source => db.writes i = [] ∧ Locked i sponsor source db
  | .approving sponsor source =>
    (∃ a, a.sponsorInstallationID = sponsor ∧ a.sourceRepositoryID = source ∧
      db.writes i = [.put (.approval a)]) ∧ Locked i sponsor source db
  | .saving sponsor source =>
    (∃ p, p.sponsorInstallationID = sponsor ∧ p.sourceRepositoryID = source ∧
      db.writes i = [.put (.policy p)]) ∧ db.locks (.policy source) = some i ∧
      ∀ p, policyOf db.rows source = some p → p.sponsorInstallationID = sponsor
  | .dropping => ∃ source fork, db.writes i = [.delete (.approval source fork)]
  | .cleared sponsor source => Cleared i source [] db ∧ Locked i sponsor source db
  | .deleting sponsor source =>
    Cleared i source [.delete (.policy source)] db ∧ Locked i sponsor source db

/-- Statements that write come one after the other, under the lock that they need. -/
def May (κ : Know) : Call → Prop
  | .insertPolicy _ | .updatePolicy _ | .lockPolicy _ _ | .deleteApproval _ _ _ => κ = .idle
  | .upsertApproval a => κ = .locked a.sponsorInstallationID a.sourceRepositoryID
  | .deleteApprovals sponsor source => κ = .locked sponsor source
  | .deletePolicy sponsor source => κ = .cleared sponsor source
  | .commit => κ ≠ .unconnected
  | .connect | .getPolicyBySource _ | .getPolicy _ _ | .getApproval _ _ | .rollback => True

def learn (κ : Know) : (c : Call) → c.Reply → Know
  | .connect, some () => .idle
  | .insertPolicy p, some true => .saving p.sponsorInstallationID p.sourceRepositoryID
  | .updatePolicy p, some true => .saving p.sponsorInstallationID p.sourceRepositoryID
  | .lockPolicy sponsor source, some true => .locked sponsor source
  | .upsertApproval a, some () => .approving a.sponsorInstallationID a.sourceRepositoryID
  | .deleteApprovals sponsor source, some () => .cleared sponsor source
  | .deletePolicy sponsor source, some () => .deleting sponsor source
  | .deleteApproval _ _ _, some true => .dropping
  | .commit, _ => .idle
  | .rollback, _ => .idle
  | _, _ => κ

structure Inv (db : Store) : Prop where
  guarded : db.Guarded
  belongs : Belongs db.rows

/-- What a statement does to the rows and to the others. -/
structure Effect (i : ℕ) (db db' : Store) : Prop where
  writes : ∀ j ≠ i, db'.writes j = db.writes j
  locks : ∀ {k j}, j ≠ i → db.locks k = some j → db'.locks k = some j
  rows : ∀ {k}, db.locks k ≠ some i → db'.rows.find k = db.rows.find k
  /-- An approval is added under a policy that is locked. -/
  approvals : ∀ {source fork a}, approvalOf db'.rows source fork = some a →
    approvalOf db.rows source fork = some a ∨
    (db.locks (.policy source) = some i ∧
      ∃ p, policyBy db.rows a.sponsorInstallationID source = some p)
  sponsor : ∀ {source p q}, policyOf db.rows source = some p → policyOf db'.rows source = some q →
    q.sponsorInstallationID = p.sponsorInstallationID

variable {i j : ℕ} {k : RowKey} {db db' : Store}

theorem Effect.of_rows (hrows : db'.rows = db.rows) (hwrites : ∀ j ≠ i, db'.writes j = db.writes j)
    (hlocks : ∀ {k j}, j ≠ i → db.locks k = some j → db'.locks k = some j) : Effect i db db' where
  writes := hwrites
  locks := hlocks
  rows _ := by rw [hrows]
  approvals h := .inl (by rw [← hrows]; exact h)
  sponsor hp hq := by
    rw [hrows, hp] at hq
    cases hq
    rfl

theorem Effect.refl (i : ℕ) (db : Store) : Effect i db db :=
  .of_rows rfl (fun _ _ => rfl) fun _ h => h

theorem effect_lock (h : db.free i k = true) : Effect i db (db.lock i k) :=
  .of_rows rfl (fun _ _ => rfl) fun hj hk => Database.locks_lock h hj hk

theorem effect_write {w : Write Row.key} (h : db.free i w.row = true) :
    Effect i db (db.write i w) :=
  .of_rows rfl (fun _ hj => db.writes_write_of_ne w hj) fun hj hk => Database.locks_lock h hj hk

theorem effect_rollback (i : ℕ) (db : Store) : Effect i db (db.rollback i) :=
  .of_rows rfl (fun _ hj => db.writes_rollback_of_ne hj) fun hj hk => Database.locks_rollback hj hk

/-! ### What the others leave -/

section Stable

variable {sponsor source : Int} (heffect : Effect i db db') (hij : i ≠ j)
include heffect hij

theorem Effect.find (h : db.locks k = some j) : db'.rows.find k = db.rows.find k := by
  refine heffect.rows fun he => hij ?_
  rw [h] at he
  exact (Option.some.inj he).symm

theorem Locked.stable (h : Locked j sponsor source db) : Locked j sponsor source db' := by
  obtain ⟨hlock, p, hp⟩ := h
  exact ⟨heffect.locks hij.symm hlock, p, (policyBy_congr (heffect.find hij hlock)).trans hp⟩

theorem Cleared.stable {rest : List (Write Row.key)} (h : Cleared j source rest db)
    (hlocked : Locked j sponsor source db) : Cleared j source rest db' := by
  obtain ⟨keys, hwrites, hkeys, hall⟩ := h
  refine ⟨keys, (heffect.writes j hij.symm).trans hwrites, hkeys, fun fork a ha => ?_⟩
  obtain hold | ⟨hlock, -⟩ := heffect.approvals ha
  · exact hall fork a hold
  · rw [hlocked.1] at hlock
    exact absurd (Option.some.inj hlock).symm hij

theorem Holds.stable {κ : Know} (h : Holds j κ db) : Holds j κ db' := by
  have hwrites := heffect.writes j hij.symm
  cases κ with
  | unconnected => trivial
  | idle => exact hwrites.trans h
  | locked sponsor source => exact ⟨hwrites.trans h.1, h.2.stable heffect hij⟩
  | approving sponsor source =>
    obtain ⟨⟨a, hsponsor, hsource, ha⟩, hlocked⟩ := h
    exact ⟨⟨a, hsponsor, hsource, hwrites.trans ha⟩, hlocked.stable heffect hij⟩
  | saving sponsor source =>
    obtain ⟨⟨p, hsponsor, hsource, hp⟩, hlock, hsame⟩ := h
    refine ⟨⟨p, hsponsor, hsource, hwrites.trans hp⟩, heffect.locks hij.symm hlock, ?_⟩
    rw [policyOf_congr (heffect.find hij hlock)]
    exact hsame
  | dropping =>
    obtain ⟨source, fork, hd⟩ := h
    exact ⟨source, fork, hwrites.trans hd⟩
  | cleared sponsor source =>
    exact ⟨h.1.stable heffect hij h.2, h.2.stable heffect hij⟩
  | deleting sponsor source =>
    exact ⟨h.1.stable heffect hij h.2, h.2.stable heffect hij⟩

end Stable

/-! ### Commits -/

/-- What a transaction is about to commit: approvals under a policy that it has locked, and no
policy goes or changes its sponsor unless no approvals of its source are left. -/
structure Sound (i : ℕ) (db : Store) : Prop where
  approvals : ∀ {source fork a}, approvalOf (db.view i) source fork = some a →
    approvalOf db.rows source fork = some a ∨
    (db.locks (.policy source) = some i ∧
      ∃ p, policyBy db.rows a.sponsorInstallationID source = some p)
  policies : ∀ {sponsor source p}, policyBy db.rows sponsor source = some p →
    (∃ p', policyBy (db.view i) sponsor source = some p') ∨
    policyOf (db.view i) source = none ∧ ∀ fork, approvalOf (db.view i) source fork = none

theorem approvalOf_mono {t t' : Rows} {source fork : Int} {a : ForkSponsorshipApproval}
    (h : t'.find (.approval source fork) = none ∨
      t'.find (.approval source fork) = t.find (.approval source fork))
    (ha : approvalOf t' source fork = some a) : approvalOf t source fork = some a := by
  rw [approvalOf_eq_some] at ha ⊢
  obtain hnone | hsame := h
  · rw [hnone] at ha
    cases ha
  · rw [← hsame]
    exact ha

theorem Sound.of_deletes
    (happrovals : ∀ source fork, (db.view i).find (.approval source fork) = none ∨
      (db.view i).find (.approval source fork) = db.rows.find (.approval source fork))
    (hpolicies : ∀ source, (db.view i).find (.policy source) = db.rows.find (.policy source)) :
    Sound i db where
  approvals ha := .inl (approvalOf_mono (happrovals _ _) ha)
  policies hp := .inl ⟨_, (policyBy_congr (hpolicies _)).trans hp⟩

theorem sound_approving {sponsor source : Int} (h : Holds i (.approving sponsor source) db) :
    Sound i db := by
  obtain ⟨⟨a, rfl, rfl, hwrites⟩, hlock, hpolicy⟩ := h
  have hview := Database.find_view_singleton hwrites
  constructor
  · intro source fork b hb
    rw [approvalOf_eq_some, hview] at hb
    split at hb
    · rename_i hkey
      cases hb
      cases hkey
      exact .inr ⟨hlock, hpolicy⟩
    · exact .inl (approvalOf_eq_some.mpr hb)
  · intro sponsor source p hp
    have hsame : (db.view i).find (.policy source) = db.rows.find (.policy source) := by
      rw [hview, if_neg (by simp [Write.row, Row.key])]
    exact .inl ⟨p, (policyBy_congr hsame).trans hp⟩

theorem sound_saving {sponsor source : Int} (h : Holds i (.saving sponsor source) db) :
    Sound i db := by
  obtain ⟨⟨p, rfl, rfl, hwrites⟩, -, hsame⟩ := h
  have hview := Database.find_view_singleton hwrites
  constructor
  · intro source fork a ha
    rw [approvalOf_eq_some, hview, if_neg (by simp [Write.row, Row.key])] at ha
    exact .inl (approvalOf_eq_some.mpr ha)
  · intro sponsor source q hq
    left
    by_cases hsource : p.sourceRepositoryID = source
    · subst hsource
      rw [policyBy_eq_some] at hq
      refine ⟨p, policyBy_eq_some.mpr ⟨policyOf_eq_some.mpr ?_, (hsame q hq.1).symm.trans hq.2⟩⟩
      exact (hview _).trans (if_pos rfl)
    · refine ⟨q, (policyBy_congr ?_).trans hq⟩
      rw [hview, if_neg (by simpa [Write.row, Row.key] using hsource)]

theorem sound_dropping (h : Holds i .dropping db) : Sound i db := by
  obtain ⟨source, fork, hwrites⟩ := h
  have hview := Database.find_view_singleton hwrites
  refine .of_deletes (fun source' fork' => ?_) fun source' => ?_
  · rw [hview]
    split
    · exact .inl rfl
    · exact .inr rfl
  · rw [hview, if_neg (by simp [Write.row])]

theorem sound_cleared {source : Int} (h : Cleared i source [] db) : Sound i db := by
  obtain ⟨keys, hwrites, hkeys, -⟩ := h
  have hview : ∀ k, (db.view i).find k = if k ∈ keys then none else db.rows.find k := by
    intro k
    rw [Database.view, hwrites, List.append_nil]
    exact Write.find_deletes db.rows keys k
  refine .of_deletes (fun source' fork' => ?_) fun source' => ?_
  · rw [hview]
    split
    · exact .inl rfl
    · exact .inr rfl
  · rw [hview, if_neg]
    intro hmem
    obtain ⟨fork, hfork⟩ := hkeys _ hmem
    cases hfork

theorem sound_deleting {source : Int} (h : Cleared i source [.delete (.policy source)] db) :
    Sound i db := by
  obtain ⟨keys, hwrites, hkeys, hall⟩ := h
  have hview : ∀ k, (db.view i).find k =
      if .policy source = k then none else if k ∈ keys then none else db.rows.find k := by
    intro k
    rw [Database.find_view_append hwrites, Write.find_deletes]
    rfl
  have happroval : ∀ source' fork, (db.view i).find (.approval source' fork) =
      if .approval source' fork ∈ keys then none else db.rows.find (.approval source' fork) := by
    intro source' fork
    rw [hview, if_neg nofun]
  constructor
  · intro source' fork a ha
    refine .inl (approvalOf_mono ?_ ha)
    rw [happroval]
    split
    · exact .inl rfl
    · exact .inr rfl
  · intro sponsor source' p hp
    by_cases hsource : source = source'
    · subst hsource
      refine .inr ⟨?_, fun fork => Option.eq_none_iff_forall_ne_some.mpr fun a ha => ?_⟩
      · rw [policyOf, hview, if_pos rfl]
      rw [approvalOf_eq_some, happroval] at ha
      split at ha
      · cases ha
      · rename_i hmem
        exact hmem (hall fork a (approvalOf_eq_some.mpr ha))
    · refine .inl ⟨p, (policyBy_congr ?_).trans hp⟩
      rw [hview, if_neg (by simpa using hsource), if_neg]
      intro hmem
      obtain ⟨fork, hfork⟩ := hkeys _ hmem
      cases hfork

theorem Holds.sound {κ : Know} (hκ : κ ≠ .unconnected) (h : Holds i κ db) : Sound i db := by
  have hnil : db.writes i = [] → Sound i db := fun hnil =>
    .of_deletes (fun _ _ => .inr (by rw [Database.view_of_nil hnil]))
      fun _ => by rw [Database.view_of_nil hnil]
  cases κ with
  | unconnected => exact absurd rfl hκ
  | idle => exact hnil h
  | locked sponsor source => exact hnil h.1
  | approving sponsor source => exact sound_approving h
  | saving sponsor source => exact sound_saving h
  | dropping => exact sound_dropping h
  | cleared sponsor source => exact sound_cleared h.1
  | deleting sponsor source => exact sound_deleting h.1

theorem inv_commit (hinv : Inv db) (h : Sound i db) : Inv (db.commit i) := by
  refine ⟨Database.guarded_commit hinv.guarded i, fun source fork a ha => ?_⟩
  have hold : ∃ p, policyBy db.rows a.sponsorInstallationID source = some p := by
    obtain hold | ⟨-, hpolicy⟩ := h.approvals ha
    · exact hinv.belongs source fork a hold
    · exact hpolicy
  obtain ⟨p, hp⟩ := hold
  obtain hkept | ⟨-, hnone⟩ := h.policies hp
  · exact hkept
  · rw [show approvalOf (db.commit i).rows source fork = none from hnone fork] at ha
    cases ha

theorem effect_commit (hinv : Inv db) (h : Sound i db) : Effect i db (db.commit i) where
  writes _ hj := db.writes_rollback_of_ne hj
  locks hj hk := Database.locks_rollback hj hk
  rows hk := Database.find_commit (hinv.guarded i) hk
  approvals ha := h.approvals ha
  sponsor hp hq := by
    obtain ⟨p', hp'⟩ | ⟨hnone, -⟩ := h.policies (policyBy_eq_some.mpr ⟨hp, rfl⟩)
    · rw [policyBy_eq_some] at hp'
      cases Option.some.inj (hp'.1.symm.trans hq)
      exact hp'.2
    · cases hnone.symm.trans hq

/-! ### Statements -/

section Statements

variable {κ : Know} {sponsor source fork : Int} {p : ForkSponsorshipPolicy}
  {w : Write Row.key} (hinv : Inv db)
include hinv

theorem inv_write (h : db.free i w.row = true) : Inv (db.write i w) :=
  ⟨Database.guarded_write hinv.guarded h, hinv.belongs⟩

theorem inv_rollback (i : ℕ) : Inv (db.rollback i) :=
  ⟨Database.guarded_rollback hinv.guarded i, hinv.belongs⟩

theorem write_policy (hidle : db.writes i = []) (hfree : db.free i (.policy p.sourceRepositoryID))
    (hsame : ∀ q, policyOf db.rows p.sourceRepositoryID = some q →
      q.sponsorInstallationID = p.sponsorInstallationID) :
    Inv (db.write i (.put (.policy p))) ∧
      Holds i (.saving p.sponsorInstallationID p.sourceRepositoryID)
        (db.write i (.put (.policy p))) ∧
      Effect i db (db.write i (.put (.policy p))) := by
  refine ⟨inv_write hinv hfree, ⟨⟨p, rfl, rfl, ?_⟩, Function.update_self .., hsame⟩,
    effect_write hfree⟩
  rw [Database.writes_write_self, hidle]
  rfl

theorem write_approval {a : ForkSponsorshipApproval}
    (hκ : Holds i (.locked a.sponsorInstallationID a.sourceRepositoryID) db)
    (hfree : db.free i (.approval a.sourceRepositoryID a.forkRepositoryID)) :
    Inv (db.write i (.put (.approval a))) ∧
      Holds i (.approving a.sponsorInstallationID a.sourceRepositoryID)
        (db.write i (.put (.approval a))) ∧
      Effect i db (db.write i (.put (.approval a))) := by
  obtain ⟨hidle, hlock, hpolicy⟩ := hκ
  refine ⟨inv_write hinv hfree, ⟨⟨a, rfl, rfl, ?_⟩, Database.locks_write_self hlock, hpolicy⟩,
    effect_write hfree⟩
  rw [Database.writes_write_self, hidle]
  rfl

/-- All approvals of a policy that is locked are deleted: they are all approvals of its source. -/
theorem write_deletes (hκ : Holds i (.locked sponsor source) db)
    (hfree : ∀ k ∈ approvalKeys (db.view i) sponsor source, db.free i k = true) :
    Inv (db.writeAll i ((approvalKeys (db.view i) sponsor source).map .delete)) ∧
      Holds i (.cleared sponsor source)
        (db.writeAll i ((approvalKeys (db.view i) sponsor source).map .delete)) ∧
      Effect i db (db.writeAll i ((approvalKeys (db.view i) sponsor source).map .delete)) := by
  obtain ⟨hidle, hlock, p, hp⟩ := hκ
  have hfree' : ∀ w : Write Row.key, w ∈ (approvalKeys (db.view i) sponsor source).map .delete →
      db.free i w.row = true := by
    intro w hw
    obtain ⟨k, hk, rfl⟩ := List.mem_map.mp hw
    exact hfree k hk
  have hrows := db.rows_writeAll i ((approvalKeys (db.view i) sponsor source).map .delete)
  refine ⟨⟨Database.guarded_writeAll hinv.guarded hfree', ?_⟩,
    ⟨⟨approvalKeys (db.view i) sponsor source, ?_, ?_, ?_⟩, Database.locks_writeAll_self hlock, p, ?_⟩, .of_rows hrows
      (fun _ hj => db.writes_writeAll_of_ne _ hj) fun hj hk => Database.locks_writeAll hfree' hj hk⟩
  · rw [hrows]
    exact hinv.belongs
  · rw [Database.writes_writeAll_self, hidle, List.nil_append, List.append_nil]
  · intro k hk
    obtain ⟨fork, -, hfork, -⟩ := mem_approvalKeys.mp hk
    exact ⟨fork, hfork⟩
  · intro fork a ha
    rw [hrows] at ha
    obtain ⟨q, hq⟩ := hinv.belongs source fork a ha
    rw [policyBy_eq_some] at hp hq
    have hpq : p = q := Option.some.inj (hp.1.symm.trans hq.1)
    rw [mem_approvalKeys, Database.view_of_nil hidle]
    exact ⟨fork, a, rfl, ha, by rw [← hq.2, ← hpq, hp.2]⟩
  · rw [hrows]
    exact hp

theorem write_delete (hκ : Holds i (.cleared sponsor source) db) :
    (∃ p, policyBy (db.view i) sponsor source = some p) ∧ db.free i (.policy source) = true ∧
      Inv (db.write i (.delete (.policy source))) ∧
      Holds i (.deleting sponsor source) (db.write i (.delete (.policy source))) ∧
      Effect i db (db.write i (.delete (.policy source))) := by
  obtain ⟨⟨keys, hwrites, hkeys, hall⟩, hlock, p, hp⟩ := hκ
  have hfree : db.free i (.policy source) = true := Database.free_iff.mpr (.inr hlock)
  refine ⟨⟨p, ?_⟩, hfree, inv_write hinv hfree, ⟨⟨keys, ?_, hkeys, hall⟩,
    Database.locks_write_self hlock, p, hp⟩, effect_write hfree⟩
  · have hview : (db.view i).find (.policy source) = db.rows.find (.policy source) := by
      rw [Database.view, hwrites, List.append_nil, Write.find_deletes, if_neg]
      intro hmem
      obtain ⟨fork, hfork⟩ := hkeys _ hmem
      cases hfork
    exact (policyBy_congr hview).trans hp
  · rw [Database.writes_write_self, hwrites, List.append_nil]

theorem execute_sound {c : Call} {now : State.Time} {a : c.Result} (hκ : Holds i κ db)
    (hmay : May κ c) (h : execute i c now db = some (a, db')) :
    Inv db' ∧ Holds i (learn κ c (some a)) db' ∧ Effect i db db' := by
  cases c with
  | connect =>
    cases h
    exact ⟨inv_rollback hinv i, db.writes_rollback_self i, effect_rollback i db⟩
  | getPolicyBySource source =>
    cases h
    exact ⟨hinv, hκ, .refl i db⟩
  | getPolicy sponsor source =>
    cases h
    exact ⟨hinv, hκ, .refl i db⟩
  | getApproval source fork =>
    cases h
    exact ⟨hinv, hκ, .refl i db⟩
  | insertPolicy p =>
    cases hmay
    simp only [execute] at h
    split at h
    · cases h
    · rename_i hfree
      split at h
      · cases h
        exact ⟨hinv, hκ, .refl i db⟩
      · rename_i hnone
        cases h
        rw [Database.view_of_nil hκ] at hnone
        refine write_policy hinv hκ (by simpa using hfree) fun q hq => ?_
        exact absurd (Option.isSome_of_eq_some hq) hnone
  | updatePolicy p =>
    cases hmay
    simp only [execute] at h
    split at h
    · cases h
      exact ⟨hinv, hκ, .refl i db⟩
    · rename_i old hold
      split at h
      · rename_i hfree
        cases h
        rw [Database.view_of_nil hκ, policyBy_eq_some] at hold
        refine write_policy hinv hκ hfree fun q hq => ?_
        cases Option.some.inj (hq.symm.trans hold.1)
        exact hold.2
      · cases h
  | lockPolicy sponsor source =>
    cases hmay
    simp only [execute] at h
    split at h
    · cases h
      exact ⟨hinv, hκ, .refl i db⟩
    · rename_i p hp
      split at h
      · rename_i hfree
        cases h
        rw [Database.view_of_nil hκ] at hp
        exact ⟨⟨Database.guarded_lock hinv.guarded hfree, hinv.belongs⟩,
          ⟨hκ, Function.update_self .., p, hp⟩, effect_lock hfree⟩
      · cases h
  | upsertApproval a =>
    cases hmay
    simp only [execute] at h
    split at h
    · rename_i hfree
      cases h
      exact write_approval hinv hκ hfree
    · cases h
  | deleteApprovals sponsor source =>
    cases hmay
    simp only [execute] at h
    split at h
    · rename_i hfree
      cases h
      exact write_deletes hinv hκ (List.all_eq_true.mp hfree)
    · cases h
  | deletePolicy sponsor source =>
    cases hmay
    obtain ⟨⟨p, hp⟩, hfree, hwrite⟩ := write_delete hinv hκ
    simp only [execute, hp, hfree, if_true] at h
    cases h
    exact hwrite
  | deleteApproval sponsor source fork =>
    cases hmay
    simp only [execute] at h
    split at h
    · cases h
      exact ⟨hinv, hκ, .refl i db⟩
    · split at h
      · rename_i hfree
        cases h
        refine ⟨inv_write hinv hfree, ⟨source, fork, ?_⟩, effect_write hfree⟩
        rw [Database.writes_write_self, hκ]
        rfl
      · cases h
  | commit =>
    cases h
    exact ⟨inv_commit hinv (hκ.sound hmay), db.writes_rollback_self i,
      effect_commit hinv (hκ.sound hmay)⟩
  | rollback =>
    cases h
    exact ⟨inv_rollback hinv i, db.writes_rollback_self i, effect_rollback i db⟩

theorem serve_sound {c : Call} {x : Choice} {a : c.Reply} (hκ : Holds i κ db) (hmay : May κ c)
    (h : serve i c x db = some (a, db')) : Inv db' ∧ Holds i (learn κ c a) db' ∧ Effect i db db' := by
  simp only [serve] at h
  split at h
  · cases h
    cases c with
    | commit =>
      simp only [failed]
      split
      · exact ⟨inv_commit hinv (hκ.sound hmay), db.writes_rollback_self i,
          effect_commit hinv (hκ.sound hmay)⟩
      · exact ⟨inv_rollback hinv i, db.writes_rollback_self i, effect_rollback i db⟩
    | rollback => exact ⟨inv_rollback hinv i, db.writes_rollback_self i, effect_rollback i db⟩
    | _ => exact ⟨hinv, hκ, .refl i db⟩
  · obtain ⟨⟨b, t⟩, hexec, heq⟩ := Option.map_eq_some_iff.mp h
    cases heq
    exact execute_sound hinv hκ hmay hexec

end Statements

/-! ### The operations -/

def outline : Outline machine Know where
  ok _ _ _ _ := True
  inv := Inv
  holds := Holds
  effect := Effect
  may := May
  tells _ _ _ := True
  learn := learn

/-- The calls of an operation before its transaction ends. -/
abbrev Works {α : Type} (κ : Know) (p : P α) : Prop :=
  outline.Follows (fun κ' _ => κ' ≠ .unconnected) κ p

theorem learn_ne_unconnected {κ : Know} (hκ : κ ≠ .unconnected) (c : Call) (a : c.Reply) :
    learn κ c a ≠ .unconnected := by
  unfold learn
  split <;> first | exact hκ | nofun

theorem works_pure {α : Type} {κ : Know} (hκ : κ ≠ .unconnected) (a : α) :
    Works κ (pure a : P α) := Outline.follows_pure hκ

theorem works_idle {α : Type} (a : α) : Works .idle (pure a : P α) :=
  Outline.follows_pure nofun

theorem works_bind {α β : Type} {κ : Know} {p : P α} {f : α → P β} (hp : Works κ p)
    (hf : ∀ κ' a, κ' ≠ .unconnected → Works κ' (f a)) : Works κ (p >>= f) :=
  hp.bind fun κ' a h => hf κ' a h

theorem works_call {κ : Know} {c : Call} (hκ : κ ≠ .unconnected) (h : May κ c) :
    Works κ (call c) :=
  Outline.follows_ask outline c h fun a _ => learn_ne_unconnected hκ c a

theorem works_statement {κ : Know} {c : Call} (within : Bool) (hκ : κ ≠ .unconnected)
    (h : May κ c) : Works κ (statement within c) := by
  refine works_bind (works_call hκ h) fun κ' a hκ' => ?_
  cases a with
  | none => exact works_bind (works_call hκ' trivial) fun _ _ hκ => works_pure hκ _
  | some a =>
    cases within
    · refine works_bind (works_call hκ' hκ') fun κ a hκ => ?_
      cases a <;> exact works_pure hκ _
    · exact works_pure hκ' _

theorem works_transaction {α : Type} {κ : Know} {body : P (Except Error α)} (h : Works κ body) :
    Works κ (transaction body) := by
  refine works_bind h fun κ' a hκ' => ?_
  cases a with
  | error e => exact works_bind (works_call hκ' trivial) fun _ _ hκ => works_pure hκ _
  | ok a =>
    refine works_bind (works_call hκ' hκ') fun κ a hκ => ?_
    cases a <;> exact works_pure hκ _

theorem follows_getForkSponsorshipPolicyBySourceRepositoryID (κ : Know) (source : Int) :
    outline.Follows (fun κ' _ => κ' = κ) κ
      (getForkSponsorshipPolicyBySourceRepositoryID source) :=
  Outline.follows_ask_bind trivial fun _ _ => Outline.follows_pure rfl

theorem works_getForkSponsorshipPolicy {κ : Know} (hκ : κ ≠ .unconnected) (sponsor source : Int) :
    Works κ (getForkSponsorshipPolicy sponsor source) :=
  works_bind (works_call hκ trivial) fun _ _ h => works_pure h _

theorem works_createForkSponsorshipPolicy (within : Bool) (input : PolicyInput) :
    Works .idle (createForkSponsorshipPolicy within input) := by
  unfold createForkSponsorshipPolicy
  split
  · exact works_idle _
  · refine works_bind (works_statement within nofun rfl) fun κ a hκ => ?_
    split
    · exact works_pure hκ _
    · exact works_pure hκ _
    · exact works_getForkSponsorshipPolicy hκ _ _

theorem works_updateForkSponsorshipPolicy (within : Bool) (input : PolicyInput) :
    Works .idle (updateForkSponsorshipPolicy within input) := by
  unfold updateForkSponsorshipPolicy
  split
  · exact works_idle _
  · refine works_bind (works_statement within nofun rfl) fun κ a hκ => ?_
    split
    · exact works_pure hκ _
    · exact works_getForkSponsorshipPolicy hκ _ _
    · refine (follows_getForkSponsorshipPolicyBySourceRepositoryID κ _).bind ?_
      rintro _ existing rfl
      split
      · exact works_pure hκ _
      · split <;> exact works_pure hκ _

theorem works_upsertForkSponsorshipPolicy (within : Bool) (input : PolicyInput) :
    Works .idle (upsertForkSponsorshipPolicy within input) := by
  unfold upsertForkSponsorshipPolicy
  split
  · exact works_idle _
  · refine (follows_getForkSponsorshipPolicyBySourceRepositoryID .idle _).bind ?_
    rintro _ existing rfl
    split
    · split
      · exact works_idle _
      · exact works_updateForkSponsorshipPolicy within input
    · exact works_createForkSponsorshipPolicy within input
    · exact works_idle _

theorem follows_lockForkSponsorshipPolicy (sponsor source : Int) :
    outline.Follows (fun κ a => κ ≠ .unconnected ∧ (a = .ok () → κ = .locked sponsor source))
      .idle (lockForkSponsorshipPolicy sponsor source) := by
  refine Outline.follows_ask_bind rfl fun a _ => ?_
  match a with
  | none => exact Outline.follows_pure ⟨nofun, nofun⟩
  | some false => exact Outline.follows_pure ⟨nofun, nofun⟩
  | some true => exact Outline.follows_pure ⟨nofun, fun _ => rfl⟩

theorem works_deleteForkSponsorshipPolicy (sponsor source : Int) :
    Works .idle (deleteForkSponsorshipPolicy sponsor source) := by
  refine works_transaction ((follows_lockForkSponsorshipPolicy sponsor source).bind ?_)
  rintro κ a ⟨hκ, hlocked⟩
  match a with
  | .error e => exact works_pure hκ _
  | .ok () =>
    cases hlocked rfl
    refine Outline.follows_ask_bind rfl fun a _ => ?_
    match a with
    | none => exact works_pure (show Know.locked sponsor source ≠ .unconnected from nofun) _
    | some () =>
      refine works_bind (works_call nofun rfl) fun κ a hκ => ?_
      cases a <;> exact works_pure hκ _

theorem works_upsertForkSponsorshipApproval (input : ForkSponsorshipApproval) :
    Works .idle (upsertForkSponsorshipApproval input) := by
  unfold upsertForkSponsorshipApproval
  split
  · exact works_idle _
  · refine works_bind (works_transaction ?_) fun κ a hκ => ?_
    · refine (follows_lockForkSponsorshipPolicy _ _).bind ?_
      rintro κ a ⟨hκ, hlocked⟩
      match a with
      | .error e => exact works_pure hκ _
      | .ok () =>
        cases hlocked rfl
        refine works_bind (works_call nofun rfl) fun κ a hκ => ?_
        cases a <;> exact works_pure hκ _
    · split
      · exact works_pure hκ _
      · exact works_bind (works_call hκ trivial) fun _ _ h => works_pure h _

theorem works_deleteForkSponsorshipApproval (within : Bool) (sponsor source fork : Int) :
    Works .idle (deleteForkSponsorshipApproval within sponsor source fork) := by
  refine works_bind (works_statement within nofun rfl) fun κ a hκ => ?_
  split <;> exact works_pure hκ _

theorem follows_operation {α : Type} (within : Bool) {body : P (Except Error α)}
    (h : Works .idle body) :
    outline.Follows (fun _ _ => True) .unconnected (operation within body) := by
  refine Outline.follows_ask_bind trivial fun a _ => ?_
  match a with
  | none => exact Outline.follows_pure trivial
  | some () =>
    cases within
    · exact h.bind fun _ _ _ => Outline.follows_pure trivial
    · exact (works_transaction h).bind fun _ _ _ => Outline.follows_pure trivial

theorem follows_prog (op : Op) : outline.Follows (fun _ _ => True) .unconnected op.prog := by
  cases op with
  | create within input =>
    exact follows_operation within (works_createForkSponsorshipPolicy within input)
  | update within input =>
    exact follows_operation within (works_updateForkSponsorshipPolicy within input)
  | upsert within input =>
    exact follows_operation within (works_upsertForkSponsorshipPolicy within input)
  | delete sponsor source =>
    exact follows_operation false (works_deleteForkSponsorshipPolicy sponsor source)
  | approve input => exact follows_operation false (works_upsertForkSponsorshipApproval input)
  | disapprove within sponsor source fork =>
    exact follows_operation within (works_deleteForkSponsorshipApproval within sponsor source fork)

theorem outline_sound : outline.Sound fun _ => .unconnected where
  serve hinv hκ hmay _ h := ⟨trivial, serve_sound hinv hκ hmay h⟩
  stable hij _ _ heffect hκ := hκ.stable heffect hij
  fresh_holds _ _ := trivial
  restart_inv hinv := ⟨Database.guarded_abort _, hinv.belongs⟩
  follows := follows_prog

/-! ### Runs -/

/-- The database with committed rows and no open transaction. -/
def committed (rows : Rows) : Store := { rows := rows, log := [] }

theorem inv_committed {rows : Rows} (h : Belongs rows) : Inv (committed rows) :=
  ⟨Database.guarded_abort (committed rows), h⟩

/-- A policy that was not there before a statement has no approvals after it. -/
theorem Effect.no_approvals (heffect : Effect i db db') (hbelongs : Belongs db.rows) {source : Int}
    (hnone : policyOf db.rows source = none) (fork : Int) :
    approvalOf db'.rows source fork = none := by
  refine Option.eq_none_iff_forall_ne_some.mpr fun a ha => ?_
  have hpolicy : ∃ p, policyBy db.rows a.sponsorInstallationID source = some p := by
    obtain hold | ⟨-, hpolicy⟩ := heffect.approvals ha
    · exact hbelongs source fork a hold
    · exact hpolicy
  obtain ⟨p, hp⟩ := hpolicy
  cases hnone.symm.trans (policyBy_eq_some.mp hp).1

/-- What a step does to the committed rows is the effect of one statement. -/
theorem effect_of_step {rows : Rows} (hrows : Belongs rows) {cfg cfg' : Config Call.Reply Store}
    (hr : machine.Reachable (committed rows) cfg) {d : Decision Choice Op}
    (h : machine.step cfg d = some cfg') :
    cfg'.state.rows = cfg.state.rows ∨ ∃ i, Effect i cfg.state cfg'.state := by
  obtain ⟨op, -, -, rfl⟩ | ⟨i, x, c, k, a, t, rfl, -, -, -⟩ | ⟨-, rfl⟩ := Machine.step_cases h
  · exact .inl rfl
  · exact .inr ⟨i, outline_sound.effect_of_reaches (inv_committed hrows) hr
      (Machine.meets_true cfg _) h⟩
  · exact .inl rfl

/-- In every committed state each source has at most one policy and every approval belongs to a
policy of its sponsor and source. No step replaces the policy of one sponsor by that of another,
and a policy that a step creates starts with no approvals. -/
theorem approvals_never_outlive_policy {rows : Rows} (hrows : Belongs rows)
    {cfg : Config Call.Reply Store} (hr : machine.Reachable (committed rows) cfg) :
    (∀ p q, .policy p ∈ cfg.state.rows.rows → .policy q ∈ cfg.state.rows.rows →
      p.sourceRepositoryID = q.sourceRepositoryID → p = q) ∧
    (∀ a, .approval a ∈ cfg.state.rows.rows → ∃ p, .policy p ∈ cfg.state.rows.rows ∧
      p.sponsorInstallationID = a.sponsorInstallationID ∧
      p.sourceRepositoryID = a.sourceRepositoryID) ∧
    ∀ d cfg', machine.step cfg d = some cfg' → ∀ q, .policy q ∈ cfg'.state.rows.rows →
      (∃ p, .policy p ∈ cfg.state.rows.rows ∧ p.sourceRepositoryID = q.sourceRepositoryID ∧
        p.sponsorInstallationID = q.sponsorInstallationID) ∨
      ∀ a, .approval a ∈ cfg'.state.rows.rows → a.sourceRepositoryID ≠ q.sourceRepositoryID := by
  have hbelongs : Belongs cfg.state.rows :=
    (outline_sound.inv_of_reaches (inv_committed hrows) hr).belongs
  refine ⟨fun p q hp hq hsource => ?_, fun a ha => ?_, fun d cfg' h q hq => ?_⟩
  · have hp' := policyOf_of_mem hp
    rw [hsource, policyOf_of_mem hq] at hp'
    exact (Option.some.inj hp').symm
  · obtain ⟨p, hp⟩ := hbelongs _ _ a (approvalOf_of_mem ha)
    obtain ⟨hp, hsponsor⟩ := policyBy_eq_some.mp hp
    obtain ⟨hmem, hsource⟩ := mem_of_policyOf hp
    exact ⟨p, hmem, hsponsor, hsource⟩
  · obtain hsame | ⟨i, heffect⟩ := effect_of_step hrows hr h
    · exact .inl ⟨q, hsame ▸ hq, rfl, rfl⟩
    · cases hp : policyOf cfg.state.rows q.sourceRepositoryID with
      | none =>
        refine .inr fun a ha hsource => ?_
        have hnone := heffect.no_approvals hbelongs hp a.forkRepositoryID
        rw [← hsource, approvalOf_of_mem ha] at hnone
        cases hnone
      | some p =>
        obtain ⟨hmem, hsource⟩ := mem_of_policyOf hp
        exact .inl ⟨p, hmem, hsource, (heffect.sponsor hp (policyOf_of_mem hq)).symm⟩

def sponsored : Rows :=
  (Table.empty.insert (.policy ⟨1, 9, "o/r", .approvalRequired, true, 2, 0, 0⟩)).insert
    (.approval ⟨1, 9, 5, "f/r", 7, "f", 0, 0⟩)

theorem belongs_sponsored : Belongs sponsored := by
  intro source fork a ha
  rw [approvalOf_eq_some] at ha
  have hkey : Row.key (.approval a) = .approval source fork := Table.key_of_find ha
  have hmem : Row.approval a ∈ [.policy ⟨1, 9, "o/r", .approvalRequired, true, 2, 0, 0⟩,
      .approval ⟨1, 9, 5, "f/r", 7, "f", 0, 0⟩] := Table.mem_of_find ha
  rw [List.mem_cons, List.mem_singleton] at hmem
  obtain h | h := hmem
  · cases h
  · cases h
    cases hkey
    exact ⟨⟨1, 9, "o/r", .approvalRequired, true, 2, 0, 0⟩, by decide⟩

/-- The policy is deleted, and another sponsor creates theirs. -/
theorem approvals_never_outlive_policy_recreated :
    ∃ cfg cfg', machine.Reachable (committed sponsored) cfg ∧
      machine.step cfg (.run 1 {}) = some cfg' ∧ policyOf cfg.state.rows 9 = none ∧
      (∃ q, .policy q ∈ cfg'.state.rows.rows ∧ q.sourceRepositoryID = 9 ∧
        q.sponsorInstallationID = 2) ∧
      ∀ a, .approval a ∈ cfg'.state.rows.rows → a.sourceRepositoryID ≠ 9 := by
  obtain ⟨cfg, cfg', hr, hstep, hpolicies⟩ := Machine.exists_step_of_exec (M := machine)
    (s := committed sponsored)
    [.start (.delete 1 9), .run 0 {}, .run 0 {}, .run 0 {}, .run 0 {}, .run 0 {},
      .start (.create false ⟨2, 9, "o/r", "write_permission", true, 1⟩), .run 1 {}, .run 1 {}]
    (.run 1 {})
    (fun cfg cfg' => (policyOf cfg.state.rows 9).isNone &&
      ((policyOf cfg'.state.rows 9).map (·.sponsorInstallationID) = some 2)) (by decide +kernel)
  rw [Bool.and_eq_true, Option.isNone_iff_eq_none, decide_eq_true_eq,
    Option.map_eq_some_iff] at hpolicies
  obtain ⟨hnone, q, hq, hsponsor⟩ := hpolicies
  obtain ⟨hmem, hsource⟩ := mem_of_policyOf hq
  obtain ⟨-, -, hcreated⟩ := approvals_never_outlive_policy belongs_sponsored hr
  refine ⟨cfg, cfg', hr, hstep, hnone, ⟨q, hmem, hsource, hsponsor⟩, ?_⟩
  obtain ⟨p, hp, hpsource, -⟩ | hnew := hcreated _ cfg' hstep q hmem
  · rw [← hsource, ← hpsource, policyOf_of_mem hp] at hnone
    cases hnone
  · rw [hsource] at hnew
    exact hnew

end CiRunner.Sponsorship
