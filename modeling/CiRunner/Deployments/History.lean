import CiRunner.Deployments.Store

/-! The history of deployments. Whatever transactions are made, with whatever
arguments and in whatever order, the revisions of a deployment are numbered from
one up to the number in its row without a gap, the last one agrees with the row, and
a revision that has a successor is never written again, nor are its events. Only an
empty title may still be filled in. -/

namespace CiRunner.Deployments

open Text Tables
open CiRunner.State (Time)

/-- The revision shows the state of its deployment. -/
structure Mirrors (d : Deployment) (r : Revision) : Prop where
  status : r.status = d.status
  endpoint : r.endpoint = d.endpoint
  failure : r.failure = d.failure
  expiresAt : r.expiresAt = d.expiresAt

/-- The same revision, but for a title that may have been filled in. -/
def Revision.FilledTo (r r' : Revision) : Prop :=
  r' = r ∨ (r.pullRequestTitle = "" ∧ r' = { r with pullRequestTitle := r'.pullRequestTitle })

def Store.eventsOf (st : Store) (id : String) (number : Nat) : List DeploymentEvent :=
  st.events.filter fun e => e.deploymentID == id && e.revisionNumber == number

structure Coherent (st : Store) : Prop where
  /-- The revisions are numbered from one to the number of the deployment. -/
  numbered : ∀ {id d}, st.find id = some d →
    1 ≤ d.revisionNumber ∧ ∀ n, (∃ r, st.revision id n = some r) ↔ 1 ≤ n ∧ n ≤ d.revisionNumber
  mirrored : ∀ {id d r}, st.find id = some d → st.revision id d.revisionNumber = some r →
    Mirrors d r
  /-- Nothing is left of a deployment that is not there. -/
  owned : ∀ {id}, st.find id = none →
    (∀ n, st.revision id n = none) ∧ ∀ e ∈ st.events, e.deploymentID ≠ id

/-- A revision and its events are as they were. -/
def Store.Keeps (st st' : Store) (id : String) (n : Nat) : Prop :=
  (∀ r, st.revision id n = some r → ∃ r', st'.revision id n = some r' ∧ r.FilledTo r') ∧
    st'.eventsOf id n = st.eventsOf id n

/-- The revisions with a successor are kept. -/
def Store.KeepsHistory (st st' : Store) : Prop :=
  ∀ id n r, st.revision id (n + 1) = some r → st.Keeps st' id n

theorem Store.KeepsHistory.refl (st : Store) : st.KeepsHistory st := by
  intro id n _ _
  exact ⟨fun r hr => ⟨r, hr, .inl rfl⟩, rfl⟩

theorem coherent_empty : Coherent Store.empty where
  numbered h := by cases h
  mirrored h := by cases h
  owned _ := ⟨fun _ => rfl, by simp [Store.empty]⟩

/-! ### The kinds of change -/

section Changes

variable {st st' : Store} {id : String} {d d' : Deployment} {r r' : Revision}

theorem Coherent.lt_of_successor (h : Coherent st) (hd : st.find id = some d) {n : Nat}
    (hn : st.revision id (n + 1) = some r) : n < d.revisionNumber :=
  Nat.lt_of_succ_le (((h.numbered hd).2 (n + 1)).mp ⟨r, hn⟩).2

theorem Coherent.rewrite (h : Coherent st) (hd : st.find id = some d)
    (hr : st.revision id d.revisionNumber = some r) (hnumber : d'.revisionNumber = d.revisionNumber)
    (hm : Mirrors d' r') (hfind : ∀ k, st'.find k = if k = id then some d' else st.find k)
    (hrev : ∀ k n, st'.revision k n =
      if k = id ∧ n = d.revisionNumber then some r' else st.revision k n)
    (hevents : ∀ e ∈ st'.events, ∃ o, st.find e.deploymentID = some o) : Coherent st' where
  numbered := by
    intro k c hc
    rw [hfind] at hc
    split at hc
    · rename_i hk
      subst hk
      cases hc
      rw [hnumber]
      refine ⟨(h.numbered hd).1, fun n => ?_⟩
      rw [hrev, ← (h.numbered hd).2 n]
      by_cases hn : n = d.revisionNumber
      · subst hn
        simp [hr]
      · simp [hn]
    · rename_i hk
      simpa [hrev, hk] using h.numbered hc
  mirrored := by
    intro k c s hc hs
    rw [hfind] at hc
    rw [hrev] at hs
    split at hc
    · rename_i hk
      cases hc
      rw [if_pos ⟨hk, hnumber⟩] at hs
      cases hs
      exact hm
    · rename_i hk
      rw [if_neg fun hkn => hk hkn.1] at hs
      exact h.mirrored hc hs
  owned := by
    intro k hk
    rw [hfind] at hk
    split at hk
    · cases hk
    · rename_i hne
      refine ⟨fun n => ?_, fun e he heq => ?_⟩
      · rw [hrev, if_neg fun hkn => hne hkn.1]
        exact (h.owned hk).1 n
      · obtain ⟨o, ho⟩ := hevents e he
        rw [heq, hk] at ho
        cases ho

theorem Coherent.keeps_rewrite (h : Coherent st) (hd : st.find id = some d)
    (hrev : ∀ k n, st'.revision k n =
      if k = id ∧ n = d.revisionNumber then some r' else st.revision k n)
    (hevents : ∀ k n, ¬(k = id ∧ n = d.revisionNumber) →
      st'.eventsOf k n = st.eventsOf k n) : st.KeepsHistory st' := by
  intro k n s hs
  have hne : ¬(k = id ∧ n = d.revisionNumber) := by
    rintro ⟨rfl, rfl⟩
    have := h.lt_of_successor hd hs
    omega
  refine ⟨fun c hc => ⟨c, ?_, .inl rfl⟩, hevents k n hne⟩
  rw [hrev, if_neg hne]
  exact hc

/-- A revision is added: the first one of a new deployment, or the next one. -/
theorem Coherent.add (h : Coherent st) {last : Nat}
    (hlast : (∃ d, st.find id = some d ∧ d.revisionNumber = last) ∨ (st.find id = none ∧ last = 0))
    (hnumber : d'.revisionNumber = last + 1) (hm : Mirrors d' r')
    (hfind : ∀ k, st'.find k = if k = id then some d' else st.find k)
    (hrev : ∀ k n, st'.revision k n =
      if k = id ∧ n = last + 1 then some r' else st.revision k n)
    (hevents : st'.events = st.events) : Coherent st' where
  numbered := by
    intro k c hc
    rw [hfind] at hc
    split at hc
    · rename_i hk
      subst hk
      cases hc
      have hbefore : ∀ n, (∃ r, st.revision k n = some r) ↔ 1 ≤ n ∧ n ≤ last := by
        intro n
        rcases hlast with ⟨d, hd, rfl⟩ | ⟨hnone, rfl⟩
        · exact (h.numbered hd).2 n
        · simp only [(h.owned hnone).1 n]
          constructor
          · rintro ⟨r, hr⟩
            cases hr
          · intro hn
            omega
      refine ⟨by omega, fun n => ?_⟩
      rw [hrev]
      by_cases hn : n = last + 1
      · subst hn
        simp [hnumber]
      · simp only [hn, and_false, if_false, hbefore, hnumber]
        omega
    · rename_i hk
      simpa [hrev, hk] using h.numbered hc
  mirrored := by
    intro k c s hc hs
    rw [hfind] at hc
    rw [hrev] at hs
    split at hc
    · rename_i hk
      cases hc
      rw [if_pos ⟨hk, hnumber⟩] at hs
      cases hs
      exact hm
    · rename_i hk
      rw [if_neg fun hkn => hk hkn.1] at hs
      exact h.mirrored hc hs
  owned := by
    intro k hk
    rw [hfind] at hk
    split at hk
    · cases hk
    · rename_i hne
      refine ⟨fun n => ?_, ?_⟩
      · rw [hrev, if_neg fun hkn => hne hkn.1]
        exact (h.owned hk).1 n
      · rw [hevents]
        exact (h.owned hk).2

theorem Store.keepsHistory_add {last : Nat} (hnone : st.revision id (last + 1) = none)
    (hrev : ∀ k n, st'.revision k n =
      if k = id ∧ n = last + 1 then some r' else st.revision k n)
    (hevents : st'.events = st.events) : st.KeepsHistory st' := by
  intro k n s _
  refine ⟨fun c hc => ⟨c, ?_, .inl rfl⟩, by rw [eventsOf, hevents, eventsOf]⟩
  rw [hrev, if_neg]
  · exact hc
  · rintro ⟨rfl, rfl⟩
    rw [hnone] at hc
    cases hc

end Changes

/-! ### The transactions -/

section Transactions

variable {st st' : Store} {d : Deployment} {now : Time}

theorem mirrors_revisionRecordFromDeployment (d : Deployment) (created : Time) :
    Mirrors d (revisionRecordFromDeployment d created) := ⟨rfl, rfl, rfl, rfl⟩

theorem history_create (h : Coherent st) (hc : st.createDeployment d now = .ok st') :
    Coherent st' ∧ st.KeepsHistory st' := by
  obtain ⟨d', hn, hnone, hrnone, rfl⟩ := Store.createDeployment_ok hc
  have hnumber : d'.revisionNumber = 1 := by
    obtain ⟨_, _, _, rfl⟩ := normalizeDeployment_ok hn
    rfl
  generalize hrec : newDeploymentRecord d' now = record
  have hid : record.id = d'.id := by rw [← hrec]; rfl
  have hrecnumber : record.revisionNumber = 0 + 1 := by rw [← hrec]; exact hnumber
  have hrev : ∀ k n, (st.revisions.insert (revisionRecordFromDeployment record
      record.createdAt)).find (k, n) = if k = d'.id ∧ n = 0 + 1 then
        some (revisionRecordFromDeployment record record.createdAt) else st.revision k n := by
    intro k n
    have hkey : (revisionRecordFromDeployment record record.createdAt).key = (d'.id, 1) := by
      simp [Revision.key, revisionRecordFromDeployment, hid, hrecnumber]
    rw [Table.find_insert, hkey]
    by_cases hkn : k = d'.id ∧ n = 0 + 1
    · obtain ⟨rfl, rfl⟩ := hkn
      rw [Store.revision] at hrnone
      simp [hrnone]
    · rw [if_neg fun e => hkn (by cases e; exact ⟨rfl, rfl⟩), if_neg hkn]
      rfl
  refine ⟨h.add (.inr ⟨hnone, rfl⟩) hrecnumber (mirrors_revisionRecordFromDeployment _ _) ?_ hrev
    rfl, Store.keepsHistory_add hrnone hrev rfl⟩
  intro k
  simp only [Store.find] at hnone ⊢
  rw [Table.find_insert, hid]
  by_cases hk : k = d'.id
  · subst hk
    simp [hnone]
  · rw [if_neg (Ne.symm hk), if_neg hk]

theorem mirrors_current (r : Revision) (d : Deployment) : Mirrors d (r.current d) :=
  ⟨rfl, rfl, rfl, rfl⟩

theorem Coherent.max_revisionNumber (h : Coherent st) {id : String} (hd : st.find id = some d) :
    max d.revisionNumber 1 = d.revisionNumber :=
  Nat.max_eq_left (h.numbered hd).1

theorem Store.id_of_find {id : String} (hd : st.find id = some d) : d.id = id :=
  Table.key_of_find hd

theorem Store.key_of_revision {id : String} {n : Nat} {r : Revision}
    (hr : st.revision id n = some r) : r.deploymentID = id ∧ r.number = n := by
  have := Table.key_of_find hr
  simpa [Revision.key] using this

theorem Store.revision_put {id : String} {n : Nat} {r : Revision}
    (hr : st.revision id n = some r) (r' : Revision) (hkey : r'.key = r.key) (k : String)
    (m : Nat) :
    (st.revisions.put r').find (k, m) =
      if k = id ∧ m = n then some r' else st.revision k m := by
  have hrid : r'.key = (id, n) := hkey.trans (Table.key_of_find hr)
  rw [Table.find_put, hrid]
  by_cases hkm : k = id ∧ m = n
  · obtain ⟨rfl, rfl⟩ := hkm
    rw [Store.revision] at hr
    simp [hr]
  · rw [if_neg fun e => hkm (by cases e; exact ⟨rfl, rfl⟩), if_neg hkm]
    rfl

theorem Store.find_put {id : String} {d d' : Deployment} (hd : st.find id = some d)
    (hid : d'.id = id) (k : String) :
    (st.deployments.put d').find k = if k = id then some d' else st.find k := by
  rw [Table.find_put, hid]
  by_cases hk : k = id
  · subst hk
    rw [Store.find] at hd
    simp [hd]
  · rw [if_neg (Ne.symm hk), if_neg hk]
    rfl

theorem history_update (h : Coherent st) (hu : st.updateDeployment d now = .ok st') :
    Coherent st' ∧ st.KeepsHistory st' := by
  obtain ⟨d', row, r, -, hf, -, hr, rfl⟩ := Store.updateDeployment_ok hu
  have hid : row.id = d'.id := Store.id_of_find hf
  rw [hid, h.max_revisionNumber hf] at hr
  generalize hsaved : row.updated d' now = saved
  have hrev := Store.revision_put hr (r.current saved) rfl
  refine ⟨h.rewrite hf hr (by rw [← hsaved]; rfl) (mirrors_current r saved)
    (Store.find_put hf (by rw [← hsaved]; exact hid)) hrev ?_,
    h.keeps_rewrite hf hrev fun _ _ _ => rfl⟩
  intro e he
  rcases ho : st.find e.deploymentID with _ | o
  · exact absurd rfl ((h.owned ho).2 e he)
  · exact ⟨o, rfl⟩

theorem history_retry {expiresAt : Time} (h : Coherent st)
    (hr : st.retryDeployment d expiresAt now = .ok st') : Coherent st' ∧ st.KeepsHistory st' := by
  obtain ⟨-, -, row, expiresAt', hf, -, -, hnone, rfl⟩ := Store.retryDeployment_ok hr
  have hid : row.id = d.id := Store.id_of_find hf
  rw [hid] at hnone
  generalize hsaved : row.retried d expiresAt' now = saved
  have hsid : saved.id = d.id := by rw [← hsaved]; exact hid
  have hsnumber : saved.revisionNumber = row.revisionNumber + 1 := by rw [← hsaved]; rfl
  have hrev : ∀ k n, (st.revisions.insert (retryRevision saved now)).find (k, n) =
      if k = d.id ∧ n = row.revisionNumber + 1 then some (retryRevision saved now)
      else st.revision k n := by
    intro k n
    have hkey : (retryRevision saved now).key = (d.id, row.revisionNumber + 1) := by
      simp [Revision.key, retryRevision, revisionRecordFromDeployment, hsid, hsnumber]
    rw [Table.find_insert, hkey]
    by_cases hkn : k = d.id ∧ n = row.revisionNumber + 1
    · obtain ⟨rfl, rfl⟩ := hkn
      rw [Store.revision] at hnone
      simp [hnone]
    · rw [if_neg fun e => hkn (by cases e; exact ⟨rfl, rfl⟩), if_neg hkn]
      rfl
  have hm : Mirrors saved (retryRevision saved now) := by
    refine ⟨rfl, ?_, rfl, rfl⟩
    rw [← hsaved]
    rfl
  exact ⟨h.add (.inl ⟨row, hf, rfl⟩) hsnumber hm (Store.find_put hf hsid) hrev rfl,
    Store.keepsHistory_add hnone hrev rfl⟩

theorem history_append {e : DeploymentEvent} (h : Coherent st)
    (ha : st.appendDeploymentEvent e now = .ok st') : Coherent st' ∧ st.KeepsHistory st' := by
  obtain ⟨e', owner, r, b, kept, hf, hnumber, hr, hevict, rfl⟩ :=
    Store.appendDeploymentEvent_ok ha
  have hm := h.mirrored hf hr
  generalize hr' : { r with
    eventCount := b.count + 1
    eventBytes := b.bytes + e'.message.length
    eventBudgetInitialized := true } = r'
  have hrev := Store.revision_put hr r' (by rw [← hr']; rfl)
  constructor
  · refine h.rewrite hf hr rfl (by rw [← hr']; exact ⟨hm.1, hm.2, hm.3, hm.4⟩) ?_ hrev
      ?_
    · intro k
      split
      · rename_i hk
        rw [hk]
        exact hf
      · rfl
    · intro o ho
      rcases List.mem_append.mp ho with ho | ho
      · have hmem : o ∈ st.events := (evictEvents_sublist hevict).subset ho
        rcases hfo : st.find o.deploymentID with _ | d
        · exact absurd rfl ((h.owned hfo).2 o hmem)
        · exact ⟨d, rfl⟩
      · cases List.mem_singleton.mp ho
        exact ⟨owner, hf⟩
  · refine h.keeps_rewrite hf hrev ?_
    intro k n hkn
    have hout : (e'.deploymentID == k && e'.revisionNumber == n) = false := by
      by_contra hc
      simp only [Bool.not_eq_false, Bool.and_eq_true, beq_iff_eq] at hc
      exact hkn ⟨hc.1.symm, by rw [← hc.2, hnumber]⟩
    simp only [Store.eventsOf, List.filter_append]
    rw [evictEvents_filter ?_ hevict, List.filter_cons_of_neg (by simp [hout]), List.filter_nil,
      List.append_nil]
    intro o ho
    by_contra hc
    simp only [Bool.not_eq_false, Bool.and_eq_true, beq_iff_eq] at ho hc
    exact hkn ⟨by rw [← hc.1, ho.1], by rw [← hc.2, ho.2]⟩

theorem Revision.filledTo_fillTitle (id ref title : String) (r : Revision) :
    r.FilledTo (r.fillTitle id ref title) := by
  by_cases hr : r.pullRequestTitle = ""
  · exact .inr ⟨hr, rfl⟩
  · left
    simp [fillTitle, filledTitle, hr]

theorem history_fill {id ref title : String} (h : Coherent st)
    (hf : st.fillDeploymentPullRequestTitle id ref title = .ok st') :
    Coherent st' ∧ st.KeepsHistory st' := by
  simp only [Store.fillDeploymentPullRequestTitle] at hf
  split at hf
  · cases hf
  · cases hf
    generalize trimSpace id = id, trimSpace ref = ref, trimSpace title = title
    have hfind : ∀ k, (st.deployments.mapRows (Deployment.fillTitle id ref title)
        fun _ => rfl).find k = (st.find k).map (Deployment.fillTitle id ref title) :=
      fun k => Table.find_mapRows _ _ _ k
    have hrev : ∀ k n, (st.revisions.mapRows (Revision.fillTitle id ref title)
        fun _ => rfl).find (k, n) = (st.revision k n).map (Revision.fillTitle id ref title) :=
      fun k n => Table.find_mapRows _ _ _ (k, n)
    constructor
    · refine ⟨fun {k c} hc => ?_, fun {k c s} hc hs => ?_, fun {k} hk => ?_⟩
      · simp only [Store.find, hfind, Option.map_eq_some_iff] at hc
        obtain ⟨o, ho, rfl⟩ := hc
        refine ⟨(h.numbered ho).1, fun n => ?_⟩
        rw [show (o.fillTitle id ref title).revisionNumber = o.revisionNumber from rfl,
          ← (h.numbered ho).2 n]
        simp only [Store.revision, hrev]
        cases st.revisions.find (k, n) <;> simp
      · simp only [Store.find, hfind, Option.map_eq_some_iff] at hc
        obtain ⟨o, ho, rfl⟩ := hc
        simp only [Store.revision, hrev, Option.map_eq_some_iff] at hs
        obtain ⟨r, hr, rfl⟩ := hs
        have hm := h.mirrored ho hr
        exact ⟨hm.1, hm.2, hm.3, hm.4⟩
      · simp only [Store.find, hfind, Option.map_eq_none_iff] at hk
        refine ⟨fun n => (hrev k n).trans ?_, (h.owned hk).2⟩
        rw [(h.owned hk).1 n]
        rfl
    · intro k n s _
      refine ⟨fun r hr => ⟨_, (hrev k n).trans ?_, Revision.filledTo_fillTitle id ref title r⟩, rfl⟩
      rw [hr]
      rfl

/-- Every deployment is gone, or is as it was with its revisions and events. -/
def Store.Drops (st st' : Store) : Prop :=
  ∀ k, st'.find k = none ∨ (st'.find k = st.find k ∧ ∀ n, st'.revision k n = st.revision k n ∧
    st'.eventsOf k n = st.eventsOf k n)

theorem Store.Drops.refl (st : Store) : st.Drops st := fun _ => .inr ⟨rfl, fun _ => ⟨rfl, rfl⟩⟩

theorem Store.Drops.trans {st'' : Store} (h : st.Drops st') (h' : st'.Drops st'') :
    st.Drops st'' := by
  intro k
  rcases h' k with hnone | ⟨hfind', hrest'⟩
  · exact .inl hnone
  · rcases h k with hnone | ⟨hfind, hrest⟩
    · exact .inl (hfind'.trans hnone)
    · exact .inr ⟨hfind'.trans hfind, fun n =>
        ⟨(hrest' n).1.trans (hrest n).1, (hrest' n).2.trans (hrest n).2⟩⟩

theorem Store.Drops.keeps (h : st.Drops st') (k : String) (n : Nat) :
    st'.find k = none ∨ st.Keeps st' k n := by
  rcases h k with hnone | ⟨-, hrest⟩
  · exact .inl hnone
  · exact .inr ⟨fun r hr => ⟨r, (hrest n).1.trans hr, .inl rfl⟩, (hrest n).2⟩

/-- Pruning takes a deployment with all its revisions and events, and leaves the others alone. -/
theorem history_pruneDeployment (before : Time) (record : Deployment) (h : Coherent st) :
    Coherent (st.pruneDeployment before record) ∧
      st.Drops (st.pruneDeployment before record) := by
  obtain he | ⟨row, -, -, -, he⟩ := st.pruneDeployment_cases before record
  · rw [he]
    exact ⟨h, .refl st⟩
  · rw [he]
    generalize record.id = id
    have hfind : ∀ k, (st.deployments.remove fun d => d.id == id).find k =
        if k = id then none else st.find k := by
      intro k
      rw [Table.find_remove]
      rcases hk : st.deployments.find k with _ | d
      · simp [Store.find, hk]
      · have : d.id = k := Table.key_of_find hk
        by_cases hki : k = id <;> simp [Option.filter, this, hki, Store.find, hk]
    have hrev : ∀ k n, (st.revisions.remove fun r => r.deploymentID == id).find (k, n) =
        if k = id then none else st.revision k n := by
      intro k n
      rw [Table.find_remove]
      rcases hk : st.revisions.find (k, n) with _ | r
      · simp [Store.revision, hk]
      · have : r.deploymentID = k := (Store.key_of_revision hk).1
        by_cases hki : k = id <;> simp [Option.filter, this, hki, Store.revision, hk]
    constructor
    · refine ⟨fun {k c} hc => ?_, fun {k c s} hc hs => ?_, fun {k} hk => ?_⟩
      · simp only [Store.find, hfind] at hc
        split at hc
        · cases hc
        · rename_i hne
          simpa [Store.revision, hrev, hne] using h.numbered hc
      · simp only [Store.find, hfind] at hc
        split at hc
        · cases hc
        · rename_i hne
          simp only [Store.revision, hrev, hne, if_false] at hs
          exact h.mirrored hc hs
      · simp only [Store.find, hfind] at hk
        simp only [Store.revision, hrev]
        split at hk
        · rename_i hki
          simp [hki]
        · rename_i hne
          simp only [hne, if_false]
          exact ⟨(h.owned hk).1, fun e he => (h.owned hk).2 e (List.mem_filter.mp he).1⟩
    · intro k
      by_cases hki : k = id
      · exact .inl (by simp [Store.find, hfind, hki])
      · refine .inr ⟨by simp [Store.find, hfind, hki], fun n => ⟨?_, ?_⟩⟩
        · simp [Store.revision, hrev, hki]
        · rw [Store.eventsOf, List.filter_filter, Store.eventsOf]
          apply List.filter_congr
          intro e _
          by_cases hek : e.deploymentID = k <;> simp [hek, hki]

theorem history_prune (before : Time) {records : List Deployment} {st : Store} (h : Coherent st) :
    Coherent (st.pruneDeployments records before) ∧
      st.Drops (st.pruneDeployments records before) := by
  induction records generalizing st with
  | nil => exact ⟨h, .refl st⟩
  | cons record records ih =>
    obtain ⟨hc, hd⟩ := history_pruneDeployment before record h
    obtain ⟨hc', hd'⟩ := ih hc
    exact ⟨hc', hd.trans hd'⟩

end Transactions

/-! ### Histories -/

/-- The transactions on deployments. What is pruned was read before, by another statement. -/
inductive Transaction where
  | create (d : Deployment)
  | createWithScopeLimit (d : Deployment) (maxConcurrent : Nat)
  | update (d : Deployment)
  | retry (d : Deployment) (expiresAt : Time)
  | retryWithScopeLimit (d : Deployment) (expiresAt : Time) (maxConcurrent : Nat)
  | fillTitle (id ref title : String)
  | appendEvent (e : DeploymentEvent)
  | prune (records : List Deployment) (before : Time)

def Transaction.apply (st : Store) (now : Time) : Transaction → Except StoreError Store
  | .create d => st.createDeployment d now
  | .createWithScopeLimit d maxConcurrent => st.createDeploymentWithScopeLimit d maxConcurrent now
  | .update d => st.updateDeployment d now
  | .retry d expiresAt => st.retryDeployment d expiresAt now
  | .retryWithScopeLimit d expiresAt maxConcurrent =>
    st.retryDeploymentWithScopeLimit d expiresAt maxConcurrent now
  | .fillTitle id ref title => st.fillDeploymentPullRequestTitle id ref title
  | .appendEvent e => st.appendDeploymentEvent e now
  | .prune records before => .ok (st.pruneDeployments records before)

/-- A transaction at the given time; one that fails changes nothing. -/
def Store.commit (st : Store) (now : Time) (t : Transaction) : Store :=
  match t.apply st now with
  | .error _ => st
  | .ok st' => st'

/-- One transaction after the other. -/
def Store.run (st : Store) (ts : List (Time × Transaction)) : Store :=
  ts.foldl (fun st t => st.commit t.1 t.2) st

theorem coherent_apply {st st' : Store} {now : Time} {t : Transaction} (h : Coherent st)
    (ht : t.apply st now = .ok st') : Coherent st' ∧
      ((∃ records before, t = .prune records before) ∧ st.Drops st' ∨ st.KeepsHistory st') := by
  cases t with
  | create d => exact (history_create h ht).imp_right .inr
  | createWithScopeLimit d maxConcurrent =>
    simp only [Transaction.apply, Store.createDeploymentWithScopeLimit] at ht
    split at ht
    · cases ht
    · exact (history_create h ht).imp_right .inr
  | update d => exact (history_update h ht).imp_right .inr
  | retry d expiresAt => exact (history_retry h ht).imp_right .inr
  | retryWithScopeLimit d expiresAt maxConcurrent =>
    simp only [Transaction.apply, Store.retryDeploymentWithScopeLimit] at ht
    split at ht
    · cases ht
    · exact (history_retry h ht).imp_right .inr
  | fillTitle id ref title => exact (history_fill h ht).imp_right .inr
  | appendEvent e => exact (history_append h ht).imp_right .inr
  | prune records before =>
    cases ht
    obtain ⟨hc, hd⟩ := history_prune before h
    exact ⟨hc, .inl ⟨⟨records, before, rfl⟩, hd⟩⟩

theorem coherent_commit {st : Store} (now : Time) (t : Transaction) (h : Coherent st) :
    Coherent (st.commit now t) ∧ ((∃ records before, t = .prune records before) ∧
      st.Drops (st.commit now t) ∨ st.KeepsHistory (st.commit now t)) := by
  unfold Store.commit
  split
  · exact ⟨h, .inr (.refl st)⟩
  · rename_i st' ht
    exact coherent_apply h ht

theorem coherent_run {st : Store} (ts : List (Time × Transaction)) (h : Coherent st) :
    Coherent (st.run ts) := by
  induction ts generalizing st with
  | nil => exact h
  | cons t ts ih => exact ih (coherent_commit t.1 t.2 h).1

def Store.revisionNumbers (st : Store) (id : String) : List Nat :=
  (st.revisions.rows.filter fun r => r.deploymentID == id).map Revision.number

theorem Store.mem_revisionNumbers {st : Store} {id : String} {n : Nat} :
    n ∈ st.revisionNumbers id ↔ ∃ r, st.revision id n = some r := by
  simp only [revisionNumbers, List.mem_map, List.mem_filter, beq_iff_eq]
  constructor
  · rintro ⟨r, ⟨hmem, rfl⟩, rfl⟩
    exact ⟨r, Table.find_of_mem hmem⟩
  · rintro ⟨r, hr⟩
    exact ⟨r, ⟨Table.mem_of_find hr, (key_of_revision hr).1⟩, (key_of_revision hr).2⟩

theorem Store.nodup_revisionNumbers (st : Store) (id : String) : (st.revisionNumbers id).Nodup := by
  have hkeys : ((st.revisions.rows.filter fun r => r.deploymentID == id).map Revision.key).Nodup :=
    st.revisions.nodup.sublist (List.filter_sublist.map _)
  refine List.Nodup.of_map (fun n => (id, n)) ?_
  rw [revisionNumbers, List.map_map]
  convert hkeys using 1
  apply List.map_congr_left
  intro r hr
  have : r.deploymentID = id := by simpa using (List.mem_filter.mp hr).2
  simp [Revision.key, this]

/-- In every store that transactions lead to, the revisions of a deployment are numbered from one
to its number, each once, and the last one shows its state, and nothing is left of a deployment
that is not there; and no transaction changes a revision that has a successor, or its events,
unless it prunes the deployment. -/
theorem revisions_coherent (ts : List (Time × Transaction)) (id : String) :
    (∀ d, (Store.empty.run ts).find id = some d →
      ((Store.empty.run ts).revisionNumbers id).Perm (List.range' 1 d.revisionNumber) ∧
      ∃ r, (Store.empty.run ts).revision id d.revisionNumber = some r ∧ r.status = d.status ∧
        r.endpoint = d.endpoint ∧ r.failure = d.failure ∧ r.expiresAt = d.expiresAt) ∧
    ((Store.empty.run ts).find id = none → (Store.empty.run ts).revisionNumbers id = [] ∧
      ∀ n, (Store.empty.run ts).eventsOf id n = []) ∧
    ∀ n r successor, (Store.empty.run ts).revision id n = some r →
      (Store.empty.run ts).revision id (n + 1) = some successor → ∀ now t,
        ((∃ records before, t = .prune records before) ∧
          ((Store.empty.run ts).commit now t).find id = none) ∨
        (∃ r', ((Store.empty.run ts).commit now t).revision id n = some r' ∧ r.FilledTo r') ∧
          ((Store.empty.run ts).commit now t).eventsOf id n =
            (Store.empty.run ts).eventsOf id n := by
  have h : Coherent (Store.empty.run ts) := coherent_run ts coherent_empty
  generalize Store.empty.run ts = st at h
  refine ⟨fun d hd => ?_, fun hnone => ?_, fun n r successor hr hs now t => ?_⟩
  · obtain ⟨hpos, hnumbers⟩ := h.numbered hd
    constructor
    · rw [List.perm_ext_iff_of_nodup (st.nodup_revisionNumbers id) List.nodup_range']
      intro n
      rw [Store.mem_revisionNumbers, hnumbers, List.mem_range'_1]
      omega
    · obtain ⟨r, hr⟩ := (hnumbers d.revisionNumber).mpr ⟨hpos, Nat.le_refl _⟩
      have hm := h.mirrored hd hr
      exact ⟨r, hr, hm.status, hm.endpoint, hm.failure, hm.expiresAt⟩
  · obtain ⟨hrevisions, hevents⟩ := h.owned hnone
    constructor
    · rw [List.eq_nil_iff_forall_not_mem]
      intro n hn
      obtain ⟨r, hr⟩ := Store.mem_revisionNumbers.mp hn
      rw [hrevisions n] at hr
      cases hr
    · intro n
      rw [Store.eventsOf, List.filter_eq_nil_iff]
      intro e he
      simp [hevents e he]
  · obtain ⟨-, ⟨hprune, hdrops⟩ | hkeeps⟩ := coherent_commit now t h
    · rcases hdrops.keeps id n with hnone | ⟨hrevision, hevents⟩
      · exact .inl ⟨hprune, hnone⟩
      · exact .inr ⟨hrevision r hr, hevents⟩
    · obtain ⟨hrevision, hevents⟩ := hkeeps id n successor hs
      exact .inr ⟨hrevision r hr, hevents⟩

def retriedHistory : List (Time × Transaction) :=
  let d : Deployment :=
    { id := "a"
      accountID := 1
      scope := ⟨.account, 1⟩
      githubInstallationID := 1
      repositoryID := 1
      repositoryFullName := "owner/app"
      plan :=
        { ref := "refs/heads/main"
          commitSHA := "0123456789abcdef0123456789abcdef01234567"
          configPath := "deploy.json"
          snapshotVersion := 1
          specHash := "hash"
          specJSONEncrypted := "spec" }
      expiresAt := 100 }
  let failed := { d with status := .failed, failure := ⟨some .source, "no source"⟩ }
  [(1, .create d), (2, .update failed), (3, .retry { failed with version := 1 } 200)]

/-- After the retry there are two revisions, and no transaction changes the first. -/
theorem revisions_coherent_retried :
    ((Store.empty.run retriedHistory).revisionNumbers "a").Perm [1, 2] ∧
    ∃ r, (Store.empty.run retriedHistory).revision "a" 1 = some r ∧ ∀ now t,
      ((∃ records before, t = .prune records before) ∧
        ((Store.empty.run retriedHistory).commit now t).find "a" = none) ∨
      (∃ r', ((Store.empty.run retriedHistory).commit now t).revision "a" 1 = some r' ∧
        r.FilledTo r') ∧
        ((Store.empty.run retriedHistory).commit now t).eventsOf "a" 1 =
          (Store.empty.run retriedHistory).eventsOf "a" 1 := by
  obtain ⟨hpresent, -, hkept⟩ := revisions_coherent retriedHistory "a"
  have hd : ((Store.empty.run retriedHistory).find "a").map Deployment.revisionNumber = some 2 := by
    decide +kernel
  have hr : ((Store.empty.run retriedHistory).revision "a" 1).isSome = true := by decide +kernel
  have hs : ((Store.empty.run retriedHistory).revision "a" 2).isSome = true := by decide +kernel
  obtain ⟨d, hd, hnumber⟩ := Option.map_eq_some_iff.mp hd
  obtain ⟨r, hr⟩ := Option.isSome_iff_exists.mp hr
  obtain ⟨successor, hs⟩ := Option.isSome_iff_exists.mp hs
  have hperm := (hpresent d hd).1
  rw [hnumber] at hperm
  exact ⟨hperm, r, hr, hkept 1 r successor hr hs⟩

end CiRunner.Deployments
