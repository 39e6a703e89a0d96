import CiRunner.Deployments.Updates

/-! Every call keeps the invariant, does what the outline allows, and tells its thread
what the outline says. A deployment is created under an id that no deployment has had
before; this is the one condition on the runs. -/

namespace CiRunner.Deployments

open Text Threads Tables
open CiRunner.State (Time)

variable {limit i : Nat} {κ : Know} {s s' : State} {x : Choice} {st' : Store}

/-! ### Tables that are the same but for other columns -/

def Store.SameCores (st st' : Store) : Prop :=
  ∀ id, (st'.find id).map Deployment.core = (st.find id).map Deployment.core

theorem Store.SameCores.find {st : Store} (h : st.SameCores st') {id : String} {e : Deployment}
    (he : st'.find id = some e) : ∃ d, st.find id = some d ∧ d.core = e.core := by
  have := h id
  rw [he, Option.map_some] at this
  obtain ⟨d, hd, hcore⟩ := Option.map_eq_some_iff.mp this.symm
  exact ⟨d, hd, hcore⟩

theorem Store.SameCores.symm {st : Store} (h : st.SameCores st') : st'.SameCores st :=
  fun id => (h id).symm

theorem Deployment.evidence_of_core {d e : Deployment} (h : d.core = e.core) :
    d.sandboxID = e.sandboxID ∧ d.attempt = e.attempt :=
  ⟨congrArg Core.sandboxID h, congrArg Core.attempt h⟩

theorem Inv.sameCores (h : Inv s) (hc : s.store.SameCores st') : Inv { s with store := st' } where
  rows he := by
    obtain ⟨d, hd, hcore⟩ := hc.find he
    exact hcore ▸ h.rows hd
  evidence he hne := by
    obtain ⟨d, hd, hcore⟩ := hc.find he
    obtain ⟨hsandbox, hattempt⟩ := Deployment.evidence_of_core hcore
    rw [← hsandbox] at hne ⊢
    rw [← hattempt]
    exact h.evidence hd hne
  committed hmem := by
    refine ⟨(h.committed hmem).1, (h.committed hmem).2.1, fun he => ?_⟩
    obtain ⟨d, hd, hcore⟩ := hc.find he
    rw [← (Deployment.evidence_of_core hcore).2]
    exact (h.committed hmem).2.2 hd
  order := h.order
  tickets := h.tickets
  oneTicket := h.oneTicket
  creations := h.creations
  once := h.once
  sandboxes := h.sandboxes
  oneSandbox := h.oneSandbox
  covered hno attempt hu := by
    obtain ⟨d, hd, hattempt, htracks⟩ := h.covered hno attempt hu
    obtain ⟨e, he, hcore⟩ := hc.symm.find hd
    refine ⟨e, he, ?_, hcore ▸ htracks⟩
    rw [hattempt]
    exact (Deployment.evidence_of_core hcore).2.symm
  pending hp := by
    obtain ⟨d, hd, hattempt, hawaits⟩ := h.pending hp
    obtain ⟨e, he, hcore⟩ := hc.symm.find hd
    exact ⟨e, he, (Deployment.evidence_of_core hcore).2.trans hattempt, hcore ▸ hawaits⟩

theorem Grows.sameCores (hc : s.store.SameCores st') : Grows i s { s with store := st' } :=
  { Grows.refl i s with
    rows := fun id => .inl (hc id)
    quiet := fun _ _ hu => hu
    pending := fun _ _ hp => hp }

theorem Spares.sameCores (hc : s.store.SameCores st') (j : Nat) :
    Spares j s { s with store := st' } := by
  refine ⟨id, id, fun _ excludeID => Store.active_le (fun {id e} he hscope hcounts => ?_) excludeID⟩
  obtain ⟨d, hd, hcore⟩ := hc.find he
  exact ⟨d, hd, (congrArg Core.scope hcore).trans hscope, hcore ▸ hcounts⟩

theorem Store.sameCores_of_deployments {st : Store} (h : st'.deployments = st.deployments) :
    st.SameCores st' := by
  intro id
  rw [find, find, h]

theorem Store.deployments_commit_appendEvent (st : Store) (now : Time) (e : DeploymentEvent) :
    (st.commit now (.appendEvent e)).deployments = st.deployments := by
  unfold commit Transaction.apply
  split
  · rfl
  · rename_i h
    obtain ⟨e', owner, r, b, kept, -, -, -, -, rfl⟩ := appendDeploymentEvent_ok h
    rfl

theorem Store.sameCores_commit_appendEvent (st : Store) (now : Time) (e : DeploymentEvent) :
    st.SameCores (st.commit now (.appendEvent e)) :=
  sameCores_of_deployments (deployments_commit_appendEvent st now e)

theorem Store.sameCores_commit_fillTitle (st : Store) (now : Time) (id ref title : String) :
    st.SameCores (st.commit now (.fillTitle id ref title)) := by
  intro k
  unfold commit Transaction.apply
  split
  · rfl
  · rename_i st' h
    simp only [fillDeploymentPullRequestTitle] at h
    split at h
    · cases h
    · cases h
      have hfind := Table.find_mapRows st.deployments
        (Deployment.fillTitle (trimSpace id) (trimSpace ref) (trimSpace title)) (fun _ => rfl) k
      refine (congrArg (Option.map Deployment.core) hfind).trans ?_
      rw [Option.map_map]
      rfl

theorem Holds.own (hκ : Holds limit i κ s) (h : Inv s) (hg : Grows i s s') (hs : Spares i s s') :
    Holds limit i κ s' :=
  fun f hf => (hκ f hf).stable hg hs fun hmem => (h.tickets hmem).2

theorem Holds.cons {f : Fact} (hf : f.Holds limit i s) (hκ : Holds limit i κ s) :
    Holds limit i (f :: κ) s := by
  intro g hg
  rcases List.mem_cons.mp hg with rfl | hg
  · exact hf
  · exact hκ g hg

/-! ### What becomes known of sandboxes -/

theorem State.Unresolved.of_gone {sandboxIDs : List String} {settled : List (String × Nat)}
    (hgone : s.gone ⊆ sandboxIDs) (hsettled : s.settled ⊆ settled) {id : String} {attempt : Nat}
    (hu : State.Unresolved { s with gone := sandboxIDs, settled := settled } id attempt) :
    s.Unresolved id attempt :=
  ⟨hu.1.imp_left fun ⟨sandboxID, hmem, hnot⟩ => ⟨sandboxID, hmem, fun hg => hnot (hgone hg)⟩,
    fun hmem => hu.2 (hsettled hmem)⟩

theorem State.Pending.of_gone {sandboxIDs : List String} {settled : List (String × Nat)}
    (hsettled : s.settled ⊆ settled) {id : String} {attempt : Nat}
    (hp : State.Pending { s with gone := sandboxIDs, settled := settled } id attempt) :
    s.Pending id attempt :=
  ⟨hp.1, fun hmem => hp.2 (hsettled hmem)⟩

/-- More sandboxes are known to be gone, or more lookups count. -/
theorem Inv.gone (h : Inv s) {sandboxIDs : List String} {settled : List (String × Nat)}
    (hgone : s.gone ⊆ sandboxIDs) (hsettled : s.settled ⊆ settled) :
    Inv { s with gone := sandboxIDs, settled := settled } :=
  { h with
    covered := fun hno attempt hu => h.covered hno attempt (hu.of_gone hgone hsettled)
    pending := fun hp => h.pending (hp.of_gone hsettled) }

theorem Effect.gone {sandboxIDs : List String} {settled : List (String × Nat)}
    (hgone : s.gone ⊆ sandboxIDs) (hsettled : s.settled ⊆ settled) :
    Grows i s { s with gone := sandboxIDs, settled := settled } ∧
      ∀ j, Spares j s { s with gone := sandboxIDs, settled := settled } :=
  ⟨{ Grows.refl i s with
      gone := hgone
      settled := hsettled
      quiet := fun _ _ hu => hu.of_gone hgone hsettled
      pending := fun _ _ hp => hp.of_gone hsettled },
    fun _ => ⟨id, id, fun _ _ => Nat.le_refl _⟩⟩

theorem State.settle_cases (s : State) (d : Deployment) :
    (s.settle d = s ∧ ∀ row, s.store.find d.id = some row → row.version ≠ d.version) ∨
    s.settle d = { s with settled := (d.id, d.attempt) :: s.settled } := by
  unfold settle
  split
  · exact .inr rfl
  · rename_i h
    refine .inl ⟨rfl, fun row hrow hv => h ?_⟩
    simp [hrow, hv]

/-! ### Locks -/

theorem State.release_cases (s : State) (i : Nat) (scope : Scope) :
    ∃ locks, s.release i scope = { s with scopeLocks := locks } ∧
      ∀ {j k}, j ≠ i → s.scopeLocks k = some j → locks k = some j := by
  unfold release
  split
  · rename_i h
    refine ⟨_, rfl, fun {j k} hj hk => ?_⟩
    by_cases hkscope : k = scope
    · subst hkscope
      rw [h] at hk
      cases hk
      exact absurd rfl hj
    · rw [Function.update_of_ne hkscope]
      exact hk
  · exact ⟨s.scopeLocks, rfl, fun _ hk => hk⟩

theorem Inv.locks (h : Inv s) (locks : Scope → Option Nat) : Inv { s with scopeLocks := locks } :=
  { h with
    covered := fun hno attempt hu => h.covered hno attempt hu
    pending := fun hp => h.pending hp }

theorem Grows.locks (i : Nat) (s : State) (locks : Scope → Option Nat) :
    Grows i s { s with scopeLocks := locks } :=
  { Grows.refl i s with
    quiet := fun _ _ hu => hu
    pending := fun _ _ hp => hp }

theorem Holds.released (hκ : Holds limit i κ s) (h : Inv s) (hg : Grows i s s')
    (ht : s'.tickets = s.tickets) : Holds limit i (Know.released κ) s' := by
  intro f hf
  obtain ⟨hmem, hlock⟩ := List.mem_filter.mp hf
  refine (hκ f hmem).grow (by simpa using hlock) hg (fun he => ?_) fun hm => (h.tickets hm).2
  rw [ht]
  exact (he ▸ hκ f hmem :)

theorem Inv.answers (h : Inv s) (answers : List (CreateRequest × Response)) :
    Inv { s with answers := answers } :=
  { h with
    covered := fun hno attempt hu => h.covered hno attempt hu
    pending := fun hp => h.pending hp }

theorem Effect.answers (answers : List (CreateRequest × Response)) :
    Grows i s { s with answers := answers } ∧ ∀ j, Spares j s { s with answers := answers } :=
  ⟨{ Grows.refl i s with
      quiet := fun _ _ hu => hu
      pending := fun _ _ hp => hp }, fun _ => ⟨id, id, fun _ _ => Nat.le_refl _⟩⟩

/-! ### Creation -/

section Creation

variable {id : String} {attempt : Nat}

theorem State.mem_begin_tickets {j : Nat} {p : String × Nat}
    (h : (j, p) ∈ (s.begin i id attempt).tickets) : (j, p) ∈ s.tickets :=
  List.mem_of_mem_erase h

theorem State.Pending.of_begin {sandboxes : List (String × String × Nat)} {k : String} {a : Nat}
    (hp : State.Pending { s.begin i id attempt with sandboxes := sandboxes } k a) :
    s.Pending k a :=
  ⟨hp.1.imp fun _ hmem => State.mem_begin_tickets hmem, hp.2⟩

theorem Inv.ticket_used (h : Inv s) (hticket : (i, id, attempt) ∈ s.tickets) {j : Nat} :
    (j, id, attempt) ∉ (s.begin i id attempt).tickets := by
  intro hmem
  have hnodup : s.tickets.Nodup := h.oneTicket.of_map
  have heq := List.inj_on_of_nodup_map h.oneTicket (State.mem_begin_tickets hmem) hticket rfl
  rw [heq] at hmem
  exact hnodup.not_mem_erase hmem

theorem Inv.begin (h : Inv s) (hticket : (i, id, attempt) ∈ s.tickets)
    (made : List (String × String × Nat))
    (hmade : made = [] ∨ ∃ sandboxID, made = [(sandboxID, id, attempt)] ∧ s.NewSandbox sandboxID) :
    Inv { s.begin i id attempt with sandboxes := made ++ s.sandboxes } := by
  obtain ⟨hcommit, hnot⟩ := h.tickets hticket
  have hnone : ∀ sandboxID, (sandboxID, id, attempt) ∉ s.sandboxes :=
    fun sandboxID hmem => hnot (h.sandboxes hmem).1
  have hmem : ∀ {sandboxID k a}, (sandboxID, k, a) ∈ made ++ s.sandboxes →
      (k = id ∧ a = attempt ∧ s.NewSandbox sandboxID) ∨ (sandboxID, k, a) ∈ s.sandboxes := by
    intro sandboxID k a hmem
    rcases List.mem_append.mp hmem with hmem | hmem
    · rcases hmade with rfl | ⟨sandbox, rfl, hnew⟩
      · cases hmem
      · cases List.mem_singleton.mp hmem
        exact .inl ⟨rfl, rfl, hnew⟩
    · exact .inr hmem
  have hsandboxes : ∀ {sandboxID k a}, (sandboxID, k, a) ∈ made ++ s.sandboxes →
      (k, a) ∈ (id, attempt) :: s.creations ∧ Named sandboxID := by
    intro sandboxID k a hx
    rcases hmem hx with ⟨rfl, rfl, hnew⟩ | hx
    · exact ⟨List.mem_cons_self, hnew.1, hnew.2.1⟩
    · exact ⟨List.mem_cons_of_mem _ (h.sandboxes hx).1, (h.sandboxes hx).2⟩
  have honeSandbox : ((made ++ s.sandboxes).map Prod.snd).Nodup := by
    rcases hmade with rfl | ⟨sandbox, rfl, -⟩
    · exact h.oneSandbox
    · rw [List.singleton_append, List.map_cons, List.nodup_cons]
      refine ⟨fun hx => ?_, h.oneSandbox⟩
      obtain ⟨⟨sandboxID, p⟩, hx, rfl⟩ := List.mem_map.mp hx
      exact hnone sandboxID hx
  have hcovered : ∀ {k}, k ∉ s.overwritten →
      State.Covered { s.begin i id attempt with sandboxes := made ++ s.sandboxes } k := by
    intro k hno a hu
    refine h.covered hno a ⟨?_, hu.2⟩
    obtain ⟨⟨sandboxID, hx, hg⟩ | ⟨j, hj⟩, -⟩ := hu
    · rcases hmem hx with ⟨rfl, rfl, -⟩ | hx
      · exact .inr ⟨i, hticket⟩
      · exact .inl ⟨sandboxID, hx, hg⟩
    · exact .inr ⟨j, State.mem_begin_tickets hj⟩
  exact { h with
    evidence := fun hf hne => List.mem_append_right _ (h.evidence hf hne)
    tickets := fun {j k a} hj => by
      refine ⟨(h.tickets (State.mem_begin_tickets hj)).1, fun hc => ?_⟩
      rcases List.mem_cons.mp hc with heq | hc
      · cases heq
        exact h.ticket_used hticket hj
      · exact (h.tickets (State.mem_begin_tickets hj)).2 hc
    oneTicket := h.oneTicket.sublist (List.erase_sublist.map _)
    creations := List.cons_subset.mpr ⟨hcommit, h.creations⟩
    once := List.nodup_cons.mpr ⟨hnot, h.once⟩
    sandboxes := hsandboxes
    oneSandbox := honeSandbox
    covered := hcovered
    pending := fun hp => h.pending hp.of_begin }

theorem Effect.begin (hticket : (i, id, attempt) ∈ s.tickets)
    (made : List (String × String × Nat))
    (hmade : made = [] ∨ ∃ sandboxID, made = [(sandboxID, id, attempt)]) :
    Effect i s { s.begin i id attempt with sandboxes := made ++ s.sandboxes } := by
  have hmem : ∀ {sandboxID k a}, (sandboxID, k, a) ∈ made ++ s.sandboxes →
      (sandboxID, k, a) ∈ s.sandboxes ∨ (i, k, a) ∈ s.tickets := by
    intro sandboxID k a hmem
    rcases List.mem_append.mp hmem with hmem | hmem
    · rcases hmade with rfl | ⟨sandbox, rfl⟩
      · cases hmem
      · cases List.mem_singleton.mp hmem
        exact .inr hticket
    · exact .inl hmem
  constructor
  · exact { Grows.refl i s with
      creations := List.subset_cons_self _ _
      sandboxes := List.subset_append_right _ _
      made := hmem
      quiet := fun {k} _ {a} hu => by
        refine ⟨?_, hu.2⟩
        obtain ⟨⟨sandboxID, hx, hg⟩ | ⟨j, hj⟩, -⟩ := hu
        · rcases hmem hx with hx | hx
          · exact .inl ⟨sandboxID, hx, hg⟩
          · exact .inr ⟨i, hx⟩
        · exact .inr ⟨j, State.mem_begin_tickets hj⟩
      pending := fun _ _ hp => hp.of_begin }
  · intro j hij
    refine ⟨fun {p} hp => ?_, fun hlock => hlock, fun _ _ => Nat.le_refl _⟩
    exact (List.mem_erase_of_ne fun heq => hij (congrArg Prod.fst heq).symm).mpr hp

theorem Holds.begin (hκ : Holds limit i κ s) (h : Inv s)
    {made : List (String × String × Nat)}
    (he : Effect i s { s.begin i id attempt with sandboxes := made ++ s.sandboxes }) :
    Holds limit i (κ.filter (· ≠ .ticket id attempt))
      { s.begin i id attempt with sandboxes := made ++ s.sandboxes } := by
  intro f hf
  obtain ⟨hmem, hne⟩ := List.mem_filter.mp hf
  have hfs := hκ f hmem
  cases f with
  | locked scope => exact hfs
  | place scope excludeID => exact hfs
  | ticket k a =>
    refine (List.mem_erase_of_ne fun heq => ?_).mpr hfs
    cases heq
    simp at hne
  | _ => exact hfs.grow rfl he.1 (fun heq => by cases heq) fun hm => (h.tickets hm).2

end Creation

end CiRunner.Deployments
