import CiRunner.Deployments.Admission

/-! Every call, made under its obligation, keeps the invariant, tells its thread what
the outline says, and takes nothing from the other threads. The runs considered create
no deployment under an id that another has had. -/

namespace CiRunner.Deployments

open Text Threads Tables
open CiRunner.State (Time)

variable {maxConcurrent limit i : Nat} {κ : Know} {s s' : State} {x : Choice}

/-- The condition of the runs: no deployment is created under an id that one has had before. -/
def Fresh (c : Call) (x : Choice) (s : State) : Prop :=
  match c with
  | .commitCreate d event =>
    (commitAdmission (s.store.createDeployment d x.now) event x).isOk = true →
      trimSpace d.id ∉ s.usedIDs
  | _ => True

instance (c : Call) (x : Choice) (s : State) : Decidable (Fresh c x s) := by
  unfold Fresh
  split <;> infer_instance

/-- What the outline says of a call that has been served. -/
structure Served (limit i : Nat) (κ : Know) (s : State) (c : Call) (a : Reply c) (s' : State) :
    Prop where
  tells : tells κ c a
  inv : Inv s'
  holds : Holds limit i (learn κ c a) s'
  effect : Effect i s s'

section Calls

variable (h : Inv s) (hκ : Holds limit i κ s)
include h hκ

omit hκ in
theorem Served.unchanged {c : Call} {a : Reply c} (htells : Deployments.tells κ c a)
    (hlearn : Holds limit i (learn κ c a) s) : Served limit i κ s c a s :=
  ⟨htells, h, hlearn, .refl i s⟩

omit hκ in
theorem Fact.holds_copy {id : String} {d : Deployment} (hd : s.store.find id = some d) :
    Fact.Holds limit i s (.copy d) := by
  have hid : d.id = id := Store.id_of_find hd
  exact ⟨(h.rows hd).1, .inr ⟨d, hid ▸ hd, rfl⟩⟩

theorem served_getDeployment {purpose : Purpose} {id : String} :
    Served limit i κ s (.getDeployment purpose id)
      (if x.fails then .error .database
        else match s.store.find (trimSpace id) with
          | none => .error .notFound
          | some d => .ok d) s := by
  split
  · exact .unchanged h trivial hκ
  · rcases hd : s.store.find (trimSpace id) with _ | d
    · exact .unchanged h trivial hκ
    · exact .unchanged h ⟨(h.rows hd).1, Store.id_of_find hd⟩ (.cons (Fact.holds_copy h hd) hκ)

theorem served_listWork {kind : WorkKind} {id : String} {a : Option Deployment}
    (ha : ∀ {d}, a = some d → s.store.find id = some d) :
    Served limit i κ s (.listWork kind id) a s := by
  rcases a with _ | d
  · exact .unchanged h trivial hκ
  · have hd := ha rfl
    exact .unchanged h ⟨(h.rows hd).1, Store.id_of_find hd⟩ (.cons (Fact.holds_copy h hd) hκ)

theorem served_updateDeployment {w : Site} {d : Deployment} {r : Option StoreError}
    (hmay : may κ (.updateDeployment w d)) (hu : s.updateDeployment i w d x = (r, s')) :
    Served limit i κ s (.updateDeployment w d) r s' := by
  obtain ⟨c, hc, hw, hev⟩ := hmay
  obtain ⟨rfl, hr⟩ | ⟨row, row', store, ha, rfl, rfl⟩ := accepted_of_update hκ hc hw hu
  · rcases r with _ | e
    · exact absurd rfl hr
    · exact .unchanged h trivial hκ
  · have hgrows := Grows.update (i := i) ha hw x.lost
    have hspares := Spares.update (i := i) ha h hw x.lost
    refine ⟨trivial, h.update hκ hw hev ha x.lost, ?_, hgrows, fun j _ => hspares j⟩
    rcases hlost : x.lost with _ | _
    · exact hκ.update h hc hw hev ha
    · rw [hlost] at hgrows hspares
      exact hκ.own h hgrows (hspares i)

theorem served_sameCores {c : Call} {a : Reply c} {st' : Store}
    (hc : s.store.SameCores st') (htells : Deployments.tells κ c a) (hlearn : learn κ c a = κ) :
    Served limit i κ s c a { s with store := st' } := by
  have hgrows := Grows.sameCores (i := i) hc
  refine ⟨htells, h.sameCores hc, ?_, hgrows, fun j _ => .sameCores hc j⟩
  rw [hlearn]
  exact hκ.own h hgrows (.sameCores hc i)

theorem served_prune {records : List Deployment} {before : Time} :
    Served limit i κ s (.prune records before) ()
      { s with store := s.store.pruneDeployments records before } := by
  have hp := s.store.prunesTo_pruneDeployments before records
  obtain ⟨hgrows, hspares⟩ := Effect.prune (i := i) h hp
  exact ⟨trivial, h.prune hp, hκ.own h hgrows (hspares i), hgrows, fun j _ => hspares j⟩

theorem served_gone {c : Call} {a : Reply c} {f : Fact} {gone : List String}
    {settled : List (String × Nat)} (hgone : s.gone ⊆ gone) (hsettled : s.settled ⊆ settled)
    (htells : Deployments.tells κ c a) (hlearn : learn κ c a = f :: κ)
    (hf : f.Holds limit i { s with gone := gone, settled := settled }) :
    Served limit i κ s c a { s with gone := gone, settled := settled } := by
  obtain ⟨hgrows, hspares⟩ := Effect.gone (i := i) hgone hsettled
  refine ⟨htells, h.gone hgone hsettled, ?_, hgrows, fun j _ => hspares j⟩
  rw [hlearn]
  exact .cons hf (hκ.own h hgrows (hspares i))

theorem served_nowAfterLookup {d : Deployment} (hmay : may κ (.nowAfterLookup d)) :
    Served limit i κ s (.nowAfterLookup d) x.now
      (if x.now < d.expiresAt + createGrace then s else s.settle d) := by
  obtain ⟨-, c, hc, hcore⟩ := hmay
  by_cases hearly : x.now < d.expiresAt + createGrace
  · rw [if_pos hearly]
    refine .unchanged h trivial ?_
    simp only [learn, if_pos hearly]
    exact hκ
  · rw [if_neg hearly]
    have hlearn : learn κ (.nowAfterLookup d) x.now = .lookedUp d.id d.attempt d.version :: κ :=
      if_neg hearly
    obtain ⟨he, hmoved⟩ | he := s.settle_cases d
    · rw [he]
      refine .unchanged h trivial ?_
      rw [hlearn]
      refine .cons (.inl ?_) hκ
      have hid : c.id = d.id := congrArg Core.id hcore
      have hversion : c.version = d.version := congrArg Core.version hcore
      rcases (hκ _ hc).2 with hp | ⟨row, hrow, hsame⟩
      · rw [hid, hversion] at hp
        exact hp
      · rw [hid] at hrow
        exact absurd ((congrArg Core.version hsame).trans hversion) (hmoved row hrow)
    · rw [he]
      exact served_gone h hκ (List.Subset.refl _) (List.subset_cons_self _ _) trivial hlearn
        (.inr List.mem_cons_self)

theorem served_connect {d : Deployment} {r : Connected} (hr : s.connect d x = (r, s')) :
    Served limit i κ s (.connect d) r s' := by
  unfold State.connect at hr
  rcases hx : x.process with _ | _ | _
  · simp only [hx, Prod.mk.injEq] at hr
    obtain ⟨rfl, rfl⟩ := hr
    exact .unchanged h rfl hκ
  · simp only [hx, Prod.mk.injEq] at hr
    obtain ⟨rfl, rfl⟩ := hr
    exact served_gone h hκ (List.subset_cons_self _ _) (List.Subset.refl _) trivial rfl
      List.mem_cons_self
  · simp only [hx, Prod.mk.injEq] at hr
    obtain ⟨rfl, rfl⟩ := hr
    exact .unchanged h trivial hκ

theorem served_reconcile {d : Deployment} {r : Reconciled} (hr : s.reconcile d x = some r) :
    Served limit i κ s (.reconcile d) r s := by
  unfold State.reconcile at hr
  rcases hx : x.reconciled with handle | _ | _
  · simp only [hx] at hr
    split at hr
    · rename_i hmem
      cases hr
      exact .unchanged h (h.sandboxes hmem).2 (.cons hmem hκ)
    · cases hr
  · simp only [hx] at hr
    cases hr
    exact .unchanged h trivial (.cons trivial hκ)
  · simp only [hx] at hr
    cases hr
    exact .unchanged h trivial hκ

theorem served_respond {request : Option CreateRequest} {r : Response} :
    Served limit i κ s (.respond request r) () (match request with
      | none => s
      | some request => { s with answers := (request, r) :: s.answers }) := by
  rcases request with _ | request
  · exact .unchanged h trivial hκ
  · obtain ⟨hgrows, hspares⟩ := Effect.answers (i := i) (s := s) ((request, r) :: s.answers)
    exact ⟨trivial, h.answers _, hκ.own h hgrows (hspares i), hgrows, fun j _ => hspares j⟩

theorem served_createRuntime {d : Deployment} {attempt : Nat} {r : CreateResult}
    (hmay : may κ (.createRuntime d attempt)) (hr : s.createRuntime i d.id attempt x = some (r, s')) :
    Served limit i κ s (.createRuntime d attempt) r s' := by
  have hticket : (i, d.id, attempt) ∈ s.tickets := hκ _ hmay
  obtain ⟨hcommit, hnot⟩ := h.tickets hticket
  have hnone : ∀ sandboxID, (sandboxID, d.id, attempt) ∉ s.sandboxes :=
    fun sandboxID hmem => hnot (h.sandboxes hmem).1
  have heffect := Effect.begin hticket [] (.inl rfl)
  have hinv := h.begin hticket [] (.inl rfl)
  have hmade : ∀ {sandboxID}, s.NewSandbox sandboxID →
      Inv { s.begin i d.id attempt with sandboxes := (sandboxID, d.id, attempt) :: s.sandboxes } ∧
      Holds limit i (κ.filter (· ≠ .ticket d.id attempt))
        { s.begin i d.id attempt with sandboxes := (sandboxID, d.id, attempt) :: s.sandboxes } ∧
      Effect i s
        { s.begin i d.id attempt with sandboxes := (sandboxID, d.id, attempt) :: s.sandboxes } := by
    intro sandboxID hnew
    have heffect' := Effect.begin hticket [(sandboxID, d.id, attempt)] (.inr ⟨_, rfl⟩)
    exact ⟨h.begin hticket [(sandboxID, d.id, attempt)] (.inr ⟨_, rfl, hnew⟩),
      hκ.begin h heffect', heffect'⟩
  unfold State.createRuntime at hr
  rcases hx : x.create with ⟨handle, pending⟩ | _ | _
  · simp only [hx] at hr
    split at hr
    · rename_i hnew
      cases hr
      obtain ⟨hinv', hκ', heffect'⟩ := hmade hnew
      exact ⟨⟨hnew.1, hnew.2.1⟩, hinv', .cons List.mem_cons_self hκ', heffect'⟩
    · cases hr
  · simp only [hx] at hr
    rcases hhidden : x.hidden with _ | sandboxID
    · simp only [hhidden] at hr
      cases hr
      exact ⟨trivial, hinv, hκ.begin h heffect, heffect⟩
    · simp only [hhidden] at hr
      split at hr
      · rename_i hnew
        cases hr
        obtain ⟨hinv', hκ', heffect'⟩ := hmade hnew
        exact ⟨trivial, hinv', hκ', heffect'⟩
      · cases hr
  · simp only [hx] at hr
    cases hr
    exact ⟨trivial, hinv, .cons ⟨List.mem_cons_self, hnone⟩ (hκ.begin h heffect), heffect⟩

theorem served_lockScope {scope : Scope} {r : Option StoreError}
    (hr : s.lockScope i scope x = some (r, s')) :
    Served limit i κ s (.lockScope scope) r s' := by
  unfold State.lockScope at hr
  split at hr
  · cases hr
    exact .unchanged h trivial hκ
  · split at hr
    · rename_i hfree
      cases hr
      have hspares : ∀ j, Spares j s
          { s with scopeLocks := Function.update s.scopeLocks scope (some i) } := by
        refine fun j => ⟨fun hmem => hmem, fun {k} hj => ?_, fun _ _ => Nat.le_refl _⟩
        have hk : k ≠ scope := by
          rintro rfl
          rw [hfree] at hj
          cases hj
        exact (Function.update_of_ne hk _ _).trans hj
      have hgrows := Grows.locks i s (Function.update s.scopeLocks scope (some i))
      exact ⟨trivial, h.locks _, .cons (Function.update_self _ _ _) (hκ.own h hgrows (hspares i)),
        hgrows, fun j _ => hspares j⟩
    · cases hr

theorem served_release {c : Call} {a : Reply c} {locks : Scope → Option Nat}
    (hlocks : ∀ {j k}, j ≠ i → s.scopeLocks k = some j → locks k = some j)
    (htells : Deployments.tells κ c a) (hlearn : learn κ c a = Know.released κ) :
    Served limit i κ s c a { s with scopeLocks := locks } := by
  have hgrows := Grows.locks i s locks
  refine ⟨htells, h.locks locks, ?_, hgrows, fun j hij => ?_⟩
  · rw [hlearn]
    exact hκ.released h hgrows rfl
  · exact ⟨fun hmem => hmem, hlocks hij.symm, fun _ _ => Nat.le_refl _⟩

theorem served_commitCreate {d : Deployment} {event : DeploymentEvent} {r : Option StoreError}
    (hmay : may κ (.commitCreate d event)) (hfresh : Fresh (.commitCreate d event) x s)
    (hr : s.commitCreate i d event x = (r, s')) :
    Served limit i κ s (.commitCreate d event) r s' := by
  obtain ⟨hnew, hplace⟩ := hmay
  obtain ⟨locks, hlocks, rfl | ⟨row, st, st', hok, hnone, hputs, hsame, hid, hscope, hstatus,
    hsandbox, hfailure, rfl⟩⟩ := State.commitCreate_cases hnew hr
  · exact served_release h hκ hlocks trivial rfl
  · have hunused : row.id ∉ s.usedIDs := by
      rw [hid]
      exact hfresh (by rw [hok]; rfl)
    have hrow : row.core.Ok :=
      Deployment.ok_of_queued (by rw [hid, trimSpace_trimSpace]) hstatus hsandbox hfailure
    have hlock : s.scopeLocks row.scope = some i := hscope ▸ (hκ _ hplace).1
    have hcreated := ((h.create hnone hunused hputs hrow hsandbox).locks locks).sameCores hsame
    have hgrows : Grows i s _ :=
      (Grows.create (i := i) hnone hunused hputs).trans_sameCores hsame
    have hgrows' := hgrows.trans_locks locks
    refine ⟨trivial, hcreated, hκ.released h hgrows' rfl, hgrows', fun j hij => ?_⟩
    exact Spares.trans_sameCores (Spares.puts hputs hlock hlocks hij) hsame

theorem served_commitRetry {d : Deployment} {expiresAt : Time} {event : DeploymentEvent}
    {r : Option StoreError} (hmay : may κ (.commitRetry d expiresAt event))
    (hr : s.commitRetry i d expiresAt event x = (r, s')) :
    Served limit i κ s (.commitRetry d expiresAt event) r s' := by
  obtain ⟨hplace, c, hc, hcid, hcversion, hcscope⟩ := hmay
  obtain ⟨locks, hlocks, rfl | ⟨row, row', st, st', expiresAt', overwritten, -, hrow, hv, hterminal,
    hcore, hputs, hsame, hsub, hover, -, rfl⟩⟩ := State.commitRetry_cases hr
  · exact served_release h hκ hlocks trivial rfl
  · have hid : row'.id = d.id :=
      (congrArg Core.id hcore).trans (Store.id_of_find hrow)
    have hrowcore : row.core = c.core :=
      (hκ _ hc).2.core_eq (hcid ▸ hrow) (hv.trans hcversion.symm)
    have hscope : row'.scope = d.scope :=
      (congrArg Core.scope hcore).trans ((congrArg Core.scope hrowcore).trans hcscope)
    have hfind : s.store.find row'.id = some row := hid ▸ hrow
    have hrow' : row'.core.Ok := Deployment.ok_of_queued
      (by rw [hid]; exact Store.id_of_find hrow ▸ (h.rows hrow).1.id)
      (congrArg Core.status hcore) (congrArg Core.sandboxID hcore) (congrArg Core.failure hcore)
    have hlt : row.version < row'.version := by
      rw [show row'.version = row.version + 1 from congrArg Core.version hcore]
      exact Nat.lt_succ_self _
    have hlock : s.scopeLocks row'.scope = some i := hscope ▸ (hκ _ hplace).1
    have hinv := h.retry hfind hputs hrow' (congrArg Core.sandboxID hcore)
      (congrArg Core.attempt hcore) hterminal hsub fun hne => hid ▸ hover hne
    have hgrows : Grows i s _ :=
      (Grows.retry (i := i) hfind hputs hlt hsub).trans_sameCores hsame
    have hgrows' := hgrows.trans_locks locks
    refine ⟨trivial, (hinv.locks locks).sameCores hsame, hκ.released h hgrows' rfl, hgrows',
      fun j hij => ?_⟩
    exact Spares.trans_sameCores (Spares.puts hputs hlock hlocks hij) hsame

end Calls

theorem served_checkQuota {d : Deployment} {excludeID : String} {r : Option StoreError}
    (h : Inv s) (hκ : Holds (quotaLimit maxConcurrent) i κ s)
    (hmay : may κ (.checkQuota d excludeID))
    (hr : s.checkQuota maxConcurrent i d excludeID x = (r, s')) :
    Served (quotaLimit maxConcurrent) i κ s (.checkQuota d excludeID) r s' := by
  obtain ⟨locks, hrelease, hlocks⟩ := s.release_cases i d.scope
  unfold State.checkQuota at hr
  rw [hrelease] at hr
  split at hr
  · cases hr
    exact served_release h hκ hlocks trivial rfl
  · unfold Store.checkDeploymentQuota at hr
    split at hr
    · cases hr
      exact served_release h hκ hlocks trivial rfl
    · rename_i hok
      cases hr
      split at hok
      · cases hok
      · exact .unchanged h trivial (.cons ⟨hκ _ hmay, by omega⟩ hκ)

theorem served {c : Call} {a : Reply c} (h : Inv s) (hκ : Holds (quotaLimit maxConcurrent) i κ s)
    (hmay : may κ c) (hfresh : Fresh c x s) (hs : serve maxConcurrent i c x s = some (a, s')) :
    Served (quotaLimit maxConcurrent) i κ s c a s' := by
  cases c with
  | lockScope scope => exact served_lockScope h hκ hs
  | createRuntime d attempt => exact served_createRuntime h hκ hmay hs
  | reconcile d =>
    obtain ⟨r, hr, heq⟩ := Option.map_eq_some_iff.mp hs
    cases heq
    exact served_reconcile h hκ hr
  | updateDeployment w d =>
    simp only [serve, Option.some.injEq] at hs
    split at hs
    · cases hs
      exact .unchanged h trivial hκ
    · exact served_updateDeployment h hκ hmay hs
  | checkQuota d excludeID => exact served_checkQuota h hκ hmay (Option.some.inj hs)
  | commitCreate d event => exact served_commitCreate h hκ hmay hfresh (Option.some.inj hs)
  | commitRetry d expiresAt event => exact served_commitRetry h hκ hmay (Option.some.inj hs)
  | connect d => exact served_connect h hκ (Option.some.inj hs)
  | getDeployment purpose id =>
    cases hs
    exact served_getDeployment h hκ
  | listWork kind id =>
    cases hs
    refine served_listWork h hκ fun {d} hd => ?_
    split at hd
    · cases hd
    · exact (Option.filter_eq_some_iff.mp hd).1
  | nowAfterLookup d =>
    cases hs
    exact served_nowAfterLookup h hκ hmay
  | respond request r =>
    cases hs
    exact served_respond h hκ
  | appendEvent e =>
    cases hs
    split
    · exact .unchanged h trivial hκ
    · exact served_sameCores h hκ (Store.sameCores_commit_appendEvent _ _ _) trivial rfl
  | fillTitle id ref title =>
    cases hs
    split
    · exact .unchanged h trivial hκ
    · exact served_sameCores h hκ (Store.sameCores_commit_fillTitle _ _ _ _ _) trivial rfl
  | prune records before =>
    cases hs
    split
    · exact .unchanged h trivial hκ
    · exact served_prune h hκ
  | close handle =>
    simp only [serve, Option.some.injEq] at hs
    split at hs
    · cases hs
      exact .unchanged h trivial hκ
    · cases hs
      exact served_gone h hκ (List.subset_cons_self _ _) (List.Subset.refl _) trivial rfl
        List.mem_cons_self
  | now | getRevision _ _ | listPrunable _ _ | stopProcess _ | inspect _ | remote _ | applyLength
  | applyEvent | applyResult | newDeploymentID | resolve =>
    cases hs
    exact .unchanged h trivial hκ

end CiRunner.Deployments
