import CiRunner.Deployments.HandlerOutline

/-! Runs of the deployment machine. One rule says what a served call can do to the
rows; it is what the properties of runs are read from. -/

namespace CiRunner.Deployments

open Text Threads Tables
open CiRunner.State (Time)

/-! ### The start of a run -/

/-- The rows of a store that runs may start from. -/
def Store.WellFormed (st : Store) : Prop :=
  ∀ d ∈ st.deployments.rows, d.core.Ok ∧ (d.sandboxID ≠ "" → 0 < d.attempt)

theorem Store.wellFormed_empty : Store.empty.WellFormed := fun _ h => by cases h

theorem Core.Ok.tracks {c : Core} (h : c.Ok) (hne : c.sandboxID ≠ "") : c.Tracks := by
  have hclean := fun hs => hne (h.clean hs)
  cases hs : c.status with
  | queued | planning | completed | expired => simp [hs] at hclean
  | creating => exact .inl hs
  | stopping => exact .inr (.inl hs)
  | running => exact .inr (.inr ⟨hne, .inl hs⟩)
  | failed => exact .inr (.inr ⟨hne, .inr hs⟩)

section Start

variable {st : Store}

theorem Store.mem_withSandbox {d : Deployment} (h : d ∈ st.withSandbox) :
    st.find d.id = some d ∧ d.sandboxID ≠ "" := by
  obtain ⟨hmem, hne⟩ := List.mem_filter.mp h
  exact ⟨Table.find_of_mem hmem, by simpa using hne⟩

theorem Store.withSandbox_pairwise (st : Store) :
    st.withSandbox.Pairwise fun d e => d.id ≠ e.id :=
  (List.pairwise_map.mp st.deployments.nodup).filter _

theorem Store.nodup_attempts (st : Store) :
    (st.withSandbox.map fun d => (d.id, d.attempt)).Nodup :=
  List.pairwise_map.mpr (st.withSandbox_pairwise.imp fun hne heq => hne (congrArg Prod.fst heq))

theorem inv_initial (h : st.WellFormed) : Inv (State.initial st) where
  rows hd := by
    have hid : _ = _ := Store.id_of_find hd
    exact ⟨(h _ (Table.mem_of_find hd)).1, List.mem_map.mpr ⟨_, Table.mem_of_find hd, hid⟩⟩
  evidence hd hne := by
    have hid : _ = _ := Store.id_of_find hd
    refine List.mem_map.mpr ⟨_, List.mem_filter.mpr ⟨Table.mem_of_find hd, by simpa using hne⟩, ?_⟩
    rw [hid]
  committed hmem := by
    obtain ⟨d, hd, heq⟩ := List.mem_map.mp hmem
    cases heq
    obtain ⟨hfind, hne⟩ := Store.mem_withSandbox hd
    refine ⟨List.mem_map_of_mem (Table.mem_of_find hfind), (h d (Table.mem_of_find hfind)).2 hne, ?_⟩
    intro e he
    rw [show (State.initial st).store.find d.id = some d from hfind] at he
    cases he
    exact Nat.le_refl _
  order := List.pairwise_map.mpr (st.withSandbox_pairwise.imp fun hne heq => absurd heq hne)
  tickets hmem := by cases hmem
  oneTicket := List.nodup_nil
  creations := List.Subset.refl _
  once := st.nodup_attempts
  sandboxes hmem := by
    obtain ⟨d, hd, heq⟩ := List.mem_map.mp hmem
    cases heq
    obtain ⟨hfind, hne⟩ := Store.mem_withSandbox hd
    exact ⟨List.mem_map.mpr ⟨d, hd, rfl⟩, hne, (h d (Table.mem_of_find hfind)).1.sandbox⟩
  oneSandbox := by
    have hsnd : (State.initial st).sandboxes.map Prod.snd =
        st.withSandbox.map fun d => (d.id, d.attempt) := List.map_map
    rw [hsnd]
    exact st.nodup_attempts
  covered hno attempt hu := by
    obtain ⟨⟨sandboxID, hmem, -⟩ | ⟨j, hmem⟩, -⟩ := hu
    · obtain ⟨d, hd, heq⟩ := List.mem_map.mp hmem
      cases heq
      obtain ⟨hfind, hne⟩ := Store.mem_withSandbox hd
      exact ⟨d, hfind, rfl, (h d (Table.mem_of_find hfind)).1.tracks hne⟩
    · cases hmem
  pending hp := by
    obtain ⟨⟨_, hmem⟩, -⟩ := hp
    cases hmem

end Start

/-! ### What a call does -/

/-- Everything that a call, made under its obligation, can do to the state. -/
inductive Action (i : Nat) (κ : Know) (e : Call) (x : Choice) (s : State) : State → Prop
  | idle : Action i κ e x s s
  /-- Events and titles. -/
  | sameCores {st' : Store} (h : s.store.SameCores st') : Action i κ e x s { s with store := st' }
  | prune {st' : Store} (h : s.store.PrunesTo st') : Action i κ e x s { s with store := st' }
  | update {w : Site} {c d row row' : Deployment} {st' : Store} (call : e = .updateDeployment w d)
      (copy : .copy c ∈ κ) (writes : w.Writes c.core d.core) (evidence : w.Evidence κ c.core d.core)
      (accepted : Accepted c d row row' s.store st') :
      Action i κ e x s { s.record i w d x.lost with store := st' }
  | locks (locks : Scope → Option Nat) : Action i κ e x s { s with scopeLocks := locks }
  | create {d row : Deployment} {event : DeploymentEvent} {st st' : Store}
      {locks : Scope → Option Nat} (call : e = .commitCreate d event)
      (admitted : commitAdmission (s.store.createDeployment d x.now) event x = .ok st')
      (place : .place d.scope "" ∈ κ) (id : row.id = trimSpace d.id)
      (unused : s.store.find row.id = none) (puts : s.store.Puts st row) (same : st.SameCores st')
      (scope : row.scope = d.scope) (status : row.status = .queued) (sandboxID : row.sandboxID = "")
      (failure : row.failure = {}) :
      Action i κ e x s
        { s with scopeLocks := locks, store := st', usedIDs := row.id :: s.usedIDs }
  | retry {d row row' : Deployment} {expiresAt expiresAt' : Time} {event : DeploymentEvent}
      {st st' : Store} {locks : Scope → Option Nat} {overwritten : List String}
      (call : e = .commitRetry d expiresAt event)
      (admitted : commitAdmission (s.store.retryDeployment d expiresAt x.now) event x = .ok st')
      (place : .place d.scope d.id ∈ κ) (find : s.store.find d.id = some row)
      (terminal : row.status.terminal = true) (scope : row.scope = d.scope)
      (core : row'.core = { row.core with
        revisionNumber := row.revisionNumber + 1
        status := .queued
        sandboxID := ""
        failure := {}
        error := ""
        expiresAt := expiresAt'
        version := row.version + 1 })
      (puts : s.store.Puts st row') (same : st.SameCores st')
      (kept : row.sandboxID = "" → overwritten = s.overwritten) :
      Action i κ e x s
        { s with scopeLocks := locks, store := st', overwritten := overwritten }
  /-- A creation, which makes a sandbox or does not. -/
  | make {d : Deployment} {attempt : Nat} {made : List (String × String × Nat)}
      (call : e = .createRuntime d attempt) (ticket : .ticket d.id attempt ∈ κ)
      (one : made = [] ∨ ∃ sandboxID, made = [(sandboxID, d.id, attempt)]) :
      Action i κ e x s { s.begin i d.id attempt with sandboxes := made ++ s.sandboxes }
  | resolve {gone : List String} {settled : List (String × Nat)} (hgone : s.gone ⊆ gone)
      (hsettled : s.settled ⊆ settled) :
      Action i κ e x s { s with gone := gone, settled := settled }
  | answer (answers : List (CreateRequest × Response)) :
      Action i κ e x s { s with answers := answers }

section Actions

variable {maxConcurrent limit i : Nat} {κ : Know} {s s' : State} {x : Choice}

theorem action_of_commitCreate {d : Deployment} {event : DeploymentEvent} {r : Option StoreError}
    (hmay : may κ (.commitCreate d event)) (hs : s.commitCreate i d event x = (r, s')) :
    Action i κ (.commitCreate d event) x s s' := by
  obtain ⟨hnew, hplace⟩ := hmay
  obtain ⟨locks, -, rfl | ⟨row, st, st', hok, hnone, hputs, hsame, hid, hscope, hstatus, hsandbox,
    hfailure, rfl⟩⟩ := State.commitCreate_cases hnew hs
  · exact .locks _
  · exact .create rfl hok hplace hid hnone hputs hsame hscope hstatus hsandbox hfailure

theorem action_of_commitRetry {d : Deployment} {expiresAt : Time} {event : DeploymentEvent}
    {r : Option StoreError} (hκ : Holds limit i κ s) (hmay : may κ (.commitRetry d expiresAt event))
    (hs : s.commitRetry i d expiresAt event x = (r, s')) :
    Action i κ (.commitRetry d expiresAt event) x s s' := by
  obtain ⟨hplace, c, hc, hcid, hcversion, hcscope⟩ := hmay
  obtain ⟨locks, -, rfl | ⟨row, row', st, st', expiresAt', overwritten, hok, hrow, hv, hterminal,
    hcore, hputs, hsame, -, -, hkept, rfl⟩⟩ := State.commitRetry_cases hs
  · exact .locks _
  · have hrowcore : row.core = c.core :=
      (hκ _ hc).2.core_eq (hcid ▸ hrow) (hv.trans hcversion.symm)
    exact .retry rfl hok hplace hrow hterminal ((congrArg Core.scope hrowcore).trans hcscope) hcore
      hputs hsame hkept

theorem action_of_createRuntime {d : Deployment} {attempt : Nat} {r : CreateResult}
    (hmay : may κ (.createRuntime d attempt))
    (hs : s.createRuntime i d.id attempt x = some (r, s')) :
    Action i κ (.createRuntime d attempt) x s s' := by
  simp only [State.createRuntime] at hs
  split at hs
  · cases hs
    exact .make rfl hmay (.inl rfl)
  · split at hs
    · cases hs
      exact .make rfl hmay (.inr ⟨_, rfl⟩)
    · cases hs

theorem action_of_release (s : State) (i : Nat) (scope : Scope) {e : Call} :
    Action i κ e x s (s.release i scope) := by
  obtain ⟨locks, hrelease, -⟩ := s.release_cases i scope
  rw [hrelease]
  exact .locks locks

theorem action_of_serve {e : Call} {a : Reply e} (hκ : Holds limit i κ s) (hmay : may κ e)
    (hs : serve maxConcurrent i e x s = some (a, s')) : Action i κ e x s s' := by
  cases e with
  | updateDeployment w d =>
    simp only [serve, Option.some.injEq] at hs
    split at hs
    · cases hs
      exact .idle
    · obtain ⟨c, hc, hw, hev⟩ := hmay
      obtain ⟨rfl, -⟩ | ⟨row, row', store, ha, -, rfl⟩ := accepted_of_update hκ hc hw hs
      · exact .idle
      · exact .update rfl hc hw hev ha
  | commitCreate d event => exact action_of_commitCreate hmay (Option.some.inj hs)
  | commitRetry d expiresAt event => exact action_of_commitRetry hκ hmay (Option.some.inj hs)
  | createRuntime d attempt => exact action_of_createRuntime hmay hs
  | prune records before =>
    cases hs
    split
    · exact .idle
    · exact .prune (s.store.prunesTo_pruneDeployments before records)
  | appendEvent e =>
    cases hs
    split
    · exact .idle
    · exact .sameCores (Store.sameCores_commit_appendEvent _ _ _)
  | fillTitle id ref title =>
    cases hs
    split
    · exact .idle
    · exact .sameCores (Store.sameCores_commit_fillTitle _ _ _ _ _)
  | nowAfterLookup d =>
    cases hs
    split
    · exact .idle
    · obtain ⟨he, -⟩ | he := s.settle_cases d
      · rw [he]
        exact .idle
      · rw [he]
        exact .resolve (List.Subset.refl _) (List.subset_cons_self _ _)
  | lockScope scope =>
    simp only [serve, State.lockScope] at hs
    split at hs
    · cases hs
      exact .idle
    · split at hs
      · cases hs
        exact .locks _
      · cases hs
  | checkQuota d excludeID =>
    have hs := Option.some.inj hs
    unfold State.checkQuota at hs
    split at hs
    · cases hs
      exact action_of_release s i d.scope
    · split at hs
      · cases hs
        exact action_of_release s i d.scope
      · cases hs
        exact .idle
  | reconcile d =>
    obtain ⟨r, -, heq⟩ := Option.map_eq_some_iff.mp hs
    cases heq
    exact .idle
  | connect d =>
    have hs := Option.some.inj hs
    unfold State.connect at hs
    split at hs <;> cases hs
    · exact .idle
    · exact .resolve (List.subset_cons_self _ _) (List.Subset.refl _)
    · exact .idle
  | close handle =>
    simp only [serve, Option.some.injEq] at hs
    split at hs <;> cases hs
    · exact .idle
    · exact .resolve (List.subset_cons_self _ _) (List.Subset.refl _)
  | respond request r =>
    cases hs
    cases request with
    | none => exact .idle
    | some request => exact .answer _
  | now | listWork _ _ | getDeployment _ _ | getRevision _ _ | listPrunable _ _ | stopProcess _
  | inspect _ | remote _ | applyLength | applyEvent | applyResult | newDeploymentID | resolve =>
    cases hs
    exact .idle

end Actions

/-! ### Schedules -/

/-- A thread makes its next calls, all at one time. -/
def calls (i n : Nat) (x : Choice) : List (Decision Choice Op) := List.replicate n (.run i x)

/-- A server that lets a scope have one deployment. -/
def oneAtATime : Settings where
  maxConcurrent := 1
  templateID := "base"
  deploymentID _ key := key
  requestHash _ := "hash"

def mainBranch : CreateInput where
  installationID := 1
  repositoryFullName := "owner/app"
  ref := "refs/heads/main"

/-- At the given time, with everything found where it is looked for. -/
def atTime (ticks : Nat) : Choice where
  ticks := ticks
  resolved :=
    { repositoryFullName := "owner/app"
      plan :=
        { commitSHA := "0123456789abcdef0123456789abcdef01234567"
          snapshotVersion := 1
          specHash := "hash"
          specJSONEncrypted := "spec" } }

/-- A deployment is created, as thread `i`. -/
def created (i : Nat) (key : String) (ticks : Nat) : List (Decision Choice Op) :=
  .start (.create 1 key mainBranch) :: calls i 12 (atTime ticks)

end CiRunner.Deployments
