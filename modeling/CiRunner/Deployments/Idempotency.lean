import Mathlib.Data.Countable.Basic
import Mathlib.Data.Fintype.EquivFin
import Mathlib.Logic.Equiv.List
import CiRunner.Deployments.Apart
import CiRunner.Deployments.Runs

/-! A key creates one deployment. The id of a deployment is derived from the account
and the key, so the table admits one row for them; a request that comes too late finds
that row and is answered by comparing what it asks for with what the row was created
for. What is compared never changes while the row is there. -/

namespace CiRunner.Deployments

open Text Threads Tables
open CiRunner.State (Time)

/-! ### Origins -/

/-- What a deployment keeps of the request that it was created by. -/
structure Origin where
  accountID : Nat
  installationID : Nat
  repositoryID : Nat
  requestHash : String
  deriving DecidableEq, Repr

def Deployment.origin (d : Deployment) : Origin :=
  ⟨d.accountID, d.githubInstallationID, d.repositoryID, d.createRequestHash⟩

def CreateRequest.origin (settings : Settings) (request : CreateRequest) : Origin :=
  ⟨request.accountID, request.identity.installationID, request.identity.repositoryID,
    settings.requestHash request.identity⟩

/-- What the deployment with the id was created for. -/
def Store.origin (st : Store) (id : String) : Option Origin := (st.find id).map Deployment.origin

variable {st st' : Store} {s s' : State} {d : Deployment} {now : Time} {id : String}

theorem Store.origin_of_find (h : st.find id = some d) : st.origin id = some d.origin := by
  rw [origin, h, Option.map_some]

theorem Store.origin_of_deployments (h : st'.deployments = st.deployments) (id : String) :
    st'.origin id = st.origin id := by
  rw [origin, find, h]
  rfl

theorem Store.origin_commit_fillTitle (st : Store) (now : Time) (id ref title k : String) :
    (st.commit now (.fillTitle id ref title)).origin k = st.origin k := by
  unfold commit Transaction.apply
  split
  · rfl
  · rename_i h
    simp only [fillDeploymentPullRequestTitle] at h
    split at h
    · cases h
    · cases h
      have hfind := Table.find_mapRows st.deployments
        (Deployment.fillTitle (trimSpace id) (trimSpace ref) (trimSpace title)) (fun _ => rfl) k
      refine (congrArg (Option.map Deployment.origin) hfind).trans ?_
      rw [Option.map_map]
      rfl

theorem Store.origin_put {row row' : Deployment} (hrow : st.find id = some row)
    (horigin : row'.origin = row.origin)
    (hfind : ∀ k, st'.find k = if k = id then some row' else st.find k) (k : String) :
    st'.origin k = st.origin k := by
  unfold origin
  rw [hfind]
  by_cases hk : k = id
  · rw [if_pos hk, hk, hrow, Option.map_some, Option.map_some, horigin]
  · rw [if_neg hk]

theorem Store.origin_create (h : st.createDeployment d now = .ok st') :
    st.origin (trimSpace d.id) = none ∧
      ∀ k, st'.origin k = if k = trimSpace d.id then some d.origin else st.origin k := by
  obtain ⟨d', hn, hnone, -, rfl⟩ := createDeployment_ok h
  have hd' : d'.id = trimSpace d.id ∧ d'.origin = d.origin := by
    obtain ⟨_, _, _, rfl⟩ := normalizeDeployment_ok hn
    exact ⟨rfl, rfl⟩
  rw [← hd'.1, ← hd'.2]
  refine ⟨by rw [origin, hnone, Option.map_none], fun k => ?_⟩
  have hnone' : st.deployments.find d'.id = none := hnone
  simp only [origin, find]
  rw [Table.find_insert]
  by_cases hk : k = d'.id
  · subst hk
    simp [newDeploymentRecord, hnone']
    rfl
  · have hne : ¬(newDeploymentRecord d' now).id = k := fun he => hk he.symm
    simp [hne, hk]

/-! ### Steps -/

/-- What a call does to the origins, to the ids that were used, and to the answers. -/
inductive Traces (s s' : State) : Call → Prop where
  | same {c : Call} (horigin : ∀ k, s'.store.origin k = s.store.origin k)
      (hused : s'.usedIDs = s.usedIDs) (hanswers : s'.answers = s.answers) : Traces s s' c
  | prune {records : List Deployment} {before : Time}
      (hstore : s'.store = s.store.pruneDeployments records before)
      (hused : s'.usedIDs = s.usedIDs) (hanswers : s'.answers = s.answers) :
      Traces s s' (.prune records before)
  | create {d : Deployment} {event : DeploymentEvent}
      (hnone : s.store.origin (trimSpace d.id) = none)
      (horigin : ∀ k, s'.store.origin k =
        if k = trimSpace d.id then some d.origin else s.store.origin k)
      (hused : s'.usedIDs = trimSpace d.id :: s.usedIDs) (hanswers : s'.answers = s.answers) :
      Traces s s' (.commitCreate d event)
  | answer {request : CreateRequest} {r : Response}
      (hs' : s' = { s with answers := (request, r) :: s.answers }) :
      Traces s s' (.respond (some request) r)

variable {maxConcurrent i : Nat} {x : Choice}

theorem Traces.refl {c : Call} : Traces s s c := .same (fun _ => rfl) rfl rfl

theorem traces_release {c : Call} (scope : Scope) : Traces s (s.release i scope) c := by
  obtain ⟨locks, he, -⟩ := s.release_cases i scope
  rw [he]
  exact .same (fun _ => rfl) rfl rfl

theorem traces_updateDeployment {w : Site} {r : Option StoreError}
    (h : s.updateDeployment i w d x = (r, s')) : Traces s s' (.updateDeployment w d) := by
  obtain ⟨rfl, -⟩ | ⟨d', row, store, -, hrow, -, hfind, -, rfl⟩ := State.updateDeployment_cases h
  · exact .refl
  · have hsame : (row.updated d' x.now).origin = row.origin := rfl
    have horigin := Store.origin_put hrow hsame hfind
    obtain ⟨-, he⟩ | ⟨-, tickets, -, he⟩ := s.record_cases i w d x.lost
    all_goals
      rw [he]
      exact .same horigin rfl rfl

theorem traces_commitCreate {event : DeploymentEvent} {r : Option StoreError}
    (h : s.commitCreate i d event x = (r, s')) : Traces s s' (.commitCreate d event) := by
  unfold State.commitCreate at h
  rcases hc : commitAdmission (s.store.createDeployment d x.now) event x with e | st'
  · rw [hc] at h
    cases h
    exact traces_release d.scope
  · rw [hc] at h
    cases h
    obtain ⟨st, hcreate, hdeployments⟩ := commitAdmission_ok hc
    obtain ⟨hnone, horigin⟩ := Store.origin_create hcreate
    obtain ⟨locks, he, -⟩ := s.release_cases i d.scope
    rw [he]
    exact .create hnone (fun k => (Store.origin_of_deployments hdeployments k).trans (horigin k))
      rfl rfl

theorem traces_commitRetry {expiresAt : Time} {event : DeploymentEvent} {r : Option StoreError}
    (h : s.commitRetry i d expiresAt event x = (r, s')) :
    Traces s s' (.commitRetry d expiresAt event) := by
  unfold State.commitRetry at h
  rcases hc : commitAdmission (s.store.retryDeployment d expiresAt x.now) event x with e | st'
  · rw [hc] at h
    cases h
    exact traces_release d.scope
  · rw [hc] at h
    cases h
    obtain ⟨st, hretry, hdeployments⟩ := commitAdmission_ok hc
    obtain ⟨-, -, row, expiresAt', hrow, -, -, -, rfl⟩ := Store.retryDeployment_ok hretry
    have hid : row.id = d.id := Store.id_of_find hrow
    have hkey : (row.retried d expiresAt' x.now).id = d.id := hid
    have hsame : (row.retried d expiresAt' x.now).origin = row.origin := rfl
    have horigin : ∀ k, st'.origin k = s.store.origin k := by
      intro k
      refine (Store.origin_of_deployments hdeployments k).trans (Store.origin_put hrow hsame ?_ k)
      exact Store.find_put hrow hkey
    obtain ⟨locks, he, -⟩ := s.release_cases i d.scope
    rw [he]
    exact .same horigin rfl rfl

theorem traces_createRuntime {attempt : Nat} {r : CreateResult}
    (h : s.createRuntime i d.id attempt x = some (r, s')) :
    Traces s s' (.createRuntime d attempt) := by
  simp only [State.createRuntime] at h
  split at h
  · cases h
    exact .same (fun _ => rfl) rfl rfl
  · split at h
    · cases h
      exact .same (fun _ => rfl) rfl rfl
    · cases h

theorem traces_of_serve {c : Call} {a : Reply c}
    (h : serve maxConcurrent i c x s = some (a, s')) : Traces s s' c := by
  cases c with
  | updateDeployment w d =>
    simp only [serve, Option.some.injEq] at h
    split at h
    · cases h
      exact .refl
    · exact traces_updateDeployment h
  | commitCreate d event => exact traces_commitCreate (Option.some.inj h)
  | commitRetry d expiresAt event => exact traces_commitRetry (Option.some.inj h)
  | createRuntime d attempt => exact traces_createRuntime h
  | prune records before =>
    cases h
    split
    · exact .refl
    · exact .prune rfl rfl rfl
  | appendEvent e =>
    cases h
    split
    · exact .refl
    · exact .same (Store.origin_of_deployments (Store.deployments_commit_appendEvent _ _ _)) rfl rfl
  | fillTitle id ref title =>
    cases h
    split
    · exact .refl
    · exact .same (Store.origin_commit_fillTitle _ _ _ _ _) rfl rfl
  | nowAfterLookup d =>
    cases h
    split
    · exact .refl
    · obtain ⟨he, -⟩ | he := s.settle_cases d
      · rw [he]
        exact .refl
      · rw [he]
        exact .same (fun _ => rfl) rfl rfl
  | lockScope scope =>
    simp only [serve, State.lockScope] at h
    split at h
    · cases h
      exact .refl
    · split at h
      · cases h
        exact .same (fun _ => rfl) rfl rfl
      · cases h
  | checkQuota d excludeID =>
    have h := Option.some.inj h
    unfold State.checkQuota at h
    split at h
    · cases h
      exact traces_release d.scope
    · split at h
      · cases h
        exact traces_release d.scope
      · cases h
        exact .refl
  | reconcile d =>
    obtain ⟨r, -, he⟩ := Option.map_eq_some_iff.mp h
    cases he
    exact .refl
  | connect d =>
    have h := Option.some.inj h
    unfold State.connect at h
    split at h
    all_goals
      cases h
      exact .same (fun _ => rfl) rfl rfl
  | close handle =>
    simp only [serve, Option.some.injEq] at h
    split at h
    all_goals
      cases h
      exact .same (fun _ => rfl) rfl rfl
  | respond request r =>
    cases h
    cases request with
    | none => exact .refl
    | some request => exact .answer rfl
  | _ =>
    cases h
    exact .refl

/-! ### Keys -/

def conflictCode : String := "deployment_request_conflict"

/-- The request was refused, other than for a conflict with the deployment that there is. -/
def Response.Refused : Response → Prop
  | .error _ code _ => code ≠ conflictCode
  | _ => False

/-- The key was used for a different request. -/
def Response.Conflicts : Response → Prop
  | .error _ code _ => code = conflictCode
  | _ => False

/-- The answer is the deployment with the id. -/
def Response.Delivers (id : String) : Response → Prop
  | .deployment _ d => d.id = id
  | _ => False

structure Client where
  accountID : Nat
  key : String
  deriving DecidableEq, Repr

def CreateRequest.client (request : CreateRequest) : Client := ⟨request.accountID, request.key⟩

variable (settings : Settings) (client : Client)

def Settings.idOf : String := settings.deploymentID client.accountID client.key

/-- The step does not prune the deployment of the client, and a random id is not that of its
key. -/
def Retains (c : Call) (x : Choice) (s : State) : Prop :=
  match c with
  | .prune records before =>
    (s.store.pruneDeployments records before).find (settings.idOf client) =
      s.store.find (settings.idOf client)
  | .newDeploymentID => trimSpace x.text ≠ settings.idOf client
  | _ => True

instance (c : Call) (x : Choice) (s : State) : Decidable (Retains settings client c x s) := by
  unfold Retains
  split <;> infer_instance

/-- The answer is right for a deployment that was created for `origin`, if there is one. -/
def Suits (origin : Option Origin) (request : CreateRequest) (r : Response) : Prop :=
  (r.Delivers (settings.idOf client) ∧ origin = some (request.origin settings)) ∨
  (r.Conflicts ∧ ∃ o, origin = some o ∧ o ≠ request.origin settings) ∨ r.Refused

/-- The client has used its id at most once, and all its requests were answered alike. -/
structure Once (s : State) : Prop where
  used : s.usedIDs.count (settings.idOf client) ≤ 1
  unused : s.store.origin (settings.idOf client) = none → settings.idOf client ∉ s.usedIDs
  created : ∀ o, s.store.origin (settings.idOf client) = some o →
    ∃ request : CreateRequest, request.client = client ∧ request.origin settings = o
  answers : ∀ request r, (request, r) ∈ s.answers → request.client = client →
    Suits settings client (s.store.origin (settings.idOf client)) request r

variable {settings client}

/-- What was an answer stays one when the deployment is created. -/
theorem Suits.mono {o o' : Option Origin} {request : CreateRequest} {r : Response}
    (h : Suits settings client o request r) (ho : o = none ∨ o' = o) :
    Suits settings client o' request r := by
  rcases ho with rfl | rfl
  · rcases h with ⟨-, ho⟩ | ⟨-, o, ho, -⟩ | hrefused
    · cases ho
    · cases ho
    · exact .inr (.inr hrefused)
  · exact h

/-! ### The outline -/

section Outline

variable (settings client)

/-- A deployment is created for the client by its own requests only, and they are answered by
what is known of it. -/
def mayCreate (κ : List Origin) : Call → Prop
  | .commitCreate d _ => trimSpace d.id = settings.idOf client →
    ∃ request : CreateRequest, request.client = client ∧ request.origin settings = d.origin
  | .respond (some request) r => request.client = client →
    (r.Delivers (settings.idOf client) ∧ request.origin settings ∈ κ) ∨
    (r.Conflicts ∧ ∃ o ∈ κ, o ≠ request.origin settings) ∨ r.Refused
  | _ => True

def tellsID : (c : Call) → Reply c → Prop
  | .getDeployment _ id, .ok d => d.id = trimSpace id
  | .newDeploymentID, text => trimSpace text ≠ settings.idOf client
  | _, _ => True

def learnOrigin (κ : List Origin) : (c : Call) → Reply c → List Origin
  | .getDeployment _ id, .ok d => if trimSpace id = settings.idOf client then d.origin :: κ else κ
  | .commitCreate d _, none =>
    if trimSpace d.id = settings.idOf client then d.origin :: κ else κ
  | _, _ => κ

/-- The threads know what the deployment of the client was created for. -/
def originOutline : Outline (machine settings) (List Origin) where
  ok _ c x s := Retains settings client c x s
  inv := Once settings client
  holds _ κ s := ∀ o ∈ κ, s.store.origin (settings.idOf client) = some o
  effect _ s s' := s.store.origin (settings.idOf client) = none ∨
    s'.store.origin (settings.idOf client) = s.store.origin (settings.idOf client)
  may := mayCreate settings client
  tells _ := tellsID settings client
  learn := learnOrigin settings client

variable {settings client}

/-- A step leaves the origin of the client's deployment as it is, once there is one. -/
theorem Traces.origin {c : Call} (h : Traces s s' c) (hretains : Retains settings client c x s) :
    s.store.origin (settings.idOf client) = none ∨
      s'.store.origin (settings.idOf client) = s.store.origin (settings.idOf client) := by
  cases h with
  | same horigin => exact .inr (horigin _)
  | prune hstore =>
    right
    rw [hstore, Store.origin, hretains, Store.origin]
  | @create d event hnone horigin =>
    by_cases hid : settings.idOf client = trimSpace d.id
    · exact .inl (hid ▸ hnone)
    · exact .inr ((horigin _).trans (if_neg hid))
  | answer hs' => exact .inr (hs' ▸ rfl)

/-- A step keeps the client to one deployment. -/
theorem Once.step {c : Call} {κ : List Origin} (h : Once settings client s) (ht : Traces s s' c)
    (hκ : ∀ o ∈ κ, s.store.origin (settings.idOf client) = some o)
    (hmay : mayCreate settings client κ c) (hretains : Retains settings client c x s) :
    Once settings client s' := by
  have hkept := ht.origin hretains
  have hanswers : s'.answers = s.answers → ∀ request r, (request, r) ∈ s'.answers →
      request.client = client →
        Suits settings client (s'.store.origin (settings.idOf client)) request r := by
    intro he request r hmem hclient
    exact (h.answers request r (he ▸ hmem) hclient).mono hkept
  cases ht with
  | same horigin hused hlog =>
    refine ⟨hused ▸ h.used, ?_, ?_, hanswers hlog⟩
    · rw [horigin, hused]
      exact h.unused
    · rw [horigin]
      exact h.created
  | @prune records before hstore hused hlog =>
    have horigin : s'.store.origin (settings.idOf client) =
        s.store.origin (settings.idOf client) := by
      rw [hstore, Store.origin, hretains, Store.origin]
    refine ⟨hused ▸ h.used, ?_, ?_, hanswers hlog⟩
    · rw [horigin, hused]
      exact h.unused
    · rw [horigin]
      exact h.created
  | @create d event hnone horigin hused hlog =>
    by_cases hid : trimSpace d.id = settings.idOf client
    · have hnew : s'.store.origin (settings.idOf client) = some d.origin :=
        (horigin _).trans (if_pos hid.symm)
      have hunused := h.unused (hid ▸ hnone)
      refine ⟨?_, ?_, ?_, hanswers hlog⟩
      · rw [hused, hid, List.count_cons_self, List.count_eq_zero_of_not_mem hunused]
      · rw [hnew]
        exact fun he => nomatch he
      · rw [hnew]
        rintro o ⟨⟩
        exact hmay hid
    · have hsame : s'.store.origin (settings.idOf client) =
          s.store.origin (settings.idOf client) := (horigin _).trans (if_neg fun he => hid he.symm)
      refine ⟨?_, ?_, ?_, hanswers hlog⟩
      · rw [hused, List.count_cons_of_ne hid]
        exact h.used
      · rw [hsame, hused, List.mem_cons]
        exact fun he => not_or.mpr ⟨fun heq => hid heq.symm, h.unused he⟩
      · rw [hsame]
        exact h.created
  | @answer request r hs' =>
    subst hs'
    refine ⟨h.used, h.unused, h.created, fun request' r' hmem hclient => ?_⟩
    rcases List.mem_cons.mp hmem with he | hmem
    · cases he
      rcases hmay hclient with ⟨hd, ho⟩ | ⟨hc, o, ho, hne⟩ | hrefused
      · exact .inl ⟨hd, hκ _ ho⟩
      · exact .inr (.inl ⟨hc, o, hκ _ ho, hne⟩)
      · exact .inr (.inr hrefused)
    · exact h.answers request' r' hmem hclient

/-- A deployment that was read has the id that was asked for, and its origin is that of the row. -/
theorem find_of_getDeployment {purpose : Purpose} {k : String}
    (h : serve maxConcurrent i (.getDeployment purpose k) x s = some (.ok d, s')) :
    s' = s ∧ s.store.find (trimSpace k) = some d := by
  simp only [serve, Option.some.injEq, Prod.mk.injEq] at h
  obtain ⟨hr, hs⟩ := h
  refine ⟨hs.symm, ?_⟩
  split at hr
  · cases hr
  · split at hr
    · cases hr
    · rename_i row hrow
      cases hr
      exact hrow

theorem origin_of_commitCreate {event : DeploymentEvent}
    (h : serve maxConcurrent i (.commitCreate d event) x s = some (none, s')) :
    s'.store.origin (trimSpace d.id) = some d.origin := by
  have h := Option.some.inj h
  unfold State.commitCreate at h
  rcases hc : commitAdmission (s.store.createDeployment d x.now) event x with e | st'
  · rw [hc] at h
    cases h
  · rw [hc] at h
    obtain ⟨st, hcreate, hdeployments⟩ := commitAdmission_ok hc
    have hs : s'.store = st' := by
      rw [← (Prod.mk.inj h).2]
    rw [hs, Store.origin_of_deployments hdeployments, (Store.origin_create hcreate).2, if_pos rfl]

theorem tellsID_of_serve {c : Call} {a : Reply c}
    (h : serve maxConcurrent i c x s = some (a, s')) (hretains : Retains settings client c x s) :
    tellsID settings client c a := by
  cases c with
  | getDeployment purpose k =>
    cases a with
    | error e => trivial
    | ok d => exact Store.id_of_find (find_of_getDeployment h).2
  | newDeploymentID =>
    cases h
    exact hretains
  | _ => trivial

theorem learnOrigin_of_serve {c : Call} {a : Reply c} {κ : List Origin}
    (h : serve maxConcurrent i c x s = some (a, s'))
    (hκ : ∀ o ∈ κ, s'.store.origin (settings.idOf client) = some o) :
    ∀ o ∈ learnOrigin settings client κ c a,
      s'.store.origin (settings.idOf client) = some o := by
  -- Only two calls teach something, and both show the row itself.
  have hcons : ∀ {o' : Origin}, s'.store.origin (settings.idOf client) = some o' →
      ∀ o ∈ o' :: κ, s'.store.origin (settings.idOf client) = some o := by
    intro o' ho' o hmem
    rcases List.mem_cons.mp hmem with rfl | hmem
    · exact ho'
    · exact hκ o hmem
  cases c with
  | getDeployment purpose k =>
    cases a with
    | error e => exact hκ
    | ok d =>
      obtain ⟨rfl, hfind⟩ := find_of_getDeployment h
      simp only [learnOrigin]
      split
      · rename_i hid
        exact hcons (hid ▸ Store.origin_of_find hfind)
      · exact hκ
  | commitCreate d event =>
    cases a with
    | some e => exact hκ
    | none =>
      simp only [learnOrigin]
      split
      · rename_i hid
        exact hcons (hid ▸ origin_of_commitCreate h)
      · exact hκ
  | _ => exact hκ

/-! ### The handler -/

theorem follows_plain {α : Type} {Q : List Origin → α → Prop} {κ : List Origin} {c : Call}
    {f : Reply c → Prog Reply α} (hm : mayCreate settings client κ c)
    (hl : ∀ a, learnOrigin settings client κ c a = κ)
    (hf : ∀ a, tellsID settings client c a → (originOutline settings client).Follows Q κ (f a)) :
    (originOutline settings client).Follows Q κ (ask c >>= f) := by
  refine Outline.follows_ask_bind hm fun a ha => ?_
  have he : (originOutline settings client).learn κ c a = κ := hl a
  rw [he]
  exact hf a ha

theorem follows_answer {κ : List Origin} {request : CreateRequest} {r : Response}
    (h : mayCreate settings client κ (.respond (some request) r)) :
    (originOutline settings client).Follows (fun _ _ => True) κ (ask (.respond (some request) r)) :=
  Outline.follows_ask _ _ h fun _ _ => trivial

theorem follows_refusal {κ : List Origin} {request : CreateRequest} {status : Nat}
    {code message : String} (h : code ≠ conflictCode) :
    (originOutline settings client).Follows (fun _ _ => True) κ
      (ask (.respond (some request) (.error status code message))) :=
  follows_answer fun _ => .inr (.inr h)

/-- The id that a request creates its deployment under is that of the client if and only if the
request is. -/
structure Names (settings : Settings) (client : Client) (id : String) (request : CreateRequest) :
    Prop where
  own : request.client = client → id = settings.idOf client ∧ trimSpace id = id
  other : trimSpace id = settings.idOf client → request.client = client

theorem origin_ne_of_conflict {saved : Deployment} {request : CreateRequest}
    (h : saved.accountID ≠ request.accountID ∨
      saved.githubInstallationID ≠ request.identity.installationID ∨
      saved.repositoryID ≠ request.identity.repositoryID ∨
      saved.createRequestHash ≠ settings.requestHash request.identity) :
    saved.origin ≠ request.origin settings := by
  intro he
  obtain ⟨ha, hi, hr, hh⟩ := Origin.mk.inj he
  rcases h with h | h | h | h
  · exact h ha
  · exact h hi
  · exact h hr
  · exact h hh

theorem origin_eq_of_no_conflict {saved : Deployment} {request : CreateRequest}
    (h : ¬(saved.accountID ≠ request.accountID ∨
      saved.githubInstallationID ≠ request.identity.installationID ∨
      saved.repositoryID ≠ request.identity.repositoryID ∨
      saved.createRequestHash ≠ settings.requestHash request.identity)) :
    request.origin settings = saved.origin := by
  simp only [not_or, not_not] at h
  obtain ⟨ha, hi, hr, hh⟩ := h
  simp only [CreateRequest.origin, Deployment.origin, ha, hi, hr, hh]

variable {request : CreateRequest} {κ : List Origin}

theorem follows_replay (hn : Names settings client id request) :
    (originOutline settings client).Follows (fun _ _ => True) κ
      (writeDeploymentReplay settings id request) := by
  have hdone : ∀ {κ : List Origin} {answered : Bool}, (originOutline settings client).Follows
      (fun _ _ => True) κ (pure answered) := Outline.follows_pure trivial
  refine Outline.follows_ask_bind trivial fun a ha => ?_
  cases a with
  | error e =>
    dsimp only
    split
    · exact hdone
    · exact (follows_refusal (by decide)).bind fun _ _ _ => hdone
    · rename_i he
      cases he
  | ok saved =>
    have hid : saved.id = trimSpace id := ha
    have hmem : request.client = client → saved.origin ∈
        (originOutline settings client).learn κ (.getDeployment .act id) (.ok saved) := by
      intro hclient
      obtain ⟨hown, htrim⟩ := hn.own hclient
      have hlearn : (originOutline settings client).learn κ (.getDeployment .act id) (.ok saved) =
          saved.origin :: κ := if_pos (htrim.trans hown)
      rw [hlearn]
      exact List.mem_cons_self
    dsimp only
    split
    · rename_i hconflict
      refine (follows_answer fun hclient => ?_).bind fun _ _ _ => hdone
      exact .inr (.inl ⟨rfl, saved.origin, hmem hclient, origin_ne_of_conflict hconflict⟩)
    · rename_i hsame
      refine (follows_answer fun hclient => .inl ⟨?_, ?_⟩).bind fun _ _ _ => hdone
      · obtain ⟨hown, htrim⟩ := hn.own hclient
        exact hid.trans (htrim.trans hown)
      · exact origin_eq_of_no_conflict hsame ▸ hmem hclient

theorem follows_admission (hcreator : trimSpace d.id = settings.idOf client →
      ∃ request : CreateRequest, request.client = client ∧ request.origin settings = d.origin) :
    (originOutline settings client).Follows
      (fun κ err => err = none → trimSpace d.id = settings.idOf client → d.origin ∈ κ) κ
      (createDeploymentWithScopeLimit d) := by
  have hrefused : ∀ {κ : List Origin} {e : StoreError}, (originOutline settings client).Follows
      (fun κ err => err = none → trimSpace d.id = settings.idOf client → d.origin ∈ κ) κ
      (pure (some e)) := Outline.follows_pure fun he => nomatch he
  refine Outline.follows_ask_bind trivial fun found _ => ?_
  generalize (originOutline settings client).learn κ _ found = κ
  split
  · exact hrefused
  · refine follows_plain trivial (fun _ => rfl) fun locked _ => ?_
    rcases locked with _ | e
    · refine follows_plain trivial (fun _ => rfl) fun counted _ => ?_
      rcases counted with _ | e
      · refine Outline.follows_ask _ (Call.commitCreate d _) hcreator ?_
        intro a _ hnone hid
        subst hnone
        have hlearn : ∀ event, (originOutline settings client).learn κ (.commitCreate d event) none =
            d.origin :: κ := fun _ => if_pos hid
        rw [hlearn]
        exact List.mem_cons_self
      · exact hrefused
    · exact hrefused
  · exact hrefused

theorem follows_refused (hn : Names settings client id request) (e : StoreError) :
    (originOutline settings client).Follows (fun _ _ => True) κ
      (respondRefused settings id request e) := by
  have hend : ∀ {κ : List Origin} {answered : Bool},
      (originOutline settings client).Follows (fun _ _ => True) κ
        (if answered then pure () else
          ask (.respond (some request) (.error 500 "" "persist deployment"))) := by
    intro κ answered
    split
    · exact Outline.follows_pure trivial
    · exact follows_refusal (by decide)
  unfold respondRefused
  split
  · exact follows_refusal (by decide)
  · split
    · exact (follows_replay hn).bind fun _ _ _ => hend
    · exact Outline.Follows.bind (Q := fun _ _ => True) (fun _ _ _ => hend)
        (Outline.follows_pure trivial)

theorem origin_newDeployment (settings : Settings) (id : String) (request : CreateRequest)
    (input : CreateInput) (templateID : String) (resolved : Resolved) (now : Time) :
    (newDeployment settings id request input templateID resolved now).origin =
      request.origin settings := rfl

theorem follows_admit (hn : Names settings client id request) (input : CreateInput)
    (resolved : Resolved) :
    (originOutline settings client).Follows (fun _ _ => True) κ
      (admitDeployment settings id request input resolved) := by
  unfold admitDeployment
  extract_lets templateID
  split
  · exact follows_refusal (by decide)
  · refine follows_plain trivial (fun _ => rfl) fun service _ => ?_
    split
    · exact follows_refusal (by decide)
    · refine follows_plain trivial (fun _ => rfl) fun template _ => ?_
      split
      · exact follows_refusal (by decide)
      · refine follows_plain trivial (fun _ => rfl) fun source _ => ?_
        split
        · exact follows_refusal (by decide)
        · refine follows_plain trivial (fun _ => rfl) fun now _ => ?_
          have horigin := origin_newDeployment settings id request input templateID resolved now
          have hid : (newDeployment settings id request input templateID resolved now).id = id := rfl
          extract_lets d
          change d.origin = _ at horigin
          change d.id = _ at hid
          clear_value d
          refine Outline.Follows.bind ?_ (follows_admission fun h =>
            ⟨request, hn.other (hid ▸ h), horigin.symm⟩)
          intro κ err herr
          rcases err with _ | e
          · refine follows_answer fun hclient => .inl ?_
            obtain ⟨hown, htrim⟩ := hn.own hclient
            refine ⟨hid.trans hown, horigin ▸ herr rfl ?_⟩
            rw [hid, htrim, hown]
          · exact follows_refused hn e

theorem mayCreate_of_apart (κ : List Origin) (c : Call) (h : c.Apart) :
    mayCreate settings client κ c := by
  cases c with
  | commitCreate d event => exact h.elim
  | respond request r =>
    cases request with
    | none => trivial
    | some request => exact h.elim
  | _ => trivial

/-- The ids of other clients are others. -/
structure Settings.Separates (settings : Settings) (client : Client) : Prop where
  injective : ∀ other, settings.idOf other = settings.idOf client → other = client
  trimmed : ∀ other, trimSpace (settings.idOf other) = settings.idOf other

theorem follows_create (hkey : client.key ≠ "") (hsep : settings.Separates client)
    (accountID : Nat) (key : String) (input : CreateInput) :
    (originOutline settings client).Follows (fun _ _ => True) κ
      (handleUserCreateDeployment settings accountID key input) := by
  have hnone : ∀ {κ : List Origin} {r : Response}, (originOutline settings client).Follows
      (fun _ _ => True) κ (ask (.respond none r)) :=
    Outline.follows_of_only mayCreate_of_apart (only_respond _)
  unfold handleUserCreateDeployment
  split
  · exact hnone
  · extract_lets input key
    split
    · exact hnone
    · refine follows_plain trivial (fun _ => rfl) fun authorized _ => ?_
      split
      · exact hnone
      · refine follows_plain trivial (fun _ => rfl) fun resolved _ => ?_
        extract_lets request rest
        have hrest : ∀ {κ : List Origin} {id : String}, Names settings client id request →
            (originOutline settings client).Follows (fun _ _ => True) κ (rest id) := by
          intro κ id hn
          have hadmit : ∀ {κ : List Origin} {answered : Bool},
              (originOutline settings client).Follows (fun _ _ => True) κ
                (if answered then pure () else
                  admitDeployment settings id request input resolved) := by
            intro κ answered
            split
            · exact Outline.follows_pure trivial
            · exact follows_admit hn input resolved
          simp only [rest]
          split
          · exact (follows_replay hn).bind fun _ _ _ => hadmit
          · exact Outline.Follows.bind (Q := fun _ _ => True) (fun _ _ _ => hadmit)
              (Outline.follows_pure trivial)
        by_cases hempty : key = ""
        · rw [if_pos hempty]
          -- A random id is that of no client.
          refine follows_plain trivial (fun _ => rfl) fun id hid => hrest ⟨?_, ?_⟩
          · rintro rfl
            exact absurd hempty hkey
          · exact fun he => absurd he hid
        · rw [if_neg hempty]
          refine Outline.Follows.bind (Q := fun _ id => id = settings.idOf request.client) ?_
            (Outline.follows_pure rfl)
          rintro κ id rfl
          refine hrest ⟨?_, ?_⟩
          · intro hclient
            exact ⟨congrArg settings.idOf hclient, hsep.trimmed _⟩
          · intro hid
            exact hsep.injective _ ((hsep.trimmed _).symm.trans hid)

theorem originOutline_sound (hkey : client.key ≠ "") (hsep : settings.Separates client) :
    (originOutline settings client).Sound fun _ => [] where
  serve := by
    intro i κ c x a s s' hinv hκ hmay hretains hs
    have ht := traces_of_serve hs
    have hkept := ht.origin hretains
    have hκ' : ∀ o ∈ κ, s'.store.origin (settings.idOf client) = some o := by
      intro o ho
      rcases hkept with hnone | hsame
      · exact absurd ((hκ o ho).symm.trans hnone) (Option.some_ne_none o)
      · exact hsame.trans (hκ o ho)
    exact ⟨tellsID_of_serve hs hretains, hinv.step ht hκ hmay hretains,
      learnOrigin_of_serve hs hκ', hkept⟩
  stable := by
    intro i j κ s s' _ _ _ hkept hκ o ho
    rcases hkept with hnone | hsame
    · exact absurd ((hκ o ho).symm.trans hnone) (Option.some_ne_none o)
    · exact hsame.trans (hκ o ho)
  fresh_holds _ _ _ ho := nomatch ho
  restart_inv h := ⟨h.used, h.unused, h.created, h.answers⟩
  follows op := by
    by_cases hop : ∀ accountID key input, op ≠ .create accountID key input
    · exact Outline.follows_of_only mayCreate_of_apart (only_prog settings hop)
    · simp only [not_forall, not_not] at hop
      obtain ⟨accountID, key, input, rfl⟩ := hop
      exact follows_create hkey hsep accountID key input

end Outline

/-! ### One deployment -/

theorem Once.initial (h : st.find (settings.idOf client) = none) :
    Once settings client (State.initial st) := by
  have horigin : st.origin (settings.idOf client) = none := by
    rw [Store.origin, h, Option.map_none]
  have hunused : settings.idOf client ∉ (State.initial st).usedIDs := by
    intro hmem
    obtain ⟨d, hd, hid⟩ := List.mem_map.mp hmem
    have hfind : st.find d.id = some d := Table.find_of_mem hd
    rw [hid, h] at hfind
    cases hfind
  refine ⟨?_, fun _ => hunused, ?_, fun _ _ hmem => nomatch hmem⟩
  · rw [List.count_eq_zero_of_not_mem hunused]
    exact Nat.zero_le 1
  · intro o ho
    exact absurd (ho.symm.trans horigin) (Option.some_ne_none o)

/-- There are no more identities than texts. -/
theorem exists_digest : ∃ digest : RequestIdentity → String, Function.Injective digest := by
  have hchar : Countable Char := ⟨Char.toNat, fun _ _ => Char.toNat_inj.mp⟩
  have hinj : Function.Injective String.toList := fun _ _ => String.toList_inj.mp
  have htext : Countable String := hinj.countable
  let fields (r : RequestIdentity) : (Nat × Nat × Nat) × String × String × String × String :=
    ((r.installationID, r.repositoryID, r.ttlSeconds), r.ref, r.commitSHA, r.configPath, r.templateID)
  have hfields : Function.Injective fields := by
    rintro ⟨⟩ ⟨⟩ h
    simpa [fields, and_assoc, and_comm, and_left_comm] using h
  have hidentity : Countable RequestIdentity := hfields.countable
  obtain ⟨number, hnumber⟩ := exists_injective_nat RequestIdentity
  exact ⟨fun r => Infinite.natEmbedding String (number r),
    (Infinite.natEmbedding String).injective.comp hnumber⟩

/-- A server with one known client. -/
noncomputable def oneClient : Settings :=
  { oneAtATime with
    deploymentID := fun accountID key => if accountID = 1 ∧ key = "k" then "k" else "other"
    requestHash := exists_digest.choose }

theorem oneClient_separates : oneClient.Separates ⟨1, "k"⟩ where
  injective := by
    rintro ⟨accountID, key⟩ h
    by_cases hc : accountID = 1 ∧ key = "k"
    · rw [hc.1, hc.2]
    · simp [Settings.idOf, oneClient, hc] at h
  trimmed := by
    rintro ⟨accountID, key⟩
    simp only [Settings.idOf, oneClient]
    split <;> decide +kernel

end CiRunner.Deployments
