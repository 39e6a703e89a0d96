import CiRunner.Catalog.Admission

/-! Admission and start agree on the Runner Spec of a job. The specs the store accepts carry
normalized labels, so the spec that admission finds by the key of the labels also matches them
label by label, as the start demands, unless one of them is blank: the key passes over blank
labels, the comparison does not. -/

namespace CiRunner.Catalog

open Tables Text State

variable {Key : Type} {lower : String → String} {digest : List String → Key}

/-! ### What a match says -/

theorem selectMatchingProfile_some {profiles : List RunnerProfile} {labels : List String}
    {p : RunnerProfile} (h : selectMatchingProfile lower profiles labels = some p) :
    p ∈ profiles ∧ p.enabled = true ∧ labelsMatch lower p.requiredLabels labels = true ∧
      labelsMatch lower labels p.labels = true := by
  have hmem := mem_ordered.mp (List.mem_of_head? h)
  simp only [Bool.and_eq_true] at hmem
  exact ⟨hmem.1, hmem.2.1.1, hmem.2.1.2, hmem.2.2⟩

theorem profileMatchFromCandidates_profile (repository : String) (labels : List String)
    (profiles : List RunnerProfile) :
    (profileMatchFromCandidates lower repository labels profiles).profile =
      selectMatchingProfile lower profiles labels := by
  unfold profileMatchFromCandidates
  split <;> simp_all

theorem Specs.getProfile_of_mem_listProfiles {s : Specs Key} (hs : s.WellFormed lower digest)
    {p : RunnerProfile} (h : p ∈ s.listProfiles) : s.getProfile p.name = .ok p := by
  obtain ⟨record, hr, rfl⟩ := List.mem_map.mp h
  have hfind := Table.find_of_mem (mem_ordered.mp hr).1
  have hname : (normalizeProfilePolicy record).name = record.name := by
    unfold normalizeProfilePolicy
    split_ifs <;> rfl
  rw [Specs.getProfile, hname, hs.name hfind, hfind]

/-- The spec of a match is a global one that the labels match, or one of the scope with the key
of the labels. -/
inductive Matches (lower : String → String) (digest : List String → Key) (s : Specs Key)
    (labels : List String) (found : ProfileMatch) : RunnerProfile → Prop
  | global {p : RunnerProfile} (source : found.source = "global") (mem : p ∈ s.listProfiles)
      (enabled : p.enabled = true)
      (required : labelsMatch lower p.requiredLabels labels = true)
      (available : labelsMatch lower labels p.labels = true) : Matches lower digest s labels found p
  | custom {row : ScopedRunnerProfile Key} {normalized : List String}
      (source : found.source = "scoped_custom")
      (valid : validateRunnerProfileScope row.scope = .ok ())
      (scopeType : found.scopeType = row.scope.type) (scopeID : found.scopeID = row.scope.id)
      (find : s.scopedProfiles.find row.key = some row) (enabled : row.enabled = true)
      (key : normalizeWorkflowLabels lower digest labels = .ok (normalized, row.labelKey)) :
      Matches lower digest s labels found row.runnerProfile

variable [DecidableEq Key]

theorem Specs.matches_matchProfileForScope {s : Specs Key} {scope : RunnerProfileScope}
    {repository : String} {labels : List String} {found : ProfileMatch} {p : RunnerProfile}
    (h : s.matchProfileForScope lower digest scope repository labels = .ok found)
    (hp : found.profile = some p) : Matches lower digest s labels found p := by
  unfold matchProfileForScope listScopedProfiles at h
  cases hv : validateRunnerProfileScope scope with
  | error => rw [hv] at h; cases h
  | ok =>
    rw [hv] at h
    dsimp only [bind, Except.bind, pure, Except.pure] at h
    split at h
    · rename_i row hrow
      split at h
      · rename_i hen
        cases h
        cases hp
        split at hrow
        · rename_i normalized key hnorm
          have hkey : row.labelKey = key := by simpa using List.find?_some hrow
          obtain ⟨hmem, hscope⟩ := mem_ordered.mp (List.mem_of_find?_eq_some hrow)
          have hscope : row.scope = scope := by simpa using hscope
          subst hscope hkey
          exact .custom rfl hv rfl rfl (Table.find_of_mem hmem) hen hnorm
        · cases hrow
      · cases h
        cases hp
    · cases h
      rw [profileMatchFromCandidates_profile] at hp
      obtain ⟨hmem, hen, hreq, hlab⟩ := selectMatchingProfile_some hp
      exact .global rfl hmem hen hreq hlab

theorem Specs.matches_matchProfileForAdmission {s : Specs Key} {inst : Installations}
    {repository : String} {installationID : Int} {labels : List String} {found : ProfileMatch}
    {p : RunnerProfile}
    (h : s.matchProfileForAdmission lower digest inst repository installationID labels = .ok found)
    (hp : found.profile = some p) : Matches lower digest s labels found p := by
  unfold matchProfileForAdmission at h
  split at h
  · exact matches_matchProfileForScope h hp
  · cases h
    rw [matchProfile, profileMatchFromCandidates_profile] at hp
    obtain ⟨hmem, hen, hreq, hlab⟩ := selectMatchingProfile_some hp
    exact .global rfl hmem hen hreq hlab

/-! ### What the start makes of it -/

/-- The request that admission creates for a job that matched the spec. -/
def matchedRequest (repository : String) (installationID : Int) (job : WorkflowJob)
    (found : ProfileMatch) (p : RunnerProfile) : RunnerRequest where
  id := sanitizeID (toString job.id)
  source := "github_webhook"
  jobID := job.id
  githubInstallationID := installationID
  repositoryFullName := repository
  requestedLabels := if job.labels.isEmpty then p.labels else job.labels
  labels := p.labels
  profileName := p.name
  profileSource := found.source
  profileScopeType := found.scopeType
  profileScopeID := found.scopeID
  runnerGroup := p.runnerGroup

theorem labelsMatch_self (labels : List String) : labelsMatch lower labels labels = true :=
  labelsMatch_iff.mpr fun label hl => ⟨label, hl, rfl⟩

theorem validateRequestedProfile_ok {p : RunnerProfile} {labels : List String}
    (hen : p.enabled = true) (hreq : labelsMatch lower p.requiredLabels labels = true)
    (hlab : labelsMatch lower labels p.labels = true) :
    validateRequestedProfile lower p (if labels.isEmpty then p.labels else labels) = .ok () := by
  unfold validateRequestedProfile
  cases labels with
  | nil =>
    -- nothing is required of a job without labels, so the labels of the spec are enough
    have hnone : p.requiredLabels = [] := by
      rw [labelsMatch_iff] at hreq
      refine List.eq_nil_iff_forall_not_mem.mpr fun label hl => ?_
      obtain ⟨r, hr, -⟩ := hreq label hl
      cases hr
    have hself := @labelsMatch_self lower p.labels
    have hempty : labelsMatch lower [] p.labels = true := rfl
    simp only [hen, hnone, hself, hempty, List.isEmpty_nil, if_true, not_true_eq_false, if_false,
      or_self, and_false]
  | cons label labels => simp [hen, hreq, hlab]

omit [DecidableEq Key] in
theorem Store.startProfile_of_matches {s : Store Key} (hs : s.WellFormed lower digest)
    (hdigest : Function.Injective digest) {repository : String} {installationID : Int}
    {job : WorkflowJob} {found : ProfileMatch} {p : RunnerProfile}
    (h : Matches lower digest s.toSpecs job.labels found p)
    (hblank : found.source = "scoped_custom" → ∀ label ∈ job.labels, trimSpace label ≠ "") :
    s.startProfile lower (matchedRequest repository installationID job found p) = .ok p := by
  cases h with
  | global source mem enabled required available =>
    have hload : s.profileForRunnerRequest
        (matchedRequest repository installationID job found p) = .ok p := by
      simp only [Specs.profileForRunnerRequest, matchedRequest, source, or_true, if_true]
      exact Specs.getProfile_of_mem_listProfiles hs mem
    simp only [Store.startProfile, hload]
    have hvalid := validateRequestedProfile_ok enabled required available
    simp only [matchedRequest, hvalid]
    rfl
  | @custom row normalized source valid scopeType scopeID find enabled key =>
    obtain ⟨raw, hraw⟩ := hs.labels find
    obtain ⟨hreq, hlab⟩ := labelsMatch_of_key hdigest key hraw (hblank source)
    have hload : s.profileForRunnerRequest
        (matchedRequest repository installationID job found row.runnerProfile) =
          .ok row.runnerProfile := by
      have htype : row.scope.type ≠ "" := by
        intro h0
        simp [validateRunnerProfileScope, h0] at valid
      have hid : 0 < row.scope.id := by
        by_contra h0
        simp only [validateRunnerProfileScope, not_lt.mp h0, if_true] at valid
        split at valid <;> cases valid
      have hfind : s.scopedProfiles.find (row.scope, trimSpace row.name) = some row := by
        rw [hs.scopedName find]
        exact find
      simp [Specs.profileForRunnerRequest, matchedRequest, source, scopeType, scopeID, htype, hid,
        Specs.getScopedProfile, valid, ScopedRunnerProfile.runnerProfile, hfind, bind, Except.bind,
        pure, Except.pure]
    simp only [Store.startProfile, hload]
    have hvalid : validateRequestedProfile lower row.runnerProfile
        (if job.labels.isEmpty then row.runnerProfile.labels else job.labels) = .ok () :=
      validateRequestedProfile_ok enabled hreq hlab
    simp only [matchedRequest, hvalid]
    rfl

/-! ### Runs of the store -/

/-- What can happen to the specs and the requests. -/
inductive Change (Key : Type) where
  | save (profile : RunnerProfile) (conditional : Bool) (expectedUpdatedAt : Option Nat) (now : Nat)
  | delete (name : String)
  | upsertScoped (profile : ScopedRunnerProfile Key) (expectedUpdatedAt : Option Nat) (now : Nat)
  | deleteScoped (scope : RunnerProfileScope) (name : String) (expectedUpdatedAt : Option Nat)
  | create (req : RunnerRequest)
  | admission (inst : Installations) (repositoryAllowed : Bool) (repository : String)
      (installationID : Int) (job : WorkflowJob)

def Change.ofSpec : Change Key → Bool
  | .create .. | .admission .. => false
  | _ => true

/-- The specs after a change; a refused one leaves them as they are. -/
def Specs.apply (lower : String → String) (digest : List String → Key) (s : Specs Key) :
    Change Key → Specs Key
  | .save profile conditional expectedUpdatedAt now =>
    (s.saveProfile lower profile conditional expectedUpdatedAt now).toOption.getD s
  | .delete name => s.deleteProfile name
  | .upsertScoped profile expectedUpdatedAt now =>
    (s.upsertScopedProfileIfUnchanged lower digest profile expectedUpdatedAt now).toOption.getD s
  | .deleteScoped scope name expectedUpdatedAt =>
    (s.deleteScopedProfileIfUnchanged scope name expectedUpdatedAt).toOption.getD s
  | .create _ | .admission .. => s

def Store.apply (lower : String → String) (digest : List String → Key) (s : Store Key)
    (change : Change Key) : Store Key :=
  match change with
  | .create req => ((s.createRequest req).toOption.map Prod.snd).getD s
  | .admission inst repositoryAllowed repository installationID job =>
    ((s.enqueueWorkflowJob lower digest inst repositoryAllowed repository installationID
      job).toOption.map Prod.snd).getD s
  | change => { s with toSpecs := s.toSpecs.apply lower digest change }

def Store.run (lower : String → String) (digest : List String → Key) (s : Store Key)
    (changes : List (Change Key)) : Store Key := changes.foldl (Store.apply lower digest) s

def Store.empty : Store Key := { Specs.empty with requests := Table.empty }

omit [DecidableEq Key] in
theorem Store.createRequest_ok {s s' : Store Key} {req : RunnerRequest} {created : Bool}
    (h : s.createRequest req = .ok (created, s')) :
    s'.toSpecs = s.toSpecs ∧
      (∀ {k r}, s.requests.find k = some r → s'.requests.find k = some r) ∧
      (created = true → s'.requests.find (sanitizeID req.id) = some { req with
        id := sanitizeID req.id
        requestedLabels := if req.requestedLabels.isEmpty then req.labels
          else req.requestedLabels }) := by
  unfold createRequest at h
  dsimp only at h
  generalize (if req.requestedLabels.isEmpty = true then req.labels
    else req.requestedLabels) = labels at h ⊢
  split_ifs at h with hempty htaken
  · cases h
    exact ⟨rfl, fun h => h, fun hc => by cases hc⟩
  · cases h
    refine ⟨rfl, fun hf => Table.find_insert_of_find hf _, fun _ => ?_⟩
    have hnone : s.requests.find (sanitizeID req.id) = none := by
      rw [not_or, Option.not_isSome_iff_eq_none] at htaken
      exact htaken.1
    rw [Table.find_insert, if_pos rfl, hnone]
    rfl

/-- Admission creates a queued request only for a job that matched, and keeps the others. -/
theorem Store.enqueueWorkflowJob_ok {s s' : Store Key} {inst : Installations}
    {repositoryAllowed : Bool} {repository : String} {installationID : Int} {job : WorkflowJob}
    {created : Bool}
    (h : s.enqueueWorkflowJob lower digest inst repositoryAllowed repository installationID job =
      .ok (created, s')) :
    s'.toSpecs = s.toSpecs ∧
      (∀ {k r}, s.requests.find k = some r → s'.requests.find k = some r) ∧
      (created = true → ∃ found p,
        s.matchProfileForAdmission lower digest inst repository installationID job.labels =
          .ok found ∧ found.profile = some p ∧
        s'.readRequest (toString job.id) =
          some (matchedRequest repository installationID job found p)) := by
  have hreject : ∀ (req : RunnerRequest),
      (s.createRequest req >>= fun out => .ok (false, out.2)) = .ok (created, s') →
      created = false ∧ ∃ c, s.createRequest req = .ok (c, s') := by
    intro req hreq
    cases hc : s.createRequest req with
    | error => rw [hc] at hreq; cases hreq
    | ok out =>
      rw [hc] at hreq
      cases hreq
      exact ⟨rfl, out.1, rfl⟩
  unfold enqueueWorkflowJob at h
  dsimp only at h
  split at h
  · obtain ⟨rfl, c, hc⟩ := hreject _ h
    obtain ⟨hs, hkeep, -⟩ := createRequest_ok hc
    exact ⟨hs, hkeep, fun hc => by cases hc⟩
  · cases hm : s.matchProfileForAdmission lower digest inst repository installationID
      job.labels with
    | error => rw [hm] at h; cases h
    | ok found =>
      rw [hm] at h
      dsimp only [bind, Except.bind] at h
      split at h
      · obtain ⟨rfl, c, hc⟩ := hreject _ h
        obtain ⟨hs, hkeep, -⟩ := createRequest_ok hc
        exact ⟨hs, hkeep, fun hc => by cases hc⟩
      · rename_i p hp
        split at h
        · cases h
          exact ⟨rfl, fun h => h, fun hc => by cases hc⟩
        · obtain ⟨hs, hkeep, hnew⟩ := createRequest_ok h
          exact ⟨hs, hkeep, fun hc => ⟨found, p, rfl, hp, hnew hc⟩⟩

theorem Specs.WellFormed.apply {s : Specs Key} (hs : s.WellFormed lower digest)
    (change : Change Key) : (s.apply lower digest change).WellFormed lower digest := by
  cases change with
  | save profile conditional expectedUpdatedAt now =>
    simp only [Specs.apply]
    cases h : s.saveProfile lower profile conditional expectedUpdatedAt now with
    | error => exact hs
    | ok s' => exact hs.saveProfile h
  | delete name => exact hs.deleteProfile name
  | upsertScoped profile expectedUpdatedAt now =>
    simp only [Specs.apply]
    cases h : s.upsertScopedProfileIfUnchanged lower digest profile expectedUpdatedAt now with
    | error => exact hs
    | ok s' => exact hs.upsertScopedProfileIfUnchanged h
  | deleteScoped scope name expectedUpdatedAt =>
    simp only [Specs.apply]
    cases h : s.deleteScopedProfileIfUnchanged scope name expectedUpdatedAt with
    | error => exact hs
    | ok s' => exact hs.deleteScopedProfileIfUnchanged h
  | create req => exact hs
  | admission => exact hs

theorem Store.apply_cases (s : Store Key) (change : Change Key) :
    (s.apply lower digest change).toSpecs = s.toSpecs.apply lower digest change ∧
      ∀ {k r}, s.requests.find k = some r →
        (s.apply lower digest change).requests.find k = some r := by
  cases change with
  | create req =>
    simp only [Store.apply, Specs.apply]
    cases h : s.createRequest req with
    | error => exact ⟨rfl, fun h => h⟩
    | ok out => exact ⟨(createRequest_ok h).1, (createRequest_ok h).2.1⟩
  | admission inst repositoryAllowed repository installationID job =>
    simp only [Store.apply, Specs.apply]
    cases h : s.enqueueWorkflowJob lower digest inst repositoryAllowed repository installationID
      job with
    | error => exact ⟨rfl, fun h => h⟩
    | ok out => exact ⟨(enqueueWorkflowJob_ok h).1, (enqueueWorkflowJob_ok h).2.1⟩
  | _ =>
    simp only [Store.apply]
    exact ⟨trivial, fun h => h⟩

theorem Store.wellFormed_run {s : Store Key} (hs : s.WellFormed lower digest)
    (changes : List (Change Key)) : (s.run lower digest changes).WellFormed lower digest := by
  induction changes generalizing s with
  | nil => exact hs
  | cons change changes ih =>
    apply ih
    rw [(s.apply_cases change).1]
    exact hs.apply change

theorem Store.run_of_not_ofSpec {changes : List (Change Key)}
    (h : ∀ change ∈ changes, change.ofSpec = false) (s : Store Key) :
    (s.run lower digest changes).toSpecs = s.toSpecs ∧
      ∀ {k r}, s.requests.find k = some r →
        (s.run lower digest changes).requests.find k = some r := by
  induction changes generalizing s with
  | nil => exact ⟨rfl, fun h => h⟩
  | cons change changes ih =>
    obtain ⟨hspecs, hkeep⟩ := @Store.apply_cases Key lower digest _ s change
    obtain ⟨hspecs', hkeep'⟩ := ih (fun c hc => h c (List.mem_cons_of_mem _ hc))
      (s.apply lower digest change)
    have hsame : s.toSpecs.apply lower digest change = s.toSpecs := by
      have hc := h change List.mem_cons_self
      cases change with
      | create => rfl
      | admission => rfl
      | _ => simp [Change.ofSpec] at hc
    exact ⟨hspecs'.trans (hspecs.trans hsame), fun hf => hkeep' (hkeep hf)⟩

/-! ### Agreement -/

/-- The start of the request that admission creates for the job, if it creates one. -/
def Store.startAdmitted (lower : String → String) (digest : List String → Key) (s : Store Key)
    (inst : Installations) (repository : String) (installationID : Int) (job : WorkflowJob) :
    Option (Except StartError RunnerProfile) :=
  match s.enqueueWorkflowJob lower digest inst true repository installationID job with
  | .ok (true, s') => (s'.readRequest (toString job.id)).map (s'.startProfile lower)
  | _ => none

theorem Store.exists_of_startAdmitted {s : Store Key} {inst : Installations} {repository : String}
    {installationID : Int} {job : WorkflowJob} {out : Except StartError RunnerProfile}
    (h : s.startAdmitted lower digest inst repository installationID job = some out) :
    ∃ s' req, s.enqueueWorkflowJob lower digest inst true repository installationID job =
        .ok (true, s') ∧ s'.readRequest (toString job.id) = some req ∧
      s'.startProfile lower req = out := by
  unfold startAdmitted at h
  split at h
  · rename_i s' hs
    obtain ⟨req, hreq, hout⟩ := Option.map_eq_some_iff.mp h
    exact ⟨s', req, hs, hreq, hout⟩
  · cases h

def gpuSpec : ScopedRunnerProfile (List String) where
  scope := ⟨"account", 7⟩
  name := "gpu"
  workflowLabels := ["GPU"]
  labelKey := []

/-- One spec of one account, for jobs with one label. -/
def accountSpecs : Store (List String) :=
  Store.empty.run toLower id [.upsertScoped gpuSpec none 1]

/-- Every installation is that of the account. -/
def personal : Installations := ⟨fun _ => some 7, fun _ => none⟩

end CiRunner.Catalog
