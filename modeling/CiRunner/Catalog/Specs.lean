import CiRunner.Tables.Keyed
import CiRunner.Tables.Pages
import CiRunner.Text
import Mathlib.Data.Prod.Lex
import Mathlib.Data.String.Basic

/-! The Runner Specs of the store. A global spec is found by its name; a scoped one
belongs to an account or an installation and is found by its name or by the key of its
labels. The store keeps the labels of a scoped spec normalized: trimmed, without blanks
and without repetitions up to case, in the order of their lower case, and the key is a
digest of the lower-case list.

Case folding and the digest are parameters: the source takes them from its standard
library. -/

namespace CiRunner.Catalog

open Tables Text

/-! ### Labels -/

section Labels

variable (lower : String → String)

/-- The text under which two labels are compared. -/
def fold (label : String) : String := lower (trimSpace label)

/-- Every label of the first list is one of the second. -/
def labelsMatch (jobLabels required : List String) : Bool :=
  if jobLabels.isEmpty then true
  else
    let available := required.map (fold lower)
    jobLabels.all fun label => available.contains (fold lower label)

/-- The trimmed labels but for blanks and those already seen. -/
def keepLabels (seen : List String) : List String → List String
  | [] => []
  | raw :: labels =>
    let label := trimSpace raw
    if label = "" then keepLabels seen labels
    else if seen.contains (lower label) then keepLabels seen labels
    else label :: keepLabels (lower label :: seen) labels

variable {Key : Type} (digest : List String → Key)

def normalizeWorkflowLabels (labels : List String) : Except String (List String × Key) :=
  let normalized := ordered lower (keepLabels lower [] labels) fun _ => true
  if normalized.isEmpty then .error "workflow labels are required"
  else .ok (normalized, digest (normalized.map lower))

variable {lower}

theorem labelsMatch_iff {jobLabels required : List String} :
    labelsMatch lower jobLabels required = true ↔
      ∀ label ∈ jobLabels, ∃ r ∈ required, fold lower r = fold lower label := by
  unfold labelsMatch
  split
  · simp_all
  · simp

theorem trimSpace_of_mem_keepLabels {seen labels : List String} {label : String}
    (h : label ∈ keepLabels lower seen labels) : trimSpace label = label := by
  fun_induction keepLabels lower seen labels with
  | case1 => cases h
  | case2 _ _ _ _ _ ih => exact ih h
  | case3 _ _ _ _ _ _ ih => exact ih h
  | case4 _ raw _ _ _ _ ih =>
    rcases List.mem_cons.mp h with rfl | h
    · exact trimSpace_trimSpace raw
    · exact ih h

theorem mem_map_keepLabels {seen labels : List String} {x : String} :
    x ∈ (keepLabels lower seen labels).map lower ↔
      x ∉ seen ∧ ∃ raw ∈ labels, trimSpace raw ≠ "" ∧ fold lower raw = x := by
  fun_induction keepLabels lower seen labels with
  | case1 => simp
  | case2 seen raw labels label hblank ih =>
    rw [ih]
    simp [show trimSpace raw = "" from hblank]
  | case3 seen raw labels label hne hseen ih =>
    rw [ih]
    constructor
    · rintro ⟨hx, r, hr, h⟩
      exact ⟨hx, r, List.mem_cons_of_mem _ hr, h⟩
    · rintro ⟨hx, r, hr, h⟩
      rcases List.mem_cons.mp hr with rfl | hr
      · exact absurd (h.2 ▸ List.contains_iff_mem.mp hseen) hx
      · exact ⟨hx, r, hr, h⟩
  | case4 seen raw labels label hne hseen ih =>
    rw [List.map_cons, List.mem_cons, ih]
    constructor
    · rintro (rfl | ⟨hx, r, hr, h⟩)
      · exact ⟨by simpa using hseen, raw, List.mem_cons_self, hne, rfl⟩
      · exact ⟨fun h => hx (List.mem_cons_of_mem _ h), r, List.mem_cons_of_mem _ hr, h⟩
    · rintro ⟨hx, r, hr, h⟩
      by_cases he : x = lower label
      · exact .inl he
      · rcases List.mem_cons.mp hr with rfl | hr
        · exact absurd h.2.symm he
        · exact .inr ⟨by simp [he, hx], r, hr, h⟩

variable {digest}

/-- The normalized labels are trimmed, and up to case they are the labels that are not blank. -/
theorem normalizeWorkflowLabels_ok {labels normalized : List String} {key : Key}
    (h : normalizeWorkflowLabels lower digest labels = .ok (normalized, key)) :
    key = digest (normalized.map lower) ∧ (∀ label ∈ normalized, trimSpace label = label) ∧
      ∀ x, x ∈ normalized.map lower ↔
        ∃ raw ∈ labels, trimSpace raw ≠ "" ∧ fold lower raw = x := by
  unfold normalizeWorkflowLabels at h
  dsimp only at h
  split at h
  · cases h
  · cases h
    refine ⟨rfl, fun label hl => trimSpace_of_mem_keepLabels (mem_ordered.mp hl).1, fun x => ?_⟩
    have hkept := @mem_map_keepLabels lower [] labels x
    simp only [List.mem_map, mem_ordered, and_true, List.not_mem_nil, not_false_eq_true,
      true_and] at hkept ⊢
    exact hkept

theorem labelsMatch_of_key (hdigest : Function.Injective digest)
    {labels normalized stored specLabels : List String} {key : Key}
    (h : normalizeWorkflowLabels lower digest labels = .ok (normalized, key))
    (hs : normalizeWorkflowLabels lower digest specLabels = .ok (stored, key))
    (hblank : ∀ label ∈ labels, trimSpace label ≠ "") :
    labelsMatch lower stored labels = true ∧ labelsMatch lower labels stored = true := by
  obtain ⟨hk, -, hmem⟩ := normalizeWorkflowLabels_ok h
  obtain ⟨hks, htrim, -⟩ := normalizeWorkflowLabels_ok hs
  have heq : stored.map lower = normalized.map lower := hdigest (hks.symm.trans hk)
  rw [labelsMatch_iff, labelsMatch_iff]
  constructor
  · intro label hl
    have hin : lower label ∈ normalized.map lower := heq ▸ List.mem_map_of_mem hl
    obtain ⟨raw, hraw, -, hfold⟩ := (hmem _).mp hin
    exact ⟨raw, hraw, by rw [hfold, fold, htrim label hl]⟩
  · intro label hl
    have hin : fold lower label ∈ stored.map lower :=
      heq ▸ (hmem _).mpr ⟨label, hl, hblank label hl, rfl⟩
    obtain ⟨r, hr, hfold⟩ := List.mem_map.mp hin
    exact ⟨r, hr, by rw [fold, htrim r hr, hfold]⟩

end Labels

/-! ### Specs -/

structure RunnerProfile where
  name : String
  labels : List String
  requiredLabels : List String
  templateID : String := ""
  defaultTemplateName : String := ""
  templateSource : String := ""
  published : Bool := false
  runnerGroup : String := ""
  maxConcurrency : Int := 0
  minIdle : Int := 0
  priority : Int := 0
  enabled : Bool := true
  managedBy : String := ""
  catalogRevision : Int := 0
  createdAt : Nat := 0
  updatedAt : Nat := 0
  deriving DecidableEq, Repr

structure RunnerProfileScope where
  type : String
  id : Int
  deriving DecidableEq, Repr

structure ScopedRunnerProfile (Key : Type) where
  scope : RunnerProfileScope
  name : String
  workflowLabels : List String
  labelKey : Key
  templateID : String := ""
  runnerGroup : String := ""
  maxConcurrency : Int := 0
  enabled : Bool := true
  createdAt : Nat := 0
  updatedAt : Nat := 0
  deriving DecidableEq, Repr

def ScopedRunnerProfile.key {Key : Type} (p : ScopedRunnerProfile Key) :
    RunnerProfileScope × String := (p.scope, p.name)

/-- A scoped spec as the rest of the program sees it. -/
def ScopedRunnerProfile.runnerProfile {Key : Type} (p : ScopedRunnerProfile Key) :
    RunnerProfile where
  name := p.name
  labels := p.workflowLabels
  requiredLabels := p.workflowLabels
  templateID := p.templateID
  runnerGroup := p.runnerGroup
  maxConcurrency := p.maxConcurrency
  enabled := p.enabled
  createdAt := p.createdAt
  updatedAt := p.updatedAt

/-- The Runner Specs of both kinds. -/
structure Specs (Key : Type) where
  profiles : Table RunnerProfile.name
  scopedProfiles : Table (@ScopedRunnerProfile.key Key)

def Specs.empty {Key : Type} : Specs Key := ⟨Table.empty, Table.empty⟩

inductive CatalogError where
  | invalid (message : String)
  | notFound
  | conflict
  | runnerProfileNameConflict
  | runnerProfileLabelsConflict
  deriving DecidableEq, Repr

def validateRunnerProfileScope (scope : RunnerProfileScope) : Except CatalogError Unit :=
  if scope.type ≠ "account" ∧ scope.type ≠ "github_installation" then
    .error (.invalid "invalid runner profile scope type")
  else if scope.id ≤ 0 then .error (.invalid "invalid runner profile scope id")
  else .ok ()

/-- Specs that carry no template source are given one by who manages them. -/
def normalizeProfilePolicy (p : RunnerProfile) : RunnerProfile :=
  if p.templateSource = "" then
    if trimSpace p.managedBy ≠ "" then
      { p with
        templateSource := "public", templateID := "",
        published := if trimSpace p.defaultTemplateName ≠ "" then true else p.published }
    else { p with templateSource := "private" }
  else p

def validateProfilePolicy (p : RunnerProfile) : Except CatalogError Unit := do
  if p.templateSource = "public" then
    if p.labels.isEmpty then
      throw (.invalid "public template specs require workflow labels")
    if trimSpace p.defaultTemplateName = "" ∨ trimSpace p.templateID ≠ "" then
      throw (.invalid
        "public templates require a stable template name and no physical template ID")
  else if p.templateSource = "private" then
    if trimSpace p.defaultTemplateName ≠ "" then
      throw (.invalid
        "ID references must use a physical template ID, not a public template name")
  else throw (.invalid "invalid template source")
  if p.maxConcurrency < 0 ∨ p.minIdle < 0 then
    throw (.invalid "capacity values must not be negative")

def validateProfileName (name : String) : Except CatalogError Unit :=
  if Text.contains name "/" ∨ name = "." ∨ name = ".." then
    .error (.invalid "profile name must not contain '/' or be '.' or '..'")
  else .ok ()

def validateProfile (lower : String → String) (p : RunnerProfile) : Except CatalogError Unit := do
  let name := trimSpace p.name
  if name = "" then throw (.invalid "profile name is required")
  validateProfileName name
  if ¬labelsMatch lower p.requiredLabels p.labels then
    throw (.invalid "required labels must be a subset of labels")
  validateProfilePolicy (normalizeProfilePolicy p)

namespace Specs

variable {Key : Type} (lower : String → String) (digest : List String → Key)

/-! ### Reading -/

/-- The global specs, those of high priority first. -/
def listProfiles (s : Specs Key) : List RunnerProfile :=
  (ordered (fun p : RunnerProfile => toLex (-p.priority, p.name)) s.profiles.rows
    fun _ => true).map normalizeProfilePolicy

def getProfile (s : Specs Key) (name : String) : Except CatalogError RunnerProfile :=
  match s.profiles.find (trimSpace name) with
  | none => .error .notFound
  | some record => .ok (normalizeProfilePolicy record)

def listScopedProfiles (s : Specs Key) (scope : RunnerProfileScope) :
    Except CatalogError (List (ScopedRunnerProfile Key)) := do
  validateRunnerProfileScope scope
  return ordered ScopedRunnerProfile.name s.scopedProfiles.rows fun p => p.scope = scope

def getScopedProfile (s : Specs Key) (scope : RunnerProfileScope) (name : String) :
    Except CatalogError (ScopedRunnerProfile Key) := do
  validateRunnerProfileScope scope
  match s.scopedProfiles.find (scope, trimSpace name) with
  | none => throw .notFound
  | some record => return record

/-! ### Writing -/

/-- Insert or replace a global spec. A conditional write replaces only the version it was
read at, or inserts if none was. -/
def saveProfile (s : Specs Key) (profile : RunnerProfile) (conditional : Bool)
    (expectedUpdatedAt : Option Nat) (now : Nat) : Except CatalogError (Specs Key) := do
  let profile := normalizeProfilePolicy profile
  let profile := { profile with name := trimSpace profile.name }
  validateProfile lower profile
  let now := match conditional, expectedUpdatedAt with
    | true, some expected => max now (expected + 1)
    | _, _ => now
  let record := { profile with
    createdAt := if profile.createdAt = 0 then now else profile.createdAt, updatedAt := now }
  match s.profiles.find record.name, conditional, expectedUpdatedAt with
  | some old, true, some expected =>
    if old.updatedAt = expected then
      return { s with profiles := s.profiles.put { record with createdAt := old.createdAt } }
    else throw .conflict
  | none, true, some _ => throw .conflict
  | some _, true, none => throw .conflict
  | some old, false, _ =>
    return { s with profiles := s.profiles.put { record with createdAt := old.createdAt } }
  | none, _, _ => return { s with profiles := s.profiles.insert record }

def deleteProfile (s : Specs Key) (name : String) : Specs Key :=
  { s with profiles := s.profiles.remove fun p => p.name = trimSpace name }

/-- A second spec of the scope has the labels of this one. -/
def labelsTaken [DecidableEq Key] (s : Specs Key) (record : ScopedRunnerProfile Key) : Bool :=
  s.scopedProfiles.rows.any fun p =>
    p.scope = record.scope ∧ p.labelKey = record.labelKey ∧ p.name ≠ record.name

/-- The checks before a scoped spec is written. Its name must not be that of an enabled global
spec. -/
def checkScopedProfile (s : Specs Key) (profile : ScopedRunnerProfile Key) :
    Except CatalogError Unit :=
  let name := trimSpace profile.name
  if name = "" ∨ Text.contains name "/" ∨ name = "." ∨ name = ".." ∨
      profile.maxConcurrency < 0 then
    .error (.invalid "invalid scoped runner profile")
  else
    match s.getProfile name with
    | .ok p => if p.enabled then .error .runnerProfileNameConflict else .ok ()
    | .error _ => .ok ()

/-- Insert a row, or replace the version it was read at. -/
def writeScopedProfile [DecidableEq Key] (s : Specs Key) (record : ScopedRunnerProfile Key)
    (expectedUpdatedAt : Option Nat) : Except CatalogError (Specs Key) :=
  match s.scopedProfiles.find record.key, expectedUpdatedAt with
  | some old, some expected =>
    if old.updatedAt ≠ expected then .error .conflict
    else if s.labelsTaken record then .error .runnerProfileLabelsConflict
    else
      let record := { record with createdAt := old.createdAt }
      .ok { s with scopedProfiles := s.scopedProfiles.put record }
  | none, some _ => .error .conflict
  | some _, none => .error .conflict
  | none, none =>
    if s.labelsTaken record then .error .runnerProfileLabelsConflict
    else .ok { s with scopedProfiles := s.scopedProfiles.insert record }

def upsertScopedProfileIfUnchanged [DecidableEq Key] (s : Specs Key)
    (profile : ScopedRunnerProfile Key) (expectedUpdatedAt : Option Nat) (now : Nat) :
    Except CatalogError (Specs Key) := do
  validateRunnerProfileScope profile.scope
  s.checkScopedProfile profile
  match normalizeWorkflowLabels lower digest profile.workflowLabels with
  | .error message => throw (.invalid message)
  | .ok (labels, labelKey) =>
    let now := match expectedUpdatedAt with
      | some expected => max now (expected + 1)
      | none => now
    s.writeScopedProfile
      { scope := profile.scope, name := trimSpace profile.name, workflowLabels := labels, labelKey,
        templateID := trimSpace profile.templateID, runnerGroup := trimSpace profile.runnerGroup,
        maxConcurrency := profile.maxConcurrency, enabled := profile.enabled,
        createdAt := if profile.createdAt = 0 then now else profile.createdAt, updatedAt := now }
      expectedUpdatedAt

/-- Delete a scoped spec, or only the version it was read at. -/
def deleteScopedProfileIfUnchanged (s : Specs Key) (scope : RunnerProfileScope) (name : String)
    (expectedUpdatedAt : Option Nat) : Except CatalogError (Specs Key) := do
  validateRunnerProfileScope scope
  match s.scopedProfiles.find (scope, trimSpace name) with
  | none => throw .conflict
  | some old =>
    if expectedUpdatedAt.all fun expected => old.updatedAt = expected then
      let scopedProfiles := s.scopedProfiles.remove fun p => p.key = (scope, trimSpace name)
      return { s with scopedProfiles }
    else throw .conflict

/-! ### What the store accepts -/

/-- Names are stored trimmed, and the labels of a scoped spec normalized, beside their key. -/
structure WellFormed (s : Specs Key) : Prop where
  name : ∀ {k p}, s.profiles.find k = some p → trimSpace p.name = p.name
  scopedName : ∀ {k p}, s.scopedProfiles.find k = some p → trimSpace p.name = p.name
  labels : ∀ {k p}, s.scopedProfiles.find k = some p → ∃ raw,
    normalizeWorkflowLabels lower digest raw = .ok (p.workflowLabels, p.labelKey)

variable {lower digest} {s s' : Specs Key}

theorem wellFormed_empty : WellFormed lower digest Specs.empty where
  name h := by cases h
  scopedName h := by cases h
  labels h := by cases h

theorem WellFormed.saveProfile (hs : s.WellFormed lower digest) {profile : RunnerProfile}
    {conditional : Bool} {expectedUpdatedAt : Option Nat} {now : Nat}
    (h : s.saveProfile lower profile conditional expectedUpdatedAt now = .ok s') :
    s'.WellFormed lower digest := by
  have hname := trimSpace_trimSpace (normalizeProfilePolicy profile).name
  have hput : ∀ record : RunnerProfile, trimSpace record.name = record.name →
      WellFormed lower digest { s with profiles := s.profiles.put record } := by
    intro record hr
    refine ⟨fun hf => ?_, hs.scopedName, hs.labels⟩
    rcases Table.find_put_cases hf with ⟨-, rfl, -⟩ | ⟨-, hf⟩
    · exact hr
    · exact hs.name hf
  have hinsert : ∀ record : RunnerProfile, trimSpace record.name = record.name →
      WellFormed lower digest { s with profiles := s.profiles.insert record } := by
    intro record hr
    refine ⟨fun hf => ?_, hs.scopedName, hs.labels⟩
    rcases Table.find_insert_cases hf with ⟨-, rfl, -⟩ | hf
    · exact hr
    · exact hs.name hf
  unfold Specs.saveProfile at h
  dsimp only at h
  generalize validateProfile lower _ = valid at h
  cases valid with
  | error => cases h
  | ok =>
    dsimp only [bind, Except.bind] at h
    split at h
    · split at h
      · cases h; exact hput _ hname
      · cases h
    · cases h
    · cases h
    · cases h; exact hput _ hname
    · cases h; exact hinsert _ hname

theorem WellFormed.deleteProfile (hs : s.WellFormed lower digest) (name : String) :
    (s.deleteProfile name).WellFormed lower digest := by
  refine ⟨fun hf => ?_, hs.scopedName, hs.labels⟩
  rw [Specs.deleteProfile, Table.find_remove, Option.filter_eq_some_iff] at hf
  exact hs.name hf.1

theorem WellFormed.writeScopedProfile [DecidableEq Key] (hs : s.WellFormed lower digest)
    {record : ScopedRunnerProfile Key} {expectedUpdatedAt : Option Nat}
    (hname : trimSpace record.name = record.name)
    (hlabels : ∃ raw, normalizeWorkflowLabels lower digest raw =
      .ok (record.workflowLabels, record.labelKey))
    (h : s.writeScopedProfile record expectedUpdatedAt = .ok s') : s'.WellFormed lower digest := by
  unfold Specs.writeScopedProfile at h
  split at h
  · split_ifs at h
    cases h
    refine ⟨hs.name, fun hf => ?_, fun hf => ?_⟩ <;>
      rcases Table.find_put_cases hf with ⟨-, rfl, -⟩ | ⟨-, hf⟩
    · exact hname
    · exact hs.scopedName hf
    · exact hlabels
    · exact hs.labels hf
  · cases h
  · cases h
  · split_ifs at h
    cases h
    refine ⟨hs.name, fun hf => ?_, fun hf => ?_⟩ <;>
      rcases Table.find_insert_cases hf with ⟨-, rfl, -⟩ | hf
    · exact hname
    · exact hs.scopedName hf
    · exact hlabels
    · exact hs.labels hf

theorem WellFormed.upsertScopedProfileIfUnchanged [DecidableEq Key]
    (hs : s.WellFormed lower digest) {profile : ScopedRunnerProfile Key}
    {expectedUpdatedAt : Option Nat} {now : Nat}
    (h : s.upsertScopedProfileIfUnchanged lower digest profile expectedUpdatedAt now = .ok s') :
    s'.WellFormed lower digest := by
  unfold Specs.upsertScopedProfileIfUnchanged at h
  cases hv : validateRunnerProfileScope profile.scope with
  | error => rw [hv] at h; cases h
  | ok =>
    cases hc : s.checkScopedProfile profile with
    | error => rw [hv, hc] at h; cases h
    | ok =>
      rw [hv, hc] at h
      dsimp only [bind, Except.bind] at h
      split at h
      · cases h
      · rename_i hn
        have hname := trimSpace_trimSpace profile.name
        refine hs.writeScopedProfile ?_ ?_ h
        · exact hname
        · exact ⟨_, hn⟩

theorem WellFormed.deleteScopedProfileIfUnchanged (hs : s.WellFormed lower digest)
    {scope : RunnerProfileScope} {name : String} {expectedUpdatedAt : Option Nat}
    (h : s.deleteScopedProfileIfUnchanged scope name expectedUpdatedAt = .ok s') :
    s'.WellFormed lower digest := by
  unfold Specs.deleteScopedProfileIfUnchanged at h
  generalize validateRunnerProfileScope scope = valid at h
  cases valid with
  | error => cases h
  | ok =>
    dsimp only [bind, Except.bind] at h
    split at h
    · cases h
    · split at h
      · cases h
        refine ⟨hs.name, fun hf => ?_, fun hf => ?_⟩ <;>
          rw [Table.find_remove, Option.filter_eq_some_iff] at hf
        · exact hs.scopedName hf.1
        · exact hs.labels hf.1
      · cases h

end Specs

end CiRunner.Catalog
