import CiRunner.Deployments.Idempotency
import CiRunner.Text.Paths

/-! The path of the configuration of a deployment. A request is normalised once when it is
admitted; the path is then trimmed again where the file is read, normalised again
for the hash of the request, and trimmed and cleaned where the deployment is stored. All
of these agree as long as cleaning the path has not brought a space to one of its ends. -/

namespace CiRunner.Deployments

open Text
open CiRunner.State (Time)

def trimSlashes (s : String) : String :=
  String.ofList ((s.toList.dropWhile (· == '/')).rdropWhile (· == '/'))

/-- The path of a file as GitHub is asked for it, if there is one to ask for. -/
def readRepositoryFilePath (filePath : String) : Option String :=
  let filePath := trimSlashes (trimSpace filePath)
  if filePath = "" then none else some filePath

theorem trimSlashes_of_unslashed {s : String} (h : Unslashed s.toList) : trimSlashes s = s := by
  have hdrop : s.toList.dropWhile (· == '/') = s.toList := by
    cases hs : s.toList with
    | nil => rfl
    | cons c cs =>
      have hc : c ≠ '/' := fun heq => h.head (by rw [hs, heq, List.head?_cons])
      rw [List.dropWhile_cons_of_neg (by simpa using hc)]
  rw [trimSlashes, hdrop, List.rdropWhile_eq_self_iff.mpr, String.ofList_toList]
  intro hne hlast
  exact h.last (by rw [List.getLast?_eq_some_getLast hne, beq_iff_eq.mp hlast])

/-- What every path that has been accepted is. -/
structure Canonical (path : String) : Prop where
  relative : startsWith path "/" = false
  size : path.utf8ByteSize ≤ 1024
  control : hasControl path = false
  backslash : path.toList.contains '\\' = false
  unslashed : Unslashed path.toList
  clean : cleanPath path = path
  inside : ¬ (path = "." ∨ path = ".." ∨ startsWith path "../" = true)
  nonempty : path ≠ ""

theorem canonical_defaultPath : Canonical defaultPath where
  relative := by decide
  size := by decide
  control := by decide
  backslash := by decide
  unslashed := ⟨by decide, by decide⟩
  clean := by decide
  inside := by decide
  nonempty := by decide

theorem any_cleanPath {s : String} {p : Char → Bool} (h : startsWith s "/" = false)
    (hslash : p '/' = false) (hdot : p '.' = false) (hs : s.toList.any p = false) :
    (cleanPath s).toList.any p = false := by
  rw [List.any_eq_false] at hs ⊢
  intro c hc
  rcases mem_of_mem_cleanPath h hc with rfl | rfl | hc
  · exact Bool.eq_false_iff.mp hslash
  · exact Bool.eq_false_iff.mp hdot
  · exact hs c hc

theorem canonical_normalize {value : String} (h : normalizeDeploymentConfigPath value ≠ "") :
    Canonical (normalizeDeploymentConfigPath value) := by
  simp only [normalizeDeploymentConfigPath] at h ⊢
  split
  · exact canonical_defaultPath
  · rename_i hne
    rw [if_neg hne] at h
    split
    · rename_i hbad
      exact absurd (if_pos hbad) h
    · rename_i hgood
      rw [if_neg hgood] at h
      simp only [not_or, Bool.not_eq_true, Nat.not_lt] at hgood
      obtain ⟨hrelative, hsize, hcontrol, hbackslash⟩ := hgood
      split
      · rename_i hout
        exact absurd (if_pos hout) h
      · rename_i hinside
        exact
          { relative := startsWith_cleanPath hrelative
            size := (utf8ByteSize_cleanPath_le hrelative hne).trans hsize
            control := any_cleanPath hrelative (by decide) (by decide) hcontrol
            backslash := by
              rw [List.contains_eq_any_beq] at hbackslash ⊢
              exact any_cleanPath hrelative (by decide) (by decide) hbackslash
            unslashed := unslashed_cleanPath hrelative
            clean := cleanPath_cleanPath hrelative
            inside := hinside
            nonempty := cleanPath_ne_empty hrelative }

namespace Canonical

variable {path : String}

theorem normalize_eq (h : Canonical path) (htrimmed : trimSpace path = path) :
    normalizeDeploymentConfigPath path = path := by
  have hgood : ¬ (startsWith path "/" = true ∨ 1024 < path.utf8ByteSize ∨
      hasControl path = true ∨ path.toList.contains '\\' = true) := by
    rw [h.relative, h.control, h.backslash]
    simpa using h.size
  rw [normalizeDeploymentConfigPath, htrimmed, if_neg h.nonempty, if_neg hgood, h.clean]
  exact if_neg h.inside

theorem read_eq (h : Canonical path) (htrimmed : trimSpace path = path) :
    readRepositoryFilePath path = some path := by
  rw [readRepositoryFilePath, htrimmed, trimSlashes_of_unslashed h.unslashed, if_neg h.nonempty]

theorem valid (h : Canonical path) : validConfigPath path = true := by
  have hinside := h.inside
  have hbackslash := h.backslash
  simp only [not_or] at hinside
  simp only [validConfigPath, h.relative, h.control, hbackslash, Bool.eq_false_iff.mpr hinside.2.2]
  simpa [hinside.1, hinside.2.1] using h.size

end Canonical

/-! ### Admitted requests -/

theorem configPath_of_valid {input : CreateInput}
    (h : validateCreateDeploymentRequest input = none) :
    normalizeDeploymentConfigPath input.configPath ≠ "" := by
  intro hempty
  simp only [validateCreateDeploymentRequest, hempty, if_true] at h
  repeat' split at h
  all_goals cases h

section Fields

variable (settings : Settings) (input : CreateInput)

theorem configPath_normalized :
    input.normalized.configPath = normalizeDeploymentConfigPath input.configPath := rfl

theorem configPath_identity (installationID repositoryID : Nat) :
    (deploymentCreateRequestIdentity input installationID repositoryID).configPath =
      normalizeDeploymentConfigPath input.configPath := rfl

theorem configPath_newDeployment (id : String) (request : CreateRequest) (templateID : String)
    (resolved : Resolved) (now : Time) :
    (newDeployment settings id request input templateID resolved now).plan.configPath =
      input.configPath := rfl

end Fields

/-- Cleaning the path has not brought a space to one of its ends. -/
def CreateInput.PathTrimmed (input : CreateInput) : Prop :=
  trimSpace (normalizeDeploymentConfigPath input.configPath) =
    normalizeDeploymentConfigPath input.configPath

def requestOf (configPath : String) : CreateInput where
  installationID := 1
  repositoryFullName := "owner/app"
  ref := "main"
  configPath := configPath

end CiRunner.Deployments
