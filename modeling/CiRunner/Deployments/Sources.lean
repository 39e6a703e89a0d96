import CiRunner.Deployments.Idempotency
import CiRunner.Text.Numbers

/-! The source of a deployment: a branch, a tag or a pull request. A request is admitted with
the ref qualified by the kind of its source; a response strips the qualification
again, and then reports a pull request if what is left names the head of one. -/

namespace CiRunner.Deployments

open Text
open CiRunner.State (Time)

/-! ### Texts -/

def endsWith (s tail : String) : Bool := tail.toList.isSuffixOf s.toList

def withoutStart (s start : String) : String :=
  if startsWith s start then String.ofList (s.toList.drop start.toList.length) else s

def withoutEnd (s tail : String) : String :=
  if endsWith s tail then
    String.ofList (s.toList.take (s.toList.length - tail.toList.length))
  else s

theorem startsWith_append (start s : String) : startsWith (start ++ s) start = true := by
  rw [startsWith, String.toList_append, List.isPrefixOf_iff_prefix]
  exact List.prefix_append ..

theorem withoutStart_append (start s : String) : withoutStart (start ++ s) start = s := by
  rw [withoutStart, if_pos (startsWith_append start s), String.toList_append, List.drop_left,
    String.ofList_toList]

theorem endsWith_append (s tail : String) : endsWith (s ++ tail) tail = true := by
  rw [endsWith, String.toList_append, List.isSuffixOf_iff_suffix]
  exact List.suffix_append ..

theorem withoutEnd_append (s tail : String) : withoutEnd (s ++ tail) tail = s := by
  rw [withoutEnd, if_pos (endsWith_append s tail), String.toList_append, List.length_append,
    Nat.add_sub_cancel, List.take_left, String.ofList_toList]

/-! ### Pull requests -/

/-- The number of the pull request that a ref is the head of; zero if it is not one. -/
def deploymentPullRequestNumber (ref : String) : Int :=
  if !startsWith ref "refs/pull/" || !endsWith ref "/head" then 0
  else
    match parseInt (withoutEnd (withoutStart ref "refs/pull/") "/head") with
    | none => 0
    | some number =>
      if number ≤ 0 ∨ "refs/pull/" ++ toString number ++ "/head" ≠ ref then 0 else number

theorem parseInt_of_isNumber {s : String} (h : isNumber s = true) :
    ∃ n : Nat, 0 < n ∧ parseInt s = some (n : Int) ∧ toString n = s := by
  simp only [isNumber, Bool.and_eq_true, bne_iff_ne, ne_eq, List.all_eq_true,
    decide_eq_true_eq] at h
  obtain ⟨⟨⟨hne, hdigits⟩, hzero⟩, hlt⟩ := h
  cases hs : s.toList with
  | nil => exact absurd (String.toList_eq_nil_iff.mp hs) hne
  | cons c l =>
    rw [hs] at hdigits hzero hlt
    have hprinted := toDigits_digitsValue hdigits fun heq => hzero (by rw [heq, List.head?_cons])
    refine ⟨digitsValue (c :: l), Nat.pos_of_ne_zero fun h0 => ?_, ?_, ?_⟩
    · rw [h0] at hprinted
      exact hzero (congrArg List.head? hprinted.symm)
    · have hc := hdigits c List.mem_cons_self
      have hsign : ∀ d : Char, d.isDigit = false → c ≠ d := by
        rintro d hd rfl
        rw [hd] at hc
        cases hc
      have hall : ¬ (c :: l = [] ∨ (!(c :: l).all Char.isDigit) = true) := by
        simpa using hdigits
      unfold parseInt
      rw [hs]
      split
      rename_i negative digits heq
      split at heq
      · rename_i h
        exact absurd (List.head_eq_of_cons_eq h) (hsign _ (by decide))
      · rename_i h
        exact absurd (List.head_eq_of_cons_eq h) (hsign _ (by decide))
      · cases heq
        rw [if_neg hall, if_neg Bool.false_ne_true]
        exact if_pos hlt
    · rw [Nat.toString_eq_ofList_toDigits, hprinted, ← hs, String.ofList_toList]

theorem pullRequestNumber_of_isNumber {s : String} (h : isNumber s = true) :
    0 < deploymentPullRequestNumber ("refs/pull/" ++ s ++ "/head") ∧
      toString (deploymentPullRequestNumber ("refs/pull/" ++ s ++ "/head")) = s := by
  obtain ⟨n, hpos, hparse, hprint⟩ := parseInt_of_isNumber h
  have hstart : startsWith ("refs/pull/" ++ s ++ "/head") "refs/pull/" = true := by
    rw [String.append_assoc]
    exact startsWith_append ..
  have hvalue : withoutEnd (withoutStart ("refs/pull/" ++ s ++ "/head") "refs/pull/") "/head" =
      s := by
    rw [String.append_assoc, withoutStart_append, withoutEnd_append]
  have hnumber : deploymentPullRequestNumber ("refs/pull/" ++ s ++ "/head") = n := by
    rw [deploymentPullRequestNumber, hstart, endsWith_append, hvalue, hparse]
    have hcanonical : ¬ ((n : Int) ≤ 0 ∨
        "refs/pull/" ++ toString (n : Int) ++ "/head" ≠ "refs/pull/" ++ s ++ "/head") := by
      rintro (hle | hne)
      · omega
      · exact hne (by rw [show toString (n : Int) = toString n from rfl, hprint])
    exact if_neg hcanonical
  rw [hnumber]
  exact ⟨by omega, hprint⟩

/-! ### Responses -/

def deploymentEndpointAccess (endpoint : String) : String :=
  if trimSpace endpoint = "" then "" else "public"

/-- The response with a deployment; the other fields are those of the deployment. -/
structure DeploymentResponse where
  pullRequestNumber : Int
  source : String
  ref : String
  endpointAccess : String
  revisionNumber : Nat
  deployment : Deployment

/-- The kind of the source and the ref without the qualification, read from the ref. -/
def reportedSource (ref : String) : String × String :=
  let (source, ref) :=
    if startsWith ref "refs/heads/" then ("branch", withoutStart ref "refs/heads/")
    else if startsWith ref "refs/tags/" then ("tag", withoutStart ref "refs/tags/")
    else ("", ref)
  let number := deploymentPullRequestNumber ref
  if 0 < number then ("pull_request", toString number) else (source, ref)

def deploymentResponseFromState (item : Deployment) : DeploymentResponse where
  pullRequestNumber := deploymentPullRequestNumber item.plan.ref
  source := (reportedSource item.plan.ref).1
  ref := (reportedSource item.plan.ref).2
  endpointAccess := deploymentEndpointAccess item.endpoint
  revisionNumber := max item.revisionNumber 1
  deployment := item

theorem reportedSource_branch (ref : String) : reportedSource ("refs/heads/" ++ ref) =
    if 0 < deploymentPullRequestNumber ref then
      ("pull_request", toString (deploymentPullRequestNumber ref))
    else ("branch", ref) := by
  rw [reportedSource, if_pos (startsWith_append ..), withoutStart_append]

theorem reportedSource_tag (ref : String) : reportedSource ("refs/tags/" ++ ref) =
    if 0 < deploymentPullRequestNumber ref then
      ("pull_request", toString (deploymentPullRequestNumber ref))
    else ("tag", ref) := by
  have hheads : startsWith ("refs/tags/" ++ ref) "refs/heads/" = false := by
    rw [startsWith, String.toList_append]
    rfl
  rw [reportedSource, hheads, if_neg Bool.false_ne_true, if_pos (startsWith_append ..),
    withoutStart_append]

theorem reportedSource_pull {s : String} (h : isNumber s = true) :
    reportedSource ("refs/pull/" ++ s ++ "/head") = ("pull_request", s) := by
  have hheads : startsWith ("refs/pull/" ++ s ++ "/head") "refs/heads/" = false := by
    rw [String.append_assoc, startsWith, String.toList_append]
    rfl
  have htags : startsWith ("refs/pull/" ++ s ++ "/head") "refs/tags/" = false := by
    rw [String.append_assoc, startsWith, String.toList_append]
    rfl
  obtain ⟨hpos, hprint⟩ := pullRequestNumber_of_isNumber h
  rw [reportedSource, hheads, htags]
  simp only [Bool.false_eq_true, if_false, if_pos hpos, hprint]

/-! ### Round trips -/

/-- A branch or a tag is not named like the head of a pull request. -/
def CreateInput.PlainName (input : CreateInput) : Prop :=
  input.source = "pull_request" ∨ deploymentPullRequestNumber (trimSpace input.ref) = 0

structure AcceptedSource (input : CreateInput) : Prop where
  kind : input.source = "branch" ∨ input.source = "tag" ∨
    input.source = "pull_request" ∧ isNumber input.ref = true
  ref : trimSpace input.ref ≠ ""

theorem acceptedSource_of_valid {input : CreateInput}
    (h : validateCreateDeploymentRequest input = none) (hsource : input.source ≠ "") :
    AcceptedSource input := by
  constructor
  · by_contra hkind
    simp only [not_or, not_and, Bool.not_eq_true] at hkind
    by_cases hpull : input.source = "pull_request"
    · simp [validateCreateDeploymentRequest, hpull, hkind.2.2 hpull] at h
      repeat' split at h
      all_goals cases h
    · rw [validateCreateDeploymentRequest, if_pos ⟨hsource, hkind.1, hkind.2.1, hpull⟩] at h
      cases h
  · intro hempty
    simp only [validateCreateDeploymentRequest, hempty, true_or, if_true] at h
    repeat' split at h
    all_goals cases h

theorem ref_newDeployment (settings : Settings) (id : String) (request : CreateRequest)
    (input : CreateInput) (templateID : String) (resolved : Resolved) (now : Time) :
    (newDeployment settings id request input.normalized templateID resolved now).plan.ref =
      normalizeDeploymentRef input.ref input.source := rfl

theorem normalizeDeploymentRef_eq {input : CreateInput} (h : AcceptedSource input) :
    normalizeDeploymentRef input.ref input.source =
      if input.source = "branch" then "refs/heads/" ++ trimSpace input.ref
      else if input.source = "tag" then "refs/tags/" ++ trimSpace input.ref
      else "refs/pull/" ++ trimSpace input.ref ++ "/head" := by
  rcases h.kind with hkind | hkind | ⟨hkind, -⟩ <;> rw [normalizeDeploymentRef, hkind] <;> rfl

theorem trimSpace_of_isNumber {s : String} (h : isNumber s = true) : trimSpace s = s := by
  simp only [isNumber, Bool.and_eq_true, List.all_eq_true] at h
  have htrimmed : Trimmed s.toList :=
    ⟨fun c hc => isSpace_of_isDigit (h.1.1.2 c (List.mem_of_mem_head? hc)),
      fun c hc => isSpace_of_isDigit (h.1.1.2 c (List.mem_of_getLast? hc))⟩
  rw [trimSpace, htrimmed.trim_eq, String.ofList_toList]

theorem trimSpace_append {s t : String} (hs : s ≠ "") (ht : t ≠ "")
    (hhead : ∀ c, s.toList.head? = some c → isSpace c = false)
    (hlast : ∀ c, t.toList.getLast? = some c → isSpace c = false) :
    trimSpace (s ++ t) = s ++ t := by
  have htrimmed : Trimmed (s ++ t).toList := by
    rw [String.toList_append]
    refine ⟨fun c hc => hhead c ?_, fun c hc => hlast c ?_⟩
    · rwa [List.head?_append_of_ne_nil _ fun h => hs (String.toList_eq_nil_iff.mp h)] at hc
    · rwa [List.getLast?_append_of_ne_nil _ fun h => ht (String.toList_eq_nil_iff.mp h)] at hc
  rw [trimSpace, htrimmed.trim_eq, String.ofList_toList]

/-- The ref is stored as it is. -/
theorem trimSpace_normalizeDeploymentRef {input : CreateInput} (h : AcceptedSource input) :
    trimSpace (normalizeDeploymentRef input.ref input.source) =
      normalizeDeploymentRef input.ref input.source := by
  have hlast : ∀ c, (trimSpace input.ref).toList.getLast? = some c → isSpace c = false := by
    rw [trimSpace, String.toList_ofList]
    exact (trimmed_trim _).last
  rw [normalizeDeploymentRef_eq h]
  split
  · exact trimSpace_append (by decide) h.ref (by rintro c ⟨⟩; rfl) hlast
  · split
    · exact trimSpace_append (by decide) h.ref (by rintro c ⟨⟩; rfl) hlast
    · refine trimSpace_append ?_ (by decide) ?_ (by rintro c ⟨⟩; rfl)
      · exact fun hempty => absurd (congrArg String.toList hempty) (by simp [String.toList_append])
      · rw [String.toList_append]
        rintro c ⟨⟩
        rfl

theorem reportedSource_eq {input : CreateInput} (h : AcceptedSource input)
    (hplain : input.PlainName) :
    reportedSource (normalizeDeploymentRef input.ref input.source) =
      (input.source, trimSpace input.ref) := by
  rw [normalizeDeploymentRef_eq h]
  rcases h.kind with hkind | hkind | ⟨hkind, hnumber⟩
  · have hzero := hplain.resolve_left (by rw [hkind]; decide)
    rw [if_pos hkind, reportedSource_branch, hzero, hkind]
    rfl
  · have hzero := hplain.resolve_left (by rw [hkind]; decide)
    rw [if_neg (by rw [hkind]; decide), if_pos hkind, reportedSource_tag, hzero, hkind]
    rfl
  · rw [if_neg (by rw [hkind]; decide), if_neg (by rw [hkind]; decide),
      trimSpace_of_isNumber hnumber, reportedSource_pull hnumber, hkind]

/-- A request with the given source and ref. -/
def sourceOf (source ref : String) : CreateInput where
  installationID := 1
  repositoryFullName := "owner/app"
  ref := ref
  source := source

def responseTo (input : CreateInput) : DeploymentResponse :=
  deploymentResponseFromState (newDeployment oneAtATime "d" ⟨1, "", ⟨1, 1, "", "", "", "", 0⟩⟩
    input.normalized "template" {} 1)

end CiRunner.Deployments
