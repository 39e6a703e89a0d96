import CiRunner.Deployments.WorkerOutline

/-! The handlers follow the outline, and with them every program of the machine. An
admission goes through the lock of its scope and the count of its places; a retry is
of a deployment that the handler has read. -/

namespace CiRunner.Deployments

open Text Threads
open CiRunner.State (Time)

variable {settings : Settings} {κ : Know} {c d : Deployment} {α : Type}

/-! ### Stopping -/

theorem follows_respond (request : Option CreateRequest) (r : Response) :
    (outline settings).Follows (fun _ _ => True) κ (ask (.respond request r)) :=
  follows_last (.respond request r) trivial

theorem follows_respond_none {r : Response} {Q : Know → Option α → Prop} (h : Q κ none) :
    (outline settings).Follows Q κ (do
      ask (.respond none r)
      pure none) :=
  Outline.follows_ask_bind trivial fun _ _ => Outline.follows_pure h

/-- A deployment that a handler goes on with is one that it has read. -/
def Loaded (κ : Know) (result : Option Deployment) : Prop :=
  ∀ d, result = some d → d.core.Ok ∧ .copy d ∈ κ

theorem loaded_none : Loaded κ none := fun _ h => by cases h

theorem loaded_some (hok : d.core.Ok) (hcopy : .copy d ∈ κ) : Loaded κ (some d) := by
  rintro _ ⟨⟩
  exact ⟨hok, hcopy⟩

theorem follows_loadAuthorizedDeployment (id : String) :
    (outline settings).Follows Loaded κ (loadAuthorizedDeployment id) := by
  refine Outline.follows_ask_bind trivial fun r hr => ?_
  cases r with
  | error e =>
    cases e with
    | notFound => exact follows_respond_none loaded_none
    | _ => exact follows_respond_none loaded_none
  | ok d =>
    refine Outline.follows_ask_bind trivial fun authorized _ => ?_
    split
    · exact Outline.follows_pure (loaded_some hr.1 List.mem_cons_self)
    · exact follows_respond_none loaded_none

theorem follows_respondDeployment (status : Nat) (id : String) :
    (outline settings).Follows (fun _ _ => True) κ (respondDeployment status id) := by
  refine Outline.follows_ask_bind trivial fun r _ => ?_
  cases r <;> exact follows_respond _ _

theorem follows_stopAndRespond (id : String) :
    (outline settings).Follows (fun _ _ => True) κ (stopAndRespond id) := by
  refine Outline.Follows.bind ?_ (follows_stop id false none)
  intro κ' err _
  match err with
  | none => exact follows_respondDeployment 200 id
  | some .createPending =>
    refine Outline.follows_ask_bind trivial fun r _ => ?_
    cases r <;> exact follows_respond _ _
  | some .runtimeMismatch => exact follows_respond _ _
  | some (.store e) => exact follows_respond _ _
  | some .provider => exact follows_respond _ _

theorem follows_handleUserStopDeployment (id : String) :
    (outline settings).Follows (fun _ _ => True) κ (handleUserStopDeployment id) := by
  refine Outline.Follows.bind ?_ (follows_loadAuthorizedDeployment id)
  intro κ' result hloaded
  cases result with
  | none => exact Outline.follows_pure trivial
  | some d =>
    obtain ⟨-, hcopy⟩ := hloaded d rfl
    dsimp only
    split
    · exact follows_stopAndRespond _
    · rename_i hleft
      refine Outline.follows_ask_bind ⟨d, hcopy, ⟨hleft, rfl⟩, trivial⟩ fun r _ => ?_
      cases r with
      | none => exact follows_stopAndRespond _
      | some e => exact follows_respond _ _

/-! ### Retrying -/

theorem follows_loadForRetry (hok : d.core.Ok) (hcopy : .copy d ∈ κ) (mode : RetryMode) :
    (outline settings).Follows Loaded κ (loadForRetry d mode) := by
  unfold loadForRetry
  split
  · exact Outline.follows_pure (loaded_some hok hcopy)
  · refine Outline.Follows.bind ?_ (follows_stop d.id false none)
    intro κ' err _
    match err with
    | none =>
      refine Outline.follows_ask_bind trivial fun r hr => ?_
      cases r with
      | error e => exact follows_respond_none loaded_none
      | ok d' => exact Outline.follows_pure (loaded_some hr.1 List.mem_cons_self)
    | some .createPending => exact follows_respond_none loaded_none
    | some .runtimeMismatch => exact follows_respond_none loaded_none
    | some (.store e) => exact follows_respond_none loaded_none
    | some .provider => exact follows_respond_none loaded_none

/-- A copy with another plan: the row is still the one that was read. -/
structure Replanned (κ : Know) (c d : Deployment) : Prop where
  copy : .copy c ∈ κ
  id : c.id = d.id
  version : c.version = d.version
  scope : c.scope = d.scope

theorem follows_planForRetry (hcopy : .copy d ∈ κ) (mode : RetryMode) :
    (outline settings).Follows
      (fun κ' result => ∀ d', result = some d' → Replanned κ' d d') κ (planForRetry d mode) := by
  unfold planForRetry
  match mode with
  | .revision 0 =>
    refine Outline.follows_pure ?_
    rintro _ ⟨⟩
    exact ⟨hcopy, rfl, rfl, rfl⟩
  | .revision (n + 1) =>
    refine Outline.follows_ask_bind trivial fun r _ => ?_
    cases r with
    | error e => cases e <;> exact follows_respond_none fun _ h => by cases h
    | ok r =>
      refine Outline.follows_pure ?_
      rintro _ ⟨⟩
      exact ⟨hcopy, rfl, rfl, rfl⟩
  | .latest =>
    dsimp only
    split
    · exact follows_respond_none fun _ h => by cases h
    · refine Outline.follows_ask_bind trivial fun found _ => ?_
      split
      · refine Outline.follows_ask_bind trivial fun resolved _ => Outline.follows_pure ?_
        rintro _ ⟨⟩
        exact ⟨hcopy, rfl, rfl, rfl⟩
      · exact follows_respond_none fun _ h => by cases h

theorem follows_retryDeploymentWithScopeLimit (h : Replanned κ c d) (expiresAt : Time) :
    (outline settings).Follows (fun _ _ => True) κ (retryDeploymentWithScopeLimit d expiresAt) := by
  refine Outline.follows_ask_bind trivial fun r _ => ?_
  cases r with
  | some e => exact Outline.follows_pure trivial
  | none =>
    refine Outline.follows_ask_bind List.mem_cons_self fun r _ => ?_
    cases r with
    | some e => exact Outline.follows_pure trivial
    | none =>
      exact follows_last (.commitRetry _ _ _) ⟨List.mem_cons_self, c,
        List.mem_cons_of_mem _ (List.mem_cons_of_mem _ h.copy), h.id, h.version, h.scope⟩

theorem follows_respondRetry (id : String) (err : Option StoreError) :
    (outline settings).Follows (fun _ _ => True) κ (respondRetry id err) := by
  match err with
  | none => exact follows_respondDeployment 202 id
  | some e => cases e <;> exact follows_respond _ _

theorem follows_retryPlanned (h : Replanned κ c d) (accountID : Nat) :
    (outline settings).Follows (fun _ _ => True) κ (retryPlanned accountID d) := by
  unfold retryPlanned
  split
  · exact follows_respond _ _
  · refine Outline.follows_ask_bind trivial fun configured _ => ?_
    split
    · exact follows_respond _ _
    · refine Outline.follows_ask_bind trivial fun available _ => ?_
      split
      · exact follows_respond _ _
      · refine Outline.follows_ask_bind trivial fun resolved _ => ?_
        refine Outline.follows_ask_bind trivial fun now _ => ?_
        have h' : Replanned κ c (d.forAccount accountID resolved) :=
          ⟨h.copy, h.id, h.version, h.scope⟩
        exact Outline.Follows.bind (fun _ err _ => follows_respondRetry _ err)
          (follows_retryDeploymentWithScopeLimit h' _)

theorem follows_handleUserRetryDeployment (accountID : Nat) (id : String) (mode : RetryMode) :
    (outline settings).Follows (fun _ _ => True) κ
      (handleUserRetryDeployment accountID id mode) := by
  refine Outline.Follows.bind ?_ (follows_loadAuthorizedDeployment id)
  intro κ₁ loaded hloaded
  cases loaded with
  | none => exact Outline.follows_pure trivial
  | some d =>
    obtain ⟨hok, hcopy⟩ := hloaded d rfl
    dsimp only
    split
    · exact follows_respond _ _
    · refine Outline.Follows.bind ?_ (follows_loadForRetry hok hcopy mode)
      intro κ₂ cleaned hcleaned
      cases cleaned with
      | none => exact Outline.follows_pure trivial
      | some d' =>
        obtain ⟨-, hcopy'⟩ := hcleaned d' rfl
        refine Outline.Follows.bind ?_ (follows_planForRetry hcopy' mode)
        intro κ₃ planned hplanned
        cases planned with
        | none => exact Outline.follows_pure trivial
        | some d'' => exact follows_retryPlanned (hplanned d'' rfl) accountID

/-! ### Creating -/

theorem follows_writeDeploymentReplay (id : String) (request : CreateRequest) :
    (outline settings).Follows (fun _ _ => True) κ (writeDeploymentReplay settings id request) := by
  have hanswered : ∀ {κ' : Know} {r : Response}, (outline settings).Follows (fun _ _ => True) κ' (do
      ask (.respond (some request) r)
      pure true) :=
    Outline.follows_ask_bind trivial fun _ _ => Outline.follows_pure trivial
  refine Outline.follows_ask_bind trivial fun r _ => ?_
  cases r with
  | error e =>
    cases e with
    | notFound => exact Outline.follows_pure trivial
    | _ => exact hanswered
  | ok saved =>
    dsimp only
    split <;> exact hanswered

theorem follows_createDeploymentWithScopeLimit (hnew : d.New) :
    (outline settings).Follows (fun _ _ => True) κ (createDeploymentWithScopeLimit d) := by
  refine Outline.follows_ask_bind trivial fun r _ => ?_
  cases r with
  | ok _ => exact Outline.follows_pure trivial
  | error e =>
    cases e with
    | notFound =>
      refine Outline.follows_ask_bind trivial fun r _ => ?_
      cases r with
      | some e => exact Outline.follows_pure trivial
      | none =>
        refine Outline.follows_ask_bind List.mem_cons_self fun r _ => ?_
        cases r with
        | some e => exact Outline.follows_pure trivial
        | none => exact follows_last (.commitCreate _ _) ⟨hnew, List.mem_cons_self⟩
    | _ => exact Outline.follows_pure trivial

theorem follows_respondRefused (id : String) (request : CreateRequest) (e : StoreError) :
    (outline settings).Follows (fun _ _ => True) κ (respondRefused settings id request e) := by
  have hanswered : ∀ {κ' : Know} (answered : Bool),
      (outline settings).Follows (fun _ _ => True) κ' (if answered then pure ()
        else ask (.respond (some request) (.error 500 "" "persist deployment"))) := by
    intro κ' answered
    split
    · exact Outline.follows_pure trivial
    · exact follows_respond _ _
  unfold respondRefused
  split
  · exact follows_respond _ _
  · split
    · exact Outline.Follows.bind (fun _ answered _ => hanswered answered)
        (follows_writeDeploymentReplay id request)
    · exact hanswered false

theorem newDeployment_new (id : String) (request : CreateRequest) (input : CreateInput)
    (templateID : String) (resolved : Resolved) (now : Time) :
    (newDeployment settings id request input templateID resolved now).New :=
  ⟨rfl, rfl, rfl, rfl, rfl⟩

theorem follows_admitDeployment (id : String) (request : CreateRequest) (input : CreateInput)
    (resolved : Resolved) :
    (outline settings).Follows (fun _ _ => True) κ
      (admitDeployment settings id request input resolved) := by
  unfold admitDeployment
  dsimp only
  generalize (if input.template.id = "" then trimSpace settings.templateID
    else input.template.id) = templateID
  split
  · exact follows_respond _ _
  · refine Outline.follows_ask_bind trivial fun configured _ => ?_
    split
    · exact follows_respond _ _
    · refine Outline.follows_ask_bind trivial fun available _ => ?_
      split
      · exact follows_respond _ _
      · refine Outline.follows_ask_bind trivial fun found _ => ?_
        split
        · exact follows_respond _ _
        · refine Outline.follows_ask_bind trivial fun now _ => ?_
          refine Outline.Follows.bind ?_
            (follows_createDeploymentWithScopeLimit (newDeployment_new ..))
          intro κ' err _
          cases err with
          | none => exact follows_respond _ _
          | some e => exact follows_respondRefused id request e

theorem follows_handleUserCreateDeployment (accountID : Nat) (key : String) (input : CreateInput) :
    (outline settings).Follows (fun _ _ => True) κ
      (handleUserCreateDeployment settings accountID key input) := by
  unfold handleUserCreateDeployment
  split
  · exact follows_respond _ _
  · dsimp only
    split
    · exact follows_respond _ _
    · refine Outline.follows_ask_bind trivial fun authorized _ => ?_
      split
      · exact follows_respond _ _
      · refine Outline.follows_ask_bind trivial fun resolved _ => ?_
        split
        · rename_i hkey
          refine Outline.follows_ask_bind trivial fun id _ => ?_
          rw [if_neg (by simp [hkey])]
          exact follows_admitDeployment _ _ _ _
        · rw [Prog.pure_eq, Prog.done_bind]
          refine Outline.Follows.bind ?_ (follows_writeDeploymentReplay _ _)
          intro κ' answered _
          split
          · exact Outline.follows_pure trivial
          · exact follows_admitDeployment _ _ _ _

/-! ### The machine -/

theorem follows_prog (op : Op) : (outline settings).Follows (fun _ _ => True) κ (prog settings op) := by
  cases op with
  | lane kind id => exact follows_runLane _ _ _
  | process id =>
    exact Outline.Follows.bind (fun _ _ _ => Outline.follows_pure trivial) (follows_process _ _)
  | workerStop id expired =>
    exact Outline.Follows.bind (fun _ _ _ => Outline.follows_pure trivial) (follows_stop _ _ _)
  | stop id => exact follows_handleUserStopDeployment _
  | retry accountID id mode => exact follows_handleUserRetryDeployment _ _ _
  | create accountID key input => exact follows_handleUserCreateDeployment _ _ _
  | prune before limit => exact follows_pruneDeployments _ _
  | fillTitle id ref title => exact follows_last (.fillTitle _ _ _) trivial

theorem Inv.restart {s : State} (h : Inv s) : Inv s.restart :=
  { h with
    tickets := fun hmem => by cases hmem
    oneTicket := List.nodup_nil
    covered := fun hno attempt hu => by
      refine h.covered hno attempt ⟨hu.1.imp_right ?_, hu.2⟩
      rintro ⟨_, hmem⟩
      cases hmem
    pending := fun hp => by
      obtain ⟨⟨_, hmem⟩, -⟩ := hp
      cases hmem }

/-- The calls do what the outline says, and the programs follow it. -/
theorem outline_sound (settings : Settings) : (outline settings).Sound fun _ => [] where
  serve hinv hκ hmay hok hserve := by
    have h := served hinv hκ hmay hok hserve
    exact ⟨h.tells, h.inv, h.holds, h.effect⟩
  stable hij hinv _ heffect hκ f hf :=
    (hκ f hf).stable heffect.1 (heffect.2 _ hij) fun hmem => (hinv.tickets hmem).2
  fresh_holds _ _ := fun _ hf => by cases hf
  restart_inv h := h.restart
  follows op := follows_prog op

end CiRunner.Deployments
