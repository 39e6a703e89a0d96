import CiRunner.Deployments.Handlers

/-! The programs that have no part in creating deployments: the lanes of the worker,
the handlers that stop and retry, and the upkeep. None of their calls creates a
deployment or answers a request to create one. -/

namespace CiRunner.Deployments

open Text Threads Prog
open CiRunner.State (Time)

/-- The call neither creates a deployment nor answers a request to create one. -/
def Call.Apart : Call → Prop
  | .commitCreate _ _ | .respond (some _) _ => False
  | _ => True

/-! ### The worker -/

theorem only_persist (w : Site) (d : Deployment) : (persist w d).Only Call.Apart := by
  refine only_bind (only_ask trivial) fun r => ?_
  cases r <;> exact only_pure _

theorem only_emit (d : Deployment) (eventType stage message stream : String) :
    (emit d eventType stage message stream).Only Call.Apart := only_ask trivial

theorem only_transition (w : Site) (d : Deployment) (status : DeploymentStatus)
    (stage : Option Stage) (reason : String) :
    (transition w d status stage reason).Only Call.Apart := by
  have hp := only_persist
  have he := only_emit
  unfold transition
  grind

theorem only_fail (w : Site) (d : Deployment) (stage : Stage) (reason : String) :
    (fail w d stage reason).Only Call.Apart := by
  have hp := only_persist
  have he := only_emit
  unfold fail
  grind

theorem only_closeAttempt (handle : Option Handle) : (closeAttempt handle).Only Call.Apart := by
  cases handle with
  | none => exact only_pure _
  | some handle => exact only_ask trivial

theorem only_cleanUp (plan : StopPlan) (d : Deployment) (expired : Bool) :
    (cleanUp plan d expired).Only Call.Apart := by
  have hp := only_persist
  have hf := only_fail
  have hstop : ∀ process, (ask (.stopProcess process)).Only Call.Apart := fun _ => only_ask trivial
  have hclose : ∀ handle, (ask (.close handle)).Only Call.Apart := fun _ => only_ask trivial
  have hconnect : ∀ d, (ask (.connect d)).Only Call.Apart := fun _ => only_ask trivial
  unfold cleanUp closeDeployment cleanupFailed failCleanup finishStop
  grind

theorem only_reconcileStop (d : Deployment) : (reconcileStop d).Only Call.Apart := by
  have hp := only_persist
  have hfind : (ask (.reconcile d)).Only Call.Apart := only_ask trivial
  have hnow : (ask (.nowAfterLookup d)).Only Call.Apart := only_ask trivial
  unfold reconcileStop
  grind

theorem only_stopLoaded (d : Deployment) (expired : Bool) :
    (stopLoaded d expired).Only Call.Apart := by
  have hr := only_reconcileStop
  have ht := only_transition
  have hc := only_cleanUp
  unfold stopLoaded
  grind

theorem only_stop (id : String) (expired : Bool) (observed : Option Deployment) :
    (stop id expired observed).Only Call.Apart := by
  have hl := only_stopLoaded
  have hget : (ask (.getDeployment .act id)).Only Call.Apart := only_ask trivial
  unfold stop
  grind

theorem only_onStage (d : Deployment) (stage : ApplyStage) :
    (onStage d stage).Only Call.Apart := by
  have he := only_emit
  have ht := only_transition
  unfold onStage
  grind

theorem only_onCheckpoint (d : Deployment) (process : ProcessRef) (intentTag : String) :
    (onCheckpoint d process intentTag).Only Call.Apart :=
  only_bind (only_persist _ _) fun _ => only_pure _

theorem only_apply (n : Nat) (d : Deployment) : (apply n d).Only Call.Apart := by
  induction n generalizing d with
  | zero => exact only_pure d
  | succ n ih =>
    refine only_bind (only_ask trivial) fun event => ?_
    cases event with
    | stage stage => exact only_bind (only_onStage d stage) ih
    | checkpoint process intentTag => exact only_bind (only_onCheckpoint d process intentTag) ih
    | output stage stream message => exact only_bind (only_emit _ _ _ _ _) fun _ => ih d

theorem only_applyFailed (d : Deployment) (handle : Handle) (stage : ApplyStage) :
    (applyFailed d handle stage).Only Call.Apart := by
  have hc := only_closeAttempt
  have ht := only_transition
  have hf := only_fail
  have hnow : (ask .now).Only Call.Apart := only_ask trivial
  unfold applyFailed
  grind

theorem only_abandon (handle : Handle) (err : WorkerError) :
    (abandon handle err).Only Call.Apart :=
  only_bind (only_closeAttempt _) fun _ => only_pure _

theorem only_execute (d : Deployment) (handle : Handle) : (execute d handle).Only Call.Apart := by
  have ha := only_abandon
  refine only_bind (only_persist _ _) fun r => ?_
  obtain ⟨d, _ | err⟩ := r
  · refine only_bind (only_ask trivial) fun n => only_bind (only_apply n d) fun d => ?_
    refine only_bind (only_ask trivial) fun result => ?_
    cases result with
    | failed stage => exact only_applyFailed d handle stage
    | ready endpoint process =>
      refine only_bind (only_transition _ _ _ _ _) fun r => ?_
      grind
  · exact only_abandon handle err

theorem only_createFailed (d : Deployment) (handle : Option Handle) :
    (createFailed d handle).Only Call.Apart := by
  have hp := only_persist
  have hc := only_closeAttempt
  have hf := only_fail
  unfold createFailed
  grind

theorem only_createAttempt (d : Deployment) : (createAttempt d).Only Call.Apart := by
  have he := only_emit
  have hc := only_closeAttempt
  have hf := only_fail
  have hfailed := only_createFailed
  have hexecute := only_execute
  have hask : (ask (.createRuntime d d.attempt)).Only Call.Apart := only_ask trivial
  unfold createAttempt
  grind

theorem only_processPlanning (templateID : String) (d : Deployment) :
    (processPlanning templateID d).Only Call.Apart := by
  have hf := only_fail
  have ht := only_transition
  have hc := only_createAttempt
  have hask : ∀ request, (ask (.remote request)).Only Call.Apart := fun _ => only_ask trivial
  have hrestore : restorePlan.Only Call.Apart := by
    unfold restorePlan
    grind
  unfold processPlanning
  grind

theorem only_process (templateID id : String) : (process templateID id).Only Call.Apart := by
  have hs := only_stop
  have ht := only_transition
  have hp := only_processPlanning
  have hget : (ask (.getDeployment .act id)).Only Call.Apart := only_ask trivial
  have hnow : (ask .now).Only Call.Apart := only_ask trivial
  unfold process Stop
  grind

theorem only_interrupted (d : Deployment) : (interrupted d).Only Call.Apart := by
  have hs := only_stop
  have hf := only_fail
  have hnow : (ask .now).Only Call.Apart := only_ask trivial
  unfold interrupted Stop
  grind

theorem only_recoverCreating (d : Deployment) : (recoverCreating d).Only Call.Apart := by
  have hp := only_persist
  have hf := only_fail
  have hi := only_interrupted
  have hfind : (ask (.reconcile d)).Only Call.Apart := only_ask trivial
  have hnow : (ask (.nowAfterLookup d)).Only Call.Apart := only_ask trivial
  unfold recoverCreating
  grind

theorem only_checkRunning (d : Deployment) : (checkRunning d).Only Call.Apart := by
  have hs := only_stop
  have hf := only_fail
  have hconnect : (ask (.connect d)).Only Call.Apart := only_ask trivial
  have hinspect : (ask (.inspect d.process)).Only Call.Apart := only_ask trivial
  have hnow : (ask .now).Only Call.Apart := only_ask trivial
  have hprobe : (probe d).Only Call.Apart := by
    unfold probe
    grind
  unfold checkRunning Stop
  grind

theorem only_advance (templateID : String) (item : Deployment) :
    (advance templateID item).Only Call.Apart := by
  have hr := only_recoverCreating
  have ht := only_transition
  have hs := only_stop
  have hp := only_process
  have hc := only_checkRunning
  have hnow : (ask .now).Only Call.Apart := only_ask trivial
  unfold advance Stop
  grind

theorem only_runLane (templateID : String) (kind : WorkKind) (id : String) :
    (runLane templateID kind id).Only Call.Apart := by
  have ha := only_advance
  have hlist : (ask (.listWork kind id)).Only Call.Apart := only_ask trivial
  unfold runLane
  grind

/-! ### The handlers -/

theorem only_respond (r : Response) : (ask (.respond none r)).Only Call.Apart := only_ask trivial

theorem only_load (purpose : Purpose) (id : String) :
    (ask (.getDeployment purpose id)).Only Call.Apart := only_ask trivial

theorem only_loadAuthorizedDeployment (id : String) :
    (loadAuthorizedDeployment id).Only Call.Apart := by
  have hl := only_load
  have hr := only_respond
  have hask : (ask (.remote .authorize)).Only Call.Apart := only_ask trivial
  unfold loadAuthorizedDeployment
  grind

theorem only_respondDeployment (status : Nat) (id : String) :
    (respondDeployment status id).Only Call.Apart := by
  have hl := only_load
  have hr := only_respond
  unfold respondDeployment
  grind

theorem only_stopAndRespond (id : String) : (stopAndRespond id).Only Call.Apart := by
  have hs := only_stop
  have hl := only_load
  have hr := only_respond
  have hd := only_respondDeployment
  unfold stopAndRespond Stop
  grind

theorem only_handleUserStopDeployment (id : String) :
    (handleUserStopDeployment id).Only Call.Apart := by
  have ha := only_loadAuthorizedDeployment
  have hs := only_stopAndRespond
  have hr := only_respond
  have hask : ∀ w d, (ask (.updateDeployment w d)).Only Call.Apart := fun _ _ => only_ask trivial
  unfold handleUserStopDeployment
  grind

theorem only_loadForRetry (d : Deployment) (mode : RetryMode) :
    (loadForRetry d mode).Only Call.Apart := by
  have hs := only_stop
  have hl := only_load
  have hr := only_respond
  unfold loadForRetry Stop
  grind

theorem only_planForRetry (d : Deployment) (mode : RetryMode) :
    (planForRetry d mode).Only Call.Apart := by
  have hr := only_respond
  have hrevision : ∀ id n, (ask (.getRevision id n)).Only Call.Apart := fun _ _ => only_ask trivial
  have hsource : (ask (.remote .resolveSource)).Only Call.Apart := only_ask trivial
  have hresolve : (ask .resolve).Only Call.Apart := only_ask trivial
  unfold planForRetry
  grind

theorem only_retryPlanned (accountID : Nat) (d : Deployment) :
    (retryPlanned accountID d).Only Call.Apart := by
  have hr := only_respond
  have hask : ∀ request, (ask (.remote request)).Only Call.Apart := fun _ => only_ask trivial
  have hresolve : (ask .resolve).Only Call.Apart := only_ask trivial
  have hnow : (ask .now).Only Call.Apart := only_ask trivial
  have hadmit : ∀ d expiresAt, (retryDeploymentWithScopeLimit d expiresAt).Only Call.Apart := by
    intro d expiresAt
    have hlock : (ask (.lockScope d.scope)).Only Call.Apart := only_ask trivial
    have hquota : (ask (.checkQuota d d.id)).Only Call.Apart := only_ask trivial
    have hcommit : ∀ event, (ask (.commitRetry d expiresAt event)).Only Call.Apart :=
      fun _ => only_ask trivial
    unfold retryDeploymentWithScopeLimit
    grind
  have hanswer : ∀ id err, (respondRetry id err).Only Call.Apart := by
    intro id err
    have hd := only_respondDeployment
    unfold respondRetry
    grind
  unfold retryPlanned
  grind

theorem only_handleUserRetryDeployment (accountID : Nat) (id : String) (mode : RetryMode) :
    (handleUserRetryDeployment accountID id mode).Only Call.Apart := by
  have hl := only_loadForRetry
  have hp := only_planForRetry
  have ht := only_retryPlanned
  have hr := only_respond
  refine only_bind (only_loadAuthorizedDeployment id) fun loaded => ?_
  rcases loaded with _ | d
  · exact only_pure _
  · grind

theorem only_pruneDeployments (before : Time) (limit : Nat) :
    (pruneDeployments before limit).Only Call.Apart := by
  have hlist : (ask (.listPrunable before limit)).Only Call.Apart := only_ask trivial
  have hprune : ∀ records, (ask (.prune records before)).Only Call.Apart := fun _ => only_ask trivial
  unfold pruneDeployments
  grind

theorem only_prog (settings : Settings) {op : Op}
    (hop : ∀ accountID key input, op ≠ .create accountID key input) :
    (prog settings op).Only Call.Apart := by
  cases op with
  | lane kind id => exact only_runLane _ _ _
  | process id => exact only_bind (only_process _ _) fun _ => only_pure _
  | workerStop id expired => exact only_bind (only_stop _ _ _) fun _ => only_pure _
  | stop id => exact only_handleUserStopDeployment id
  | retry accountID id mode => exact only_handleUserRetryDeployment accountID id mode
  | create accountID key input => exact absurd rfl (hop accountID key input)
  | prune before limit => exact only_pruneDeployments before limit
  | fillTitle id ref title => exact only_ask trivial

end CiRunner.Deployments
