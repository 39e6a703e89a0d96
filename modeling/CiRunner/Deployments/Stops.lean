import CiRunner.Threads.Sequential
import CiRunner.Deployments.Runs

/-! A deployment that a user stops. The stop looks for a sandbox that a creation may
still bring, wherever a deployment that it leaves stopping has an attempt and no
sandbox. The attempt outlives retries, so a deployment that is planned again is
taken for one that is being created. -/

namespace CiRunner.Deployments

open Text Threads
open CiRunner.State (Time)

/-! ### The calls of a stop -/

def Succeeds : (c : Call) → Reply c → Prop
  | .getDeployment _ _, r => ∃ d, r = .ok d
  | .updateDeployment _ _, r => r = none
  | .reconcile _, r => r ≠ .failed ∧ ∀ h, r = .found h → h.sandboxID ≠ ""
  | .connect _, r => r ≠ .failed
  | .close _, r => r = true
  | .stopProcess _, r => r ≠ .failed
  | .remote _, r => r = true
  | _, _ => True

/-- The answer is not that something is pending or has gone wrong. -/
def AnswersDone : Call → Prop
  | .respond _ (.deployment status _) => status = 200
  | .respond _ _ => False
  | _ => True

/-- An attempt was begun, there is no sandbox, and a stop leaves the deployment stopping. -/
def Deployment.AwaitsCreation (d : Deployment) : Prop :=
  0 < d.attempt ∧ trimSpace d.sandboxID = "" ∧ d.stopRequested.status = .stopping ∧
    ¬(d.status.terminal = true ∧ d.sandboxID = "")

instance (d : Deployment) : Decidable d.AwaitsCreation :=
  inferInstanceAs (Decidable (_ ∧ _ ∧ _ ∧ ¬_))

/-- The store and the provider do what the stop asks them, others leave the deployment alone, and
it does not await a creation, unless that can be given up. -/
def stopTerms (settings : Settings) (id : String) (awaits : Prop) : (machine settings).Terms where
  others s s' := s'.store.find id = s.store.find id
  may := AnswersDone
  ok c x r := Succeeds c r ∧ ∀ d, c = .nowAfterLookup d → awaits → d.expiresAt + createGrace ≤ x.now

/-- The calls of a stop that change no deployment. -/
def Call.Observes : Call → Prop
  | .nowAfterLookup _ | .appendEvent _ | .reconcile _ | .connect _ | .close _ | .stopProcess _
  | .remote _ | .respond _ _ => True
  | _ => False

variable {settings : Settings} {n i : Nat} {id : String} {awaits : Prop} {s t : State} {d row : Deployment}
  {α : Type} {Q : α → State → Prop}

theorem find_of_observes {c : Call} {x : Choice} {r : Reply c} (hc : c.Observes)
    (h : serve n i c x s = some (r, t)) : t.store.find id = s.store.find id := by
  cases c with
  | nowAfterLookup d =>
    cases h
    split
    · rfl
    · unfold State.settle
      split <;> rfl
  | appendEvent e =>
    cases h
    split
    · rfl
    · rw [Store.find, Store.deployments_commit_appendEvent]
      rfl
  | reconcile d =>
    obtain ⟨r', -, he⟩ := Option.map_eq_some_iff.mp h
    cases he
    rfl
  | connect d =>
    have hs : t = (s.connect d x).2 := by rw [Option.some.inj h]
    rw [hs]
    unfold State.connect
    split <;> rfl
  | close handle =>
    have hs : (if x.fails then (false, s) else
        (true, { s with gone := handle.sandboxID :: s.gone })) = (r, t) := Option.some.inj h
    split at hs
    all_goals cases hs; rfl
  | stopProcess process => cases h; rfl
  | remote request => cases h; rfl
  | respond request response =>
    cases h
    split <;> rfl
  | _ => cases hc

/-! ### Rules -/

/-- The row has what was written of the copy. -/
structure Deployment.Saves (row d : Deployment) : Prop where
  status : row.status = d.status
  sandbox : row.sandboxID = trimSpace d.sandboxID
  attempt : row.attempt = d.attempt

section Rules

theorem yields_succeeds {c : Call} {k : Reply c → Prog Reply α} (hmay : AnswersDone c)
    (hk : ∀ r t, Succeeds c r →
      (machine settings).Yields i (stopTerms settings id awaits) Q (k r) t) :
    (machine settings).Yields i (stopTerms settings id awaits) Q (ask c >>= k) s :=
  Machine.yields_ask.mpr ⟨hmay, fun _ _ _ r t _ hok => hk r t hok.1⟩

theorem yields_observes {c : Call} {k : Reply c → Prog Reply α} (hc : c.Observes)
    (hmay : AnswersDone c) (hrow : s.store.find id = some row)
    (hk : ∀ x r s t, serve settings.maxConcurrent i c x s = some (r, t) →
      t.store.find id = some row → (stopTerms settings id awaits).ok c x r →
      (machine settings).Yields i (stopTerms settings id awaits) Q (k r) t) :
    (machine settings).Yields i (stopTerms settings id awaits) Q (ask c >>= k) s := by
  refine Machine.yields_ask.mpr ⟨hmay, fun s' ho x r t hserve hok => ?_⟩
  have ht : t.store.find id = some row := (find_of_observes hc hserve).trans (ho.trans hrow)
  exact hk x r s' t hserve ht hok

theorem yields_getDeployment {purpose : Purpose} {key : String}
    {k : Except StoreError Deployment → Prog Reply α} (htrim : trimSpace key = id)
    (hrow : s.store.find id = some row)
    (hk : ∀ t, t.store.find id = some row →
      (machine settings).Yields i (stopTerms settings id awaits) Q (k (.ok row)) t) :
    (machine settings).Yields i (stopTerms settings id awaits) Q
      (ask (.getDeployment purpose key) >>= k) s := by
  refine Machine.yields_ask.mpr ⟨trivial, fun s' ho x r t hserve hok => ?_⟩
  obtain ⟨⟨d, rfl⟩, -⟩ := hok
  have hfind : s'.store.find id = some row := ho.trans hrow
  change some (_, s') = some (_, t) at hserve
  rw [htrim, hfind] at hserve
  split at hserve
  · cases hserve
  · cases hserve
    exact hk _ hfind

theorem yields_updateDeployment {w : Site} {k : Option StoreError → Prog Reply α}
    (htrim : trimSpace d.id = id)
    (hk : ∀ t row, t.store.find id = some row → row.Saves d →
      (machine settings).Yields i (stopTerms settings id awaits) Q (k none) t) :
    (machine settings).Yields i (stopTerms settings id awaits) Q
      (ask (.updateDeployment w d) >>= k) s := by
  refine Machine.yields_ask.mpr ⟨trivial, fun s' ho x r t hserve hok => ?_⟩
  obtain rfl : r = none := hok.1
  have hs : (if x.fails then (some .database, s') else s'.updateDeployment i w d x) = (none, t) :=
    Option.some.inj hserve
  split at hs
  · cases hs
  · rcases State.updateDeployment_cases hs with ⟨-, hne⟩ |
      ⟨d', found, store, hn, -, -, hfind, -, rfl⟩
    · exact absurd rfl hne
    · obtain ⟨name, plan, template, rfl⟩ := normalizeDeployment_ok hn
      exact hk _ _ ((hfind id).trans (if_pos htrim.symm)) ⟨rfl, rfl, rfl⟩

theorem yields_persist {w : Site} (htrim : trimSpace d.id = id) :
    (machine settings).Yields i (stopTerms settings id awaits)
      (fun b t => b = ({ d with version := d.version + 1 }, none) ∧
        ∃ row, t.store.find id = some row ∧ row.Saves d) (persist w d) s :=
  yields_updateDeployment htrim fun _ row hrow hsaves =>
    Machine.yields_done.mpr ⟨rfl, row, hrow, hsaves⟩

theorem yields_transition {w : Site} {status : DeploymentStatus} {stage : Option Stage}
    {reason : String} (htrim : trimSpace d.id = id) :
    (machine settings).Yields i (stopTerms settings id awaits)
      (fun b t => b = ({ d.transitioned status stage reason with version := d.version + 1 }, none) ∧
        ∃ row', t.store.find id = some row' ∧ row'.Saves (d.transitioned status stage reason))
      (transition w d status stage reason) s := by
  refine (yields_persist (d := d.transitioned status stage reason) htrim).bind ?_
  rintro _ t ⟨rfl, row', hrow', hsaves⟩
  refine yields_observes (c := .appendEvent _) trivial trivial hrow' ?_
  intro x r s t _ ht _
  exact Machine.yields_done.mpr ⟨rfl, row', ht, hsaves⟩

/-! ### Stopping -/

/-- The stop has succeeded, and the deployment has ended. -/
def StoppedAt (id : String) (err : Option WorkerError) (t : State) : Prop :=
  err = none ∧ ∃ row, t.store.find id = some row ∧ row.status.terminal = true

theorem terminal_ended (d : Deployment) (plan : StopPlan) (expired : Bool) :
    (d.ended plan expired).status.terminal = true := by
  simp only [Deployment.ended]
  split
  · rfl
  · split <;> rfl

theorem yields_finishStop {plan : StopPlan} {expired : Bool} (htrim : trimSpace d.id = id) :
    (machine settings).Yields i (stopTerms settings id awaits) (StoppedAt id)
      (finishStop plan d expired) s := by
  refine (yields_persist (d := d.ended plan expired) htrim).bind ?_
  rintro _ t ⟨rfl, row', hrow', hsaves⟩
  exact Machine.yields_done.mpr
    ⟨rfl, row', hrow', hsaves.status ▸ terminal_ended d plan expired⟩

theorem yields_closeDeployment {plan : StopPlan} {expired : Bool} {handle : Handle}
    (htrim : trimSpace d.id = id) :
    (machine settings).Yields i (stopTerms settings id awaits) (StoppedAt id)
      (closeDeployment plan d expired handle) s := by
  have hclose (t : State) :
      (machine settings).Yields i (stopTerms settings id awaits) (StoppedAt id)
        (do if ← ask (.close handle) then finishStop plan d expired else cleanupFailed plan d) t := by
    refine yields_succeeds (c := .close handle) trivial ?_
    rintro r t rfl
    exact yields_finishStop htrim
  unfold closeDeployment
  dsimp only
  split
  · refine yields_succeeds (c := .stopProcess _) trivial ?_
    intro r t hr
    rw [if_neg hr]
    exact hclose t
  · exact hclose s

theorem yields_cleanUp {plan : StopPlan} {expired : Bool} (htrim : trimSpace d.id = id) :
    (machine settings).Yields i (stopTerms settings id awaits) (StoppedAt id)
      (cleanUp plan d expired) s := by
  unfold cleanUp
  split
  · exact yields_finishStop htrim
  · refine yields_succeeds (c := .connect d) trivial ?_
    rintro (handle | _ | _) t hr
    · exact yields_closeDeployment htrim
    · exact yields_finishStop htrim
    · exact absurd rfl hr

theorem yields_reconcileStop (hawaits : awaits) (htrim : trimSpace d.id = id) :
    (machine settings).Yields i (stopTerms settings id awaits)
      (fun b _ => b.2 = none ∧ trimSpace b.1.id = id) (reconcileStop d) s := by
  refine yields_succeeds (c := .reconcile d) trivial ?_
  rintro (handle | _ | _) t ⟨hfailed, hfound⟩
  · dsimp only
    rw [if_neg (hfound handle rfl)]
    refine (yields_persist (d := d.withSandbox handle.sandboxID handle.sandboxID) htrim).mono ?_
    rintro _ u ⟨rfl, -⟩
    exact ⟨rfl, htrim⟩
  · refine Machine.yields_ask.mpr ⟨trivial, fun s' _ x now u hserve hok => ?_⟩
    obtain rfl : x.now = now := congrArg Prod.fst (Option.some.inj hserve)
    rw [if_neg (Nat.not_lt.mpr (hok.2 d rfl hawaits))]
    exact Machine.yields_done.mpr ⟨rfl, htrim⟩
  · exact absurd rfl hfailed

theorem yields_stopLoaded {expired : Bool} (htrim : trimSpace d.id = id)
    (hrow : s.store.find id = some d)
    (hawaits : d.sandboxID = "" ∧ 0 < d.attempt ∧ (d.status = .creating ∨ d.status = .stopping) →
      awaits) :
    (machine settings).Yields i (stopTerms settings id awaits) (StoppedAt id)
      (stopLoaded d expired) s := by
  unfold stopLoaded
  extract_lets plan
  split
  · rename_i hover
    exact Machine.yields_done.mpr ⟨rfl, d, hrow, hover.1⟩
  · rename_i rest _
    have hrest (b : Outcome) (t : State) (hb : b.2 = none ∧ trimSpace b.1.id = id) :
        (machine settings).Yields i (stopTerms settings id awaits) (StoppedAt id) (rest b) t := by
      obtain ⟨d', err⟩ := b
      obtain ⟨rfl, htrim'⟩ := hb
      refine (yields_transition htrim').bind ?_
      rintro _ u ⟨rfl, -⟩
      exact yields_cleanUp htrim'
    split
    · rename_i hlook
      exact (yields_reconcileStop (hawaits hlook) htrim).bind hrest
    · exact hrest (d, none) s ⟨rfl, htrim⟩

theorem yields_Stop {key : String} (htrim : trimSpace key = id) (hid : trimSpace row.id = id)
    (hrow : s.store.find id = some row)
    (hawaits : row.sandboxID = "" ∧ 0 < row.attempt ∧
      (row.status = .creating ∨ row.status = .stopping) → awaits) :
    (machine settings).Yields i (stopTerms settings id awaits) (StoppedAt id) (Stop key false) s := by
  refine yields_getDeployment htrim hrow fun t ht => ?_
  exact yields_stopLoaded hid ht hawaits

theorem yields_stopAndRespond {key : String} (htrim : trimSpace key = id)
    (hid : trimSpace row.id = id) (hrow : s.store.find id = some row)
    (hawaits : row.sandboxID = "" ∧ 0 < row.attempt ∧
      (row.status = .creating ∨ row.status = .stopping) → awaits) :
    (machine settings).Yields i (stopTerms settings id awaits)
      (fun _ t => ∃ row, t.store.find id = some row ∧ row.status.terminal = true)
      (stopAndRespond key) s := by
  refine (yields_Stop htrim hid hrow hawaits).bind ?_
  rintro _ t ⟨rfl, ended, hended, hterminal⟩
  refine yields_getDeployment htrim hended fun u hu => ?_
  refine yields_observes (k := pure) (c := .respond none (.deployment 200 ended)) trivial rfl hu ?_
  intro x r s v _ hv _
  exact Machine.yields_done.mpr ⟨ended, hv, hterminal⟩

end Rules

/-- The answer that a thread is about to give. -/
def answering (cfg : Config Reply State) (i : Nat) : Option Response :=
  match (cfg.threads[i]? : Option (Prog Reply Unit)) with
  | some (.call (.respond _ r) _) => some r
  | _ => none

/-- The thread is about to answer that the deployment is stopping. -/
def answersStopping (cfg : Config Reply State) (i : Nat) : Bool :=
  match answering cfg i with
  | some (.deployment status d) => status = 202 && d.status = .stopping
  | _ => false

theorem of_answersStopping {cfg : Config Reply State} {i : Nat}
    (h : answersStopping cfg i = true) :
    ∃ d, answering cfg i = some (.deployment 202 d) ∧ d.status = .stopping := by
  unfold answersStopping at h
  split at h
  · rename_i status d hd
    simp only [Bool.and_eq_true, decide_eq_true_eq] at h
    exact ⟨d, h.1 ▸ hd, h.2⟩
  · cases h

end CiRunner.Deployments
