import CiRunner.Lifecycle.Provenance

/-! Attempts of one request. An attempt may write the row of its request as long as
it is the last one that was begun. On Windows the creation lock keeps attempts
apart; elsewhere nothing does, and the fence holds in the runs in which an attempt
is over when the next one is begun. A running row then has its sandbox and its
service from one attempt. -/

namespace CiRunner.Lifecycle

open Threads Tables CiRunner.State

def Call.attempt : Call → Option Nat
  | .writeState w _ => w.attempt
  | .releaseLease n _ _ => some n
  | _ => none

/-! ### Attempts under way -/

/-- The attempt that news from outside is about: the output of a runner, or a sandbox that recovery
has found. -/
def Writer.reported : Writer → Option Nat
  | .jobStarted n | .reconnect n => n
  | _ => none

def Writer.reconnects : Writer → Bool
  | .reconnect _ => true
  | _ => false

instance (c : Core) : Decidable c.Started := inferInstanceAs (Decidable (_ ∨ _))

instance (t : Trail) (c : Core) : Decidable (OwnService t c) :=
  inferInstanceAs (Decidable (_ → _ ∨ _))

/-- A write comes in turn: but for Windows, no other attempt is under way at a creating write; the
attempt that news from outside is about is the last one; and a runner is found again with the
service of the last attempt. -/
def InTurn (i : Nat) (s : State) (w : Writer) (r : RunnerState) : Prop :=
  (w = .creating → isWindows r.labels = false → ∀ p ∈ s.starts, p.1 = r.id → p.2 = i) ∧
  (∀ n, w.reported = some n → s.attempts r.id = n) ∧
  (w.reconnects = true → OwnService (s.trail r.id) (core r))

instance (i : Nat) (s : State) (w : Writer) (r : RunnerState) : Decidable (InTurn i s w r) :=
  inferInstanceAs (Decidable (_ ∧ _ ∧ _))

/-- The request whose service is looked up. -/
def configures : Call → Option String
  | .sandboxConfig id => some id
  | _ => none

variable (cfg : Settings)

/-- No claim is overtaken, the writes come in turn, and a request without a service of its own has
none left from an earlier attempt. -/
def Fenced : (machine cfg).Condition := fun i c x s =>
  NotOvertaken cfg i c x s ∧ WritesFind cfg (fun i s w _ r => InTurn i s w r) i c x s ∧
  ∀ id, configures c = some id → x.err = none → unconfigured x.config = true →
    ∀ r, s.rows.find (sanitizeID id) = some r → OwnService (s.trail (sanitizeID id)) (core r)

instance (i : Nat) (c : Call) (x : Choice) (s : State) : Decidable (Fenced cfg i c x s) :=
  inferInstanceAs (Decidable (_ ∧ _ ∧ ∀ id, configures c = some id → x.err = none →
    unconfigured x.config = true → ∀ r, s.rows.find (sanitizeID id) = some r →
      OwnService (s.trail (sanitizeID id)) (core r)))

/-- The service of a request is that of its last attempt. -/
def ServesOwn (s : State) (k : String) : Prop :=
  ∀ r, s.rows.find k = some r → OwnService (s.trail k) (core r)

structure FenceInv (s : State) : Prop where
  /-- An attempt on Windows holds the creation lock. -/
  starts : ∀ k j, (k, j) ∈ s.starts → ∃ r, s.rows.find k = some r ∧
    (isWindows r.labels = true → s.creationLocks k = some j)
  rows : ∀ k r, s.rows.find k = some r → OneAttempt (s.trail k) (core r)

/-- A thread on an attempt is on the last one of its request. -/
structure Attempting (i : Nat) (κ : Know) (s : State) : Prop where
  last : ∀ k n, κ.attempt = some (k, n) → (k, i) ∈ s.starts ∧ s.attempts k = n
  served : ∀ k n, κ.attempt = some (k, n) → κ.served = true → ServesOwn s k

/-- A step does not begin an attempt of a request while another thread is on one. -/
structure Undisturbing (i : Nat) (s s' : State) : Prop where
  starts : ∀ k j, j ≠ i → (k, j) ∈ s.starts → (k, j) ∈ s'.starts ∧ s'.attempts k = s.attempts k
  service : ∀ k j, j ≠ i → (k, j) ∈ s.starts → ServesOwn s k → ServesOwn s' k

def fenceReading : Reading cfg where
  ok := Fenced cfg
  inv s := RowsOk s ∧ FenceInv s
  holds i κ s := Holds i κ s ∧ Attempting i κ s
  effect i s s' := Effect i s s' ∧ Undisturbing i s s'

/-! ### What a call does to the attempts under way -/

variable {cfg} {i : Nat} {κ : Know} {x : Choice} {c : Call} {s s' : State}

inductive Process (i : Nat) (s : State) : Call → State → Prop
  | rest {c : Call} {s' : State} (starts : s'.starts = s.starts)
      (locks : s'.creationLocks = s.creationLocks) : Process i s c s'
  | started {id : String} {s' : State} (starts : s'.starts = (sanitizeID id, i) :: s.starts)
      (locks : s'.creationLocks = s.creationLocks) : Process i s (.startBegin id) s'
  | ended {id : String} {s' : State}
      (starts : s'.starts = s.starts.filter (· ≠ (sanitizeID id, i)))
      (locks : s'.creationLocks = s.creationLocks) : Process i s (.startDone id) s'
  | locked {id : String} {s' : State} (starts : s'.starts = s.starts)
      (free : s.creationLocks id = none)
      (locks : s'.creationLocks = Function.update s.creationLocks id (some i)) :
      Process i s (.lockCreation id) s'
  | unlocked {id : String} {s' : State} (starts : s'.starts = s.starts.filter (· ≠ (id, i)))
      (locks : s'.creationLocks = released s.creationLocks id i) :
      Process i s (.unlockCreation id) s'

theorem process_writeState (s : State) (i : Nat) (w : Writer) (st : RunnerState) (now : Time) :
    (s.writeState i w st now).2.starts = s.starts := by
  have hsettle : (s.settle i w).starts = s.starts := by
    unfold State.settle
    split <;> rfl
  rcases writeState_cases s i w st now with he | ⟨cur, -, -, -, he⟩
  · rw [he]
    exact hsettle
  · rw [he]
    exact ((record_frame (s.settle i w) w cur.id now).2.2.2.2).trans hsettle

theorem process_serve {a : Reply c} (h : serve cfg i c x s = some (a, s')) : Process i s c s' := by
  cases c with
  | writeState w st =>
    rcases hx : x.fails with _ | _ <;> simp only [serve, hx] at h
    · simp only [Bool.false_eq_true, if_false] at h
      have hw : s.writeState i w st x.now = (a, s') := Option.some.inj h
      have hs : (s.writeState i w st x.now).2 = s' := by rw [hw]
      rw [← hs]
      exact .rest (process_writeState s i w st x.now) (locks_writeState s i w st x.now).2.1
    · cases h
      unfold State.settle
      split <;> exact .rest rfl rfl
  | startBegin id => cases h; exact .started rfl rfl
  | startDone id => cases h; exact .ended rfl rfl
  | unlockCreation id => cases h; exact .unlocked rfl rfl
  | lockCreation id =>
    simp only [serve] at h
    split at h <;> cases h
    rename_i hfree
    exact .locked rfl hfree rfl
  | lock id =>
    simp only [serve] at h
    split at h <;> cases h
    exact .rest rfl rfl
  | claimUpdate candidate workerID now leaseTTL =>
    rcases hx : x.fails with _ | _ <;> simp only [serve, hx] at h
    · have hs : s' = (s.claimUpdate candidate workerID now leaseTTL).2 := by
        simp only [Bool.false_eq_true, if_false] at h
        rw [Option.some.inj h]
      rcases claimUpdate_cases s candidate workerID now leaseTTL with he | ⟨_, _, _, _, _, he⟩ <;>
        (rw [hs, he]; exact .rest rfl rfl)
    · cases h
      exact .rest rfl rfl
  | releaseLease | retryUpdate | createRequest =>
    rcases hx : x.fails with _ | _ <;> (simp only [serve, hx] at h; cases h; exact .rest rfl rfl)
  | reserve =>
    simp only [serve, State.reserve] at h
    split at h
    · cases h; exact .rest rfl rfl
    · split at h <;> (cases h; exact .rest rfl rfl)
  | stopSandbox sandboxID =>
    simp only [serve, State.stopSandbox] at h
    split at h
    · cases h; exact .rest rfl rfl
    · cases h
      split <;> exact .rest rfl rfl
  | _ => cases h; exact .rest rfl rfl

theorem Process.mem_of_ne (h : Process i s c s') {k : String} {j : Nat} (hj : j ≠ i)
    (hk : (k, j) ∈ s.starts) : (k, j) ∈ s'.starts := by
  have hne : ∀ key : String, (k, j) ≠ (key, i) := fun _ e => hj (Prod.mk.inj e).2
  cases h with
  | rest starts | locked starts => rw [starts]; exact hk
  | started starts => rw [starts]; exact List.mem_cons_of_mem _ hk
  | ended starts | unlocked starts =>
    rw [starts]
    exact List.mem_filter.mpr ⟨hk, decide_eq_true (hne _)⟩

/-! ### What a call does to the record of a request -/

/-- A creating write of the row with the given key is accepted. -/
structure Begins (κ : Know) (x : Choice) (s : State) (c : Call) (k : String) : Prop where
  call : ∃ st cur, c = .writeState .creating st ∧ s.rows.find k = some cur ∧ cur.id = k ∧
    Rewrite κ x c cur (st.written cur x.now)
  accepted : x.fails = false

theorem attempts_record {w : Writer} (hw : w ≠ .creating) (t : Trail) (now : Time) :
    (t.record now w).attempts = t.attempts := by
  cases w with
  | creating => exact absurd rfl hw
  | reconnect n => cases n <;> rfl
  | _ => rfl

/-- The number of attempts changes by creating writes only. -/
theorem Served.attempts (h : Served κ x s c s') (k : String) :
    s'.attempts k = s.attempts k ∨ (Begins κ x s c k ∧ s'.attempts k = s.attempts k + 1) := by
  cases h with
  | rest _ trail => exact .inl (congrArg Trail.attempts (congrFun trail k))
  | create => exact .inl rfl
  | @rewrite _ _ cur new hf hrow _ trail hx =>
    have htrail := congrArg Trail.attempts (congrFun trail k)
    by_cases hk : k = cur.id
    · subst hk
      cases hrow with
      | @write w st b _ hb hid hsame hkey hv hsite hpermit =>
        rw [recorded, trail_record_self] at htrail
        by_cases hw : w = .creating
        · subst hw
          exact .inr ⟨⟨⟨st, cur, rfl, hf, rfl, .write hb hid hsame hkey hv hsite hpermit⟩, hx⟩,
            htrail⟩
        · exact .inl (htrail.trans (attempts_record hw _ _))
      | claim | release | retry => exact .inl htrail
    · rw [trail_recorded hk s x c] at htrail
      exact .inl htrail

/-- No other attempt of a request is under way when one is begun. -/
theorem Begins.alone {k : String} (h : Begins κ x s c k) (hinv : FenceInv s) (hκ : Holds i κ s)
    (hok : Fenced cfg i c x s) {j : Nat} (hj : (k, j) ∈ s.starts) : j = i := by
  obtain ⟨⟨st, cur, rfl, hf, rfl, hrow⟩, hx⟩ := h
  cases hrow with
  | @write _ _ b _ _ hid hsame hkey hversion _ hpermit =>
    have hlabels : b.labels = cur.labels :=
      (congrArg RunnerState.labels hsame : b.clearLease.labels = cur.clearLease.labels)
    rcases hw : isWindows cur.labels with _ | _
    · exact (hok.2.1.row hx hf hkey hversion).1 rfl hw (cur.id, j) hj rfl
    · obtain ⟨r, hr, hlock⟩ := hinv.starts cur.id j hj
      rw [hf] at hr
      cases hr
      have hmine : s.creationLocks b.id = some i :=
        hκ.creation b.id (hpermit.2.2 (by rw [hlabels]; exact hw))
      rw [hid, hlock hw] at hmine
      exact Option.some.inj hmine

theorem NewRow.not_started {r : RunnerState} (h : NewRow r) : ¬ (core r).Started := by
  obtain hc | ⟨hs, -⟩ := h.status
  · rw [hc]
    simp [Core.Started]
  · simp [Core.Started, core, hs]

theorem ServesOwn.served {k : String} (h : Served κ x s c s') (ha : Attempting i κ s)
    (hsame : s'.attempts k = s.attempts k) (hs : ServesOwn s k) : ServesOwn s' k := by
  intro r hr
  obtain ⟨hf, ht⟩ | ⟨-, hnew, -⟩ | ⟨cur, hf, rfl, -, hrow, ht⟩ := h.row hr
  · rw [ht]
    exact hs r hf
  · exact fun hd => absurd hd hnew.not_started
  · rw [ht]
    cases hrow with
    | @write w st b _ _ hid _ _ _ hsite hpermit =>
      rw [recorded, trail_record_self] at ht ⊢
      rw [core_written]
      apply hsite.ownService _ _ (hs cur hf)
      · rintro rfl
        have hn : s'.attempts cur.id = s.attempts cur.id + 1 := congrArg Trail.attempts ht
        omega
      · rintro n rfl
        exact (ha.last cur.id n (hid ▸ hpermit)).2
    | claim => exact hs cur hf
    | release => exact hs cur hf
    | retry =>
      rw [core_retried]
      exact fun hd => by simp [Core.Started] at hd

theorem oneAttempt_served (h : Served κ x s c s') (hs : RowsOk s) (ha : Attempting i κ s)
    (hok : Fenced cfg i c x s) (hinv : FenceInv s) :
    ∀ k r, s'.rows.find k = some r → OneAttempt (s'.trail k) (core r) := by
  intro k r hr
  obtain ⟨hf, ht⟩ | ⟨-, hnew, -⟩ | ⟨cur, hf, rfl, hx, hrow, ht⟩ := h.row hr
  · rw [ht]
    exact hinv.rows k r hf
  · exact fun hd => absurd (.inr hd) hnew.not_started
  · rw [ht]
    have hcur := hinv.rows cur.id cur hf
    cases hrow with
    | @write w st b _ _ hid _ hkey hversion hsite hpermit =>
      have hturn := hok.2.1.row hx hf hkey hversion
      rw [recorded, trail_record_self, core_written]
      apply hsite.oneAttempt (hs cur.id cur hf).core _ _ _ hcur
      · rintro n rfl
        have hn : κ.attempt = some (cur.id, n) := hid ▸ hpermit.1
        exact ⟨(ha.last cur.id n hn).2, ha.served cur.id n hn hpermit.2.1 cur hf⟩
      · rintro n rfl
        exact (ha.last cur.id n (hid ▸ hpermit)).2
      · rintro n rfl
        exact ⟨fun m hm => hturn.2.1 m hm, hturn.2.2 rfl hsite.1⟩
    | claim => exact hcur
    | release => exact hcur
    | retry =>
      rw [core_retried]
      exact fun hd => by cases hd

/-! ### Soundness -/

/-- An attempt that is under way after a call was so before, or is begun by the call; on Windows
its thread holds the creation lock. -/
theorem fenceInv_starts {a : Reply c} (hκ : Holds i κ s) (hm : may cfg κ c) (he : Effect i s s')
    (hinv : FenceInv s) (h : serve cfg i c x s = some (a, s')) :
    ∀ k j, (k, j) ∈ s'.starts → ∃ r, s'.rows.find k = some r ∧
      (isWindows r.labels = true → s'.creationLocks k = some j) := by
  intro k j hj
  -- the row is still there with its labels, so only the lock is left to show
  have hkept : ∀ {r}, s.rows.find k = some r →
      (isWindows r.labels = true → s'.creationLocks k = some j) → ∃ r, s'.rows.find k = some r ∧
        (isWindows r.labels = true → s'.creationLocks k = some j) := by
    intro r hr hlock
    obtain ⟨r', hr', -⟩ := he.rows k r hr
    exact ⟨r', hr', fun hw => hlock (by rw [← he.labels k r r' hr hr']; exact hw)⟩
  cases process_serve h with
  | rest starts locks =>
    rw [starts] at hj
    obtain ⟨r, hr, hlock⟩ := hinv.starts k j hj
    exact hkept hr fun hw => by rw [locks]; exact hlock hw
  | @started id _ starts locks =>
    rw [starts] at hj
    obtain hj | hj := List.mem_cons.mp hj
    · cases hj
      obtain ⟨b, hb, hid, hwin⟩ := hm
      obtain ⟨r, hr, -⟩ := hκ.rows b hb
      rw [hid] at hr
      have hlabels := hκ.labels b hb r (by rw [hid]; exact hr)
      refine hkept hr fun hw => ?_
      rw [locks, ← hid]
      exact hκ.creation b.id (hwin (by rw [← hlabels]; exact hw))
    · obtain ⟨r, hr, hlock⟩ := hinv.starts k j hj
      exact hkept hr fun hw => by rw [locks]; exact hlock hw
  | ended starts locks =>
    rw [starts] at hj
    obtain ⟨r, hr, hlock⟩ := hinv.starts k j (List.mem_filter.mp hj).1
    exact hkept hr fun hw => by rw [locks]; exact hlock hw
  | locked starts free locks =>
    rw [starts] at hj
    obtain ⟨r, hr, hlock⟩ := hinv.starts k j hj
    exact hkept hr fun hw => by rw [locks]; exact lock_update free _ k j (hlock hw)
  | @unlocked id _ starts locks =>
    rw [starts] at hj
    obtain ⟨hj, hne⟩ := List.mem_filter.mp hj
    have hne : (k, j) ≠ (id, i) := of_decide_eq_true hne
    obtain ⟨r, hr, hlock⟩ := hinv.starts k j hj
    refine hkept hr fun hw => ?_
    rw [locks]
    by_cases hji : j = i
    · have hk : k ≠ id := fun e => hne (by rw [e, hji])
      rw [released_self hk]
      exact hlock hw
    · exact released_of_ne hji (hlock hw)

theorem Attempting.keep {κ' : Know} (ha : Attempting i κ s) (hattempt : κ'.attempt = κ.attempt)
    (hserved : κ'.served = κ.served) (hstarts : s'.starts = s.starts)
    (hattempts : s'.attempts = s.attempts) (hown : ∀ k, ServesOwn s k → ServesOwn s' k) :
    Attempting i κ' s' where
  last k n hn := by
    rw [hattempt] at hn
    rw [hstarts, hattempts]
    exact ha.last k n hn
  served k n hn hs := by
    rw [hattempt] at hn
    rw [hserved] at hs
    exact hown k (ha.served k n hn hs)

/-- Calls that write, begin or end an attempt, or look up a service. -/
def Call.concernsAttempt : Call → Bool
  | .writeState _ _ | .startBegin _ | .startDone _ | .unlockCreation _ | .sandboxConfig _ => true
  | _ => false

theorem learn_attempt {a : Reply c} (hc : c.concernsAttempt = false) :
    (learn κ c a).attempt = κ.attempt ∧ (learn κ c a).served = κ.served := by
  cases c with
  | writeState | startBegin | startDone | unlockCreation | sandboxConfig => cases hc
  | readState id => cases a <;> exact ⟨rfl, rfl⟩
  | reserve => cases a <;> exact ⟨rfl, rfl⟩
  | stopSandbox sandboxID =>
    cases a with
    | none => exact ⟨rfl, rfl⟩
    | some err =>
      simp only [learn]
      split <;> exact ⟨rfl, rfl⟩
  | _ => exact ⟨rfl, rfl⟩

theorem nextAttempt_of_ne {w : Writer} (hw : w ≠ .creating) : κ.nextAttempt w = κ.attempt := by
  cases w with
  | creating => exact absurd rfl hw
  | _ => rfl

theorem nextServed_of_ne {w : Writer} (hw : w ≠ .creating) (hs : ∀ n, w ≠ .snapshot n) :
    κ.nextServed w = κ.served := by
  cases w with
  | creating => exact absurd rfl hw
  | snapshot n => exact absurd rfl (hs n)
  | _ => rfl

theorem Attempting.settle (ha : Attempting i κ s) (w : Writer) :
    Attempting i (κ.wrote w none) (s.settle i w) := by
  have htrail := trail_settle s i w
  have hstarts : (s.settle i w).starts = s.starts := by
    unfold State.settle
    split <;> rfl
  refine ha.keep rfl rfl hstarts ?_ fun k hown r hr => ?_
  · funext k
    exact congrArg Trail.attempts (congrFun htrail k)
  · rw [rows_settle] at hr
    rw [htrail]
    exact hown r hr

/-- A write that is accepted: a creating write begins the next attempt, and a snapshot makes the
service that of the attempt. -/
theorem Attempting.accepted {w : Writer} {st cur : RunnerState} (ha : Attempting i κ s)
    (hserved : Served κ x s (.writeState w st) s') (hstarts : s'.starts = s.starts)
    (htrail : s'.trail cur.id = (s.trail cur.id).record x.now w)
    (hpermit : ∃ b, b.id = cur.id ∧ Permit κ b w) (r : RunnerState) :
    Attempting i (κ.wrote w (some r)) s' := by
  obtain ⟨b, hid, hpermit⟩ := hpermit
  by_cases hw : w = .creating
  · subst hw
    obtain ⟨n, hn⟩ := hpermit.2.1
    rw [hid] at hn
    constructor
    · intro k m hm
      simp only [Know.wrote, Know.nextAttempt, hn, Option.map_some, Option.some.injEq,
        Prod.mk.injEq] at hm
      obtain ⟨rfl, rfl⟩ := hm
      obtain ⟨hmem, hlast⟩ := ha.last cur.id n hn
      refine ⟨by rw [hstarts]; exact hmem, ?_⟩
      have hnext : s'.attempts cur.id = s.attempts cur.id + 1 := congrArg Trail.attempts htrail
      rw [hnext, hlast]
    · intro k m _ hs
      cases hs
  · have hattempts : ∀ k, s'.attempts k = s.attempts k := by
      intro k
      obtain h | ⟨⟨⟨_, _, hcall, _⟩, _⟩, _⟩ := hserved.attempts k
      · exact h
      · cases hcall
        exact absurd rfl hw
    have hlast : ∀ k n, κ.attempt = some (k, n) → (k, i) ∈ s'.starts ∧ s'.attempts k = n := by
      intro k n hn
      rw [hstarts, hattempts k]
      exact ha.last k n hn
    constructor
    · intro k n hn
      exact hlast k n ((nextAttempt_of_ne hw).symm.trans hn)
    · intro k n hn' hs
      have hn : κ.attempt = some (k, n) := (nextAttempt_of_ne hw).symm.trans hn'
      by_cases hsnap : ∃ m, w = .snapshot m
      · obtain ⟨m, rfl⟩ := hsnap
        have hm : κ.attempt = some (cur.id, m) := hid ▸ hpermit
        have hk : k = cur.id := (congrArg Prod.fst (Option.some.inj (hn.symm.trans hm)) :)
        have hfrom : s'.serviceFrom cur.id = m := congrArg Trail.serviceFrom htrail
        rw [hk]
        exact fun _ _ _ => .inr (hfrom.trans (hlast cur.id m hm).2.symm)
      · have hs : κ.served = true :=
          (nextServed_of_ne hw fun m e => hsnap ⟨m, e⟩).symm.trans hs
        exact (ha.served k n hn hs).served hserved ha (hattempts k)

theorem Attempting.write {w : Writer} {st : RunnerState} {a : Option RunnerState}
    (ha : Attempting i κ s) (hm : may cfg κ (.writeState w st))
    (hserved : Served κ x s (.writeState w st) s')
    (h : serve cfg i (.writeState w st) x s = some (a, s')) : Attempting i (κ.wrote w a) s' := by
  have hstarts : s'.starts = s.starts := by
    cases process_serve h with
    | rest starts => exact starts
  rcases hx : x.fails with _ | _ <;> simp only [serve, hx] at h
  · simp only [Bool.false_eq_true, if_false] at h
    have hw : s.writeState i w st x.now = (a, s') := Option.some.inj h
    rcases writeState_cases s i w st x.now with he | ⟨cur, -, hkey, -, he⟩
    · rw [he] at hw
      cases hw
      exact ha.settle w
    · rw [he] at hw
      obtain ⟨b, -, hid, -, -, hpermit, -⟩ := hm
      refine (Prod.mk.inj hw).1 ▸ ha.accepted hserved hstarts ?_
        ⟨b, hid.trans hkey, hpermit⟩ _
      rw [← (Prod.mk.inj hw).2]
      exact (congrFun (trail_record_settle s i w w cur.id x.now) cur.id).trans
        (trail_record_self s w cur.id x.now)
  · cases h
    exact ha.settle w

theorem attempting_learn {a : Reply c} (ha : Attempting i κ s) (hm : may cfg κ c)
    (hok : Fenced cfg i c x s) (hserved : Served κ x s c s')
    (h : serve cfg i c x s = some (a, s')) : Attempting i (learn κ c a) s' := by
  rcases hc : c.concernsAttempt with _ | _
  · obtain ⟨hattempt, hsv⟩ := learn_attempt (κ := κ) (a := a) hc
    have hattempts : ∀ k, s'.attempts k = s.attempts k := by
      intro k
      obtain h | ⟨⟨⟨_, _, hcall, _⟩, _⟩, _⟩ := hserved.attempts k
      · exact h
      · rw [hcall] at hc
        cases hc
    refine ha.keep hattempt hsv ?_ (funext hattempts) fun k hown =>
      hown.served hserved ha (hattempts k)
    cases process_serve h with
    | rest starts | locked starts => exact starts
    | started | ended | unlocked => cases hc
  · cases c with
    | writeState w st => exact ha.write hm hserved h
    | startBegin id =>
      cases h
      constructor
      · intro k n hn
        cases hn
        exact ⟨List.mem_cons_self .., rfl⟩
      · intro k n _ hs
        cases hs
    | startDone id | unlockCreation id => exact ⟨nofun, nofun⟩
    | sandboxConfig id =>
      rcases hx : x.err with _ | err <;> simp only [serve, hx] at h <;> cases h
      · refine ⟨ha.last, fun k n hn hs => ?_⟩
        rcases hu : unconfigured x.config with _ | _
        · have hs : κ.served = true := by simpa [learn, hu] using hs
          exact ha.served k n hn hs
        · obtain ⟨m, hm⟩ := hm
          have hn : κ.attempt = some (k, n) := hn
          rw [hm] at hn
          cases hn
          exact fun r hr => hok.2.2 id rfl hx hu r hr
      · exact ha
    | _ => cases hc

theorem undisturbing_serve {a : Reply c} (hκ : Holds i κ s) (ha : Attempting i κ s)
    (hinv : FenceInv s) (hok : Fenced cfg i c x s) (hserved : Served κ x s c s')
    (h : serve cfg i c x s = some (a, s')) : Undisturbing i s s' := by
  have hattempts : ∀ k j, j ≠ i → (k, j) ∈ s.starts → s'.attempts k = s.attempts k := by
    intro k j hj hk
    obtain h | ⟨hbegins, -⟩ := hserved.attempts k
    · exact h
    · exact absurd (hbegins.alone hinv hκ hok hk) hj
  constructor
  · exact fun k j hj hk => ⟨(process_serve h).mem_of_ne hj hk, hattempts k j hj hk⟩
  · exact fun k j hj hk hown => hown.served hserved ha (hattempts k j hj hk)

theorem fence_sound : (fenceReading cfg).outline.Sound fun _ => {} where
  serve := by
    intro i κ c x a s s' hs hκ hm hok h
    obtain ⟨htells, hrows, hholds, heffect⟩ := base_serve hs.1 hκ.1 hm hok.1 h
    have hserved := served_of_serve hκ.1 hm hok.1 h
    refine ⟨htells, ⟨hrows, ⟨?_, ?_⟩⟩, ⟨hholds, ?_⟩, heffect, ?_⟩
    · exact fenceInv_starts hκ.1 hm heffect hs.2 h
    · exact oneAttempt_served hserved hs.1 hκ.2 hok hs.2
    · exact attempting_learn hκ.2 hm hok hserved h
    · exact undisturbing_serve hκ.1 hκ.2 hs.2 hok hserved h
  stable := by
    intro i j κ s s' hij _ _ he hκ
    refine ⟨hκ.1.stable hij he.1, ⟨fun k n hn => ?_, fun k n hn hs => ?_⟩⟩
    · obtain ⟨hmem, hlast⟩ := hκ.2.last k n hn
      obtain ⟨hmem', hsame⟩ := he.2.starts k j (Ne.symm hij) hmem
      exact ⟨hmem', hsame.trans hlast⟩
    · obtain ⟨hmem, -⟩ := hκ.2.last k n hn
      exact he.2.service k j (Ne.symm hij) hmem (hκ.2.served k n hn hs)
  fresh_holds _ _ := ⟨holds_fresh _ _, ⟨nofun, nofun⟩⟩
  restart_inv hs := ⟨hs.1, ⟨nofun, hs.2.rows⟩⟩
  follows := follows_program

/-! ### The fence -/

/-- A write of an attempt is one of the last attempt. -/
theorem Rewrite.attempt_last {r r' : RunnerState} {m : Nat} (h : Rewrite κ x c r r')
    (ha : Attempting i κ s) (hok : Fenced cfg i c x s) (hx : x.fails = false)
    (hf : s.rows.find r.id = some r) (hm : c.attempt = some m) : s.attempts r.id = m := by
  cases h with
  | @write w st b _ _ hid _ hkey hversion _ hpermit =>
    have hturn : InTurn i s w r := hok.2.1.row hx hf hkey hversion
    have hm : w.attempt = some m := hm
    have hpermitted : κ.attempt = some (b.id, m) → s.attempts r.id = m := by
      intro hn
      rw [hid] at hn
      exact (ha.last r.id m hn).2
    cases w with
    | jobStarted n => exact hturn.2.1 m hm
    | running n =>
      cases hm
      exact hpermitted hpermit.1
    | skipped n | failStart n | snapshot n | jobCheckCleared n | jobCheckDeferred n
    | deferQueued n | deferCreating n | jitRetained n =>
      cases hm
      exact hpermitted hpermit
    | _ => cases hm
  | claim | retry => cases hm
  | release _ hattempt =>
    cases hm
    exact (ha.last r.id _ hattempt).2

/-- A row that is left running with another sandbox or process was adopted or found again. -/
theorem Rewrite.adopted {r r' : RunnerState} (h : Rewrite κ x c r r')
    (hrunning : r'.status = .running)
    (hprocess : r'.sandboxID ≠ r.sandboxID ∨ r'.processPID ≠ r.processPID) :
    ∃ w st, c = .writeState w st ∧ ((∃ n, w = .running n) ∨ ∃ n, w = .reconnect n) := by
  cases h with
  | @write w st b _ _ _ _ hkey hversion hsite _ =>
    have hcore := core_written st r x.now
    have hstatus : (core st).status = .running := by
      have h := congrArg Core.status hcore
      rw [status_stamp] at h
      exact h.symm.trans hrunning
    obtain hw | hw | ⟨hsandbox, hpid⟩ := hsite.process_kept hstatus
    · exact ⟨w, st, rfl, .inl hw⟩
    · exact ⟨w, st, rfl, .inr hw⟩
    · rcases hprocess with hne | hne
      · exact absurd (((congrArg Core.sandboxID hcore).trans (sandboxID_stamp _ _)).trans
          hsandbox) hne
      · exact absurd (((congrArg Core.processPID hcore).trans (processPID_stamp _ _)).trans
          hpid) hne
  | claim | release => simp [RunnerState.claimed, RunnerState.clearLease] at hprocess
  | retry => cases hrunning

theorem fenceInv_empty : RowsOk State.empty ∧ FenceInv State.empty :=
  ⟨rowsOk_empty, ⟨nofun, fun _ _ hr => by cases hr⟩⟩

/-- The first attempt of a request is being provisioned when the sweeper gives up on it, and the
second attempt has been begun. -/
def overlapping : List (Decision Choice Op) :=
  firstStart 0 13 ++ .start .sweepOnce :: calls 2 7 { ticks := 200 } ++
    .start .processQueuedRequests :: calls 3 13 { ticks := 300 }

end CiRunner.Lifecycle
