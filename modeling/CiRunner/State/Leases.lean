import CiRunner.State.CompareAndSwap

/-! How long a claim is exclusive. A claim is granted on a queued row whose lease has
run out, so it stays exclusive as long as its lease stays in the row. A write puts
back the lease of the row that it is based on, and the version keeps that from being
an older one, unless a claim overtakes its candidate; and a retry clears the lease of
a row that is held. -/

namespace CiRunner.State

def RunnerState.lease (r : RunnerState) : String × Time := (r.leaseOwner, r.leaseExpiresAt)

namespace Contention

open Threads Tables

variable {s s' : Store} {e r r' : RunnerState}

/-! ### Rows between two changes of the version -/

/-- The row `r` has come from `e`: at the same version, the lease at most was released. -/
def Since (e r : RunnerState) : Prop :=
  e.version < r.version ∨
    (e.version = r.version ∧ (e.lease = r.lease ∨ r.leaseExpiresAt = 0))

theorem Since.refl (r : RunnerState) : Since r r := .inr ⟨rfl, .inl rfl⟩

theorem Since.trans (h : Since e r) (h' : Since r r') : Since e r' := by
  rcases h with hlt | ⟨heq, hlease⟩
  · rcases h' with hlt' | ⟨heq', -⟩
    · exact .inl (hlt.trans hlt')
    · exact .inl (heq' ▸ hlt)
  · rcases h' with hlt' | ⟨heq', hlease' | hzero⟩
    · exact .inl (heq ▸ hlt')
    · refine .inr ⟨heq.trans heq', ?_⟩
      rcases hlease with hlease | hzero
      · exact .inl (hlease.trans hlease')
      · exact .inr ((congrArg Prod.snd hlease').symm.trans hzero)
    · exact .inr ⟨heq.trans heq', .inr hzero⟩

def Goes (s s' : Store) : Prop :=
  ∀ id r, s.rows.find id = some r → ∃ r', s'.rows.find id = some r' ∧ Since r r'

theorem Goes.refl (s : Store) : Goes s s := fun _ r hr => ⟨r, hr, .refl r⟩

theorem goes_put {key : String} {c r : RunnerState} (hf : s.rows.find key = some c)
    (hid : r.id = c.id) (h : Since c r) : Goes s (s.replace (s.rows.put r)) := by
  have hkey : r.id = key := hid.trans (Table.key_of_find hf)
  subst hkey
  intro id c' hc'
  by_cases hne : r.id = id
  · subst hne
    rw [hf] at hc'
    cases hc'
    exact ⟨r, Table.find_put_self hf, h⟩
  · exact ⟨c', (Table.find_put_of_ne hne).trans hc', .refl c'⟩

/-- No claim finds its candidate changed. -/
def NotOvertaken : machine.Condition
  | _, .claimUpdate candidate _ now _, _, s =>
    ∀ r ∈ s.rows.find candidate.id, r.status = .queued → r.leaseExpiresAt ≤ now →
      r.version = candidate.version
  | _, _, _, _ => True

instance : ∀ i c x s, Decidable (NotOvertaken i c x s)
  | _, .claimUpdate _ _ _ _, _, _ => inferInstanceAs (Decidable (∀ r ∈ _, _))
  | _, .releaseLease _ _, _, _ => .isTrue trivial
  | _, .readState _, _, _ => .isTrue trivial
  | _, .writeState _ _, _, _ => .isTrue trivial
  | _, .claimCandidate _, _, _ => .isTrue trivial
  | _, .retryUpdate _ _, _, _ => .isTrue trivial
  | _, .createRequest _, _, _ => .isTrue trivial

theorem goes_serve {i : Nat} {c : Call} {x : Choice} {a : Reply c}
    (hok : NotOvertaken i c x s) (h : serve i c x s = some (a, s')) : Goes s s' := by
  cases statement_of_serve h with
  | idle hs => exact hs ▸ .refl s
  | @write base st current now hf hv hs =>
    subst hs
    refine goes_put hf (RunnerState.id_written ..) (.inl ?_)
    rw [RunnerState.version_written, hv]
    exact Nat.lt_succ_self _
  | @claim candidate r workerID now leaseTTL x hf hq hl hs =>
    subst hs
    exact goes_put hf rfl (.inl (Nat.lt_succ_of_le (Nat.le_of_eq (hok r hf hq hl))))
  | release hf hw hs =>
    subst hs
    exact goes_put hf rfl (.inr ⟨rfl, .inr rfl⟩)
  | retry hf hv hs =>
    subst hs
    exact goes_put hf rfl (.inl (Nat.lt_succ_of_le (Nat.le_of_eq hv)))
  | @create row x hs =>
    subst hs
    exact fun id r hr => ⟨r, Requests.find_createRequest_of_find hr row, .refl r⟩

/-- A copy that was read stands behind the row. -/
def Copied (s : Store) (e : RunnerState) : Prop :=
  ∃ r, s.rows.find e.id = some r ∧ Since e r

def leaseOutline : Outline machine Know :=
  { outline with
    ok := NotOvertaken
    holds := fun _ κ s => ∀ e ∈ κ, Copied s e.row
    effect := fun _ s s' => Goes s s' }

theorem Copied.goes {e : RunnerState} (h : Copied s e) (hg : Goes s s') : Copied s' e := by
  obtain ⟨r, hr, hsince⟩ := h
  obtain ⟨r', hr', hsince'⟩ := hg e.id r hr
  exact ⟨r', hr', hsince.trans hsince'⟩

theorem leaseOutline_sound : leaseOutline.Sound fun _ => [] where
  serve {i κ c x a s s'} _ hκ _ hok hs := by
    have hg := goes_serve (i := i) hok hs
    refine ⟨tells_serve (i := i) hs, trivial, fun e he => ?_, hg⟩
    rcases read_of_learn (i := i) hs he with hmem | hread
    · exact (hκ e hmem).goes hg
    · exact ⟨e.row, (read_eq_some hread).1, .refl e.row⟩
  stable _ _ _ hg hκ e he := (hκ e he).goes hg
  fresh_holds _ _ := by simp [leaseOutline]
  restart_inv _ := trivial
  follows op := by
    refine Outline.Follows.congr ?_ ?_ ?_ (outline_sound.follows op)
    all_goals rfl

/-! ### Claims -/

/-- The worker holds the queued request until the given time. -/
def Held (s : Store) (id workerID : String) (expires : Time) : Prop :=
  ∃ r, s.rows.find id = some r ∧ r.status = .queued ∧ r.lease = (workerID, expires)

/-- The claim has not ended: the worker does not release its lease, no write that is accepted
changes the lease against the row that it is based on or takes the row out of the queue, and the
lease has not run out. -/
def Open (id workerID : String) (expires : Time) : machine.Condition
  | _, .claimUpdate candidate _ now _, _, _ => candidate.id = id → now < expires
  | _, .writeState base st, _, s => sanitizeID st.id = id →
    ∀ r ∈ s.rows.find id, r.version = st.version →
      st.status = .queued ∧ st.lease = base.row.lease
  | _, .releaseLease key other, _, _ => ¬(sanitizeID key = id ∧ Text.trimSpace other = workerID)
  | _, _, _, _ => True

/-- No claim is overtaken, and the request is not retried. -/
def Unharmed (id : String) : machine.Condition
  | i, .claimUpdate candidate workerID now leaseTTL, x, s =>
    NotOvertaken i (.claimUpdate candidate workerID now leaseTTL) x s
  | _, .retryUpdate record _, _, s => record.id = id →
    ∀ r ∈ s.rows.find id, r.version ≠ record.version
  | _, _, _, _ => True

theorem lease_written (st current : RunnerState) (now : Time) :
    (st.written current now).lease = st.lease ∧ (st.written current now).status = st.status := by
  simp only [RunnerState.lease, RunnerState.written, RunnerState.applyStateTimestamps]
  constructor <;> split <;> rfl

theorem held_put {id workerID : String} {expires : Time} {key : String} {c r : RunnerState}
    (h : Held s id workerID expires) (hf : s.rows.find key = some c) (hid : r.id = c.id)
    (hr : key = id → r.status = .queued ∧ r.lease = (workerID, expires)) :
    Held (s.replace (s.rows.put r)) id workerID expires := by
  have hkey : r.id = key := hid.trans (Table.key_of_find hf)
  subst hkey
  obtain ⟨r₀, hr₀, hq, hl⟩ := h
  by_cases he : r.id = id
  · subst he
    exact ⟨r, Table.find_put_self hf, hr rfl⟩
  · exact ⟨r₀, (Table.find_put_of_ne he).trans hr₀, hq, hl⟩

/-- A statement leaves a held request to its worker. -/
theorem Held.serve {i : Nat} {c : Call} {x : Choice} {a : Reply c} {κ : Know}
    {id workerID : String} {expires : Time} (h : Held s id workerID expires) (hpos : 0 < expires)
    (hκ : ∀ e ∈ κ, Copied s e.row) (hmay : may κ c) (hopen : Open id workerID expires i c x s)
    (hunharmed : Unharmed id i c x s) (hcall : serve i c x s = some (a, s')) :
    Held s' id workerID expires := by
  obtain ⟨r₀, hr₀, hq₀, hl₀⟩ := h
  have hheld : Held s id workerID expires := ⟨r₀, hr₀, hq₀, hl₀⟩
  have hexpires : r₀.leaseExpiresAt = expires := congrArg Prod.snd hl₀
  have howner : r₀.leaseOwner = workerID := congrArg Prod.fst hl₀
  cases statement_of_serve hcall with
  | idle hs => exact hs ▸ hheld
  | @write base st current now hf hv hs =>
    subst hs
    refine held_put hheld hf (RunnerState.id_written ..) fun hid => ?_
    obtain ⟨hb, hbase, hversion⟩ := hmay
    rw [hid, hr₀] at hf
    cases hf
    obtain ⟨hstatus, hlease⟩ := hopen hid r₀ hr₀ hv
    -- The base has the version of the row, so it has its lease, which was not released.
    obtain ⟨r, hr, hsince⟩ := hκ base hb
    rw [← hbase, hid, hr₀] at hr
    cases hr
    have hsame : base.row.lease = r₀.lease := by
      rcases hsince with hlt | ⟨-, hsame | hzero⟩
      · rw [hv, hversion] at hlt
        exact absurd hlt (Nat.lt_irrefl _)
      · exact hsame
      · rw [hexpires] at hzero
        exact absurd hzero (Nat.ne_of_gt hpos)
    obtain ⟨hwl, hws⟩ := lease_written st r₀ now
    exact ⟨hws.trans hstatus, hwl.trans (hlease.trans (hsame.trans hl₀))⟩
  | @claim candidate r other now leaseTTL x hf hq hl hs =>
    subst hs
    refine held_put hheld hf rfl fun hid => ?_
    rw [hid, hr₀] at hf
    cases hf
    have hlt : now < expires := hopen hid
    rw [hexpires] at hl
    exact absurd hlt (Nat.not_lt.mpr hl)
  | @release key other r x hf hw hs =>
    subst hs
    refine held_put hheld hf rfl fun hid => ?_
    rw [hid, hr₀] at hf
    cases hf
    exact absurd ⟨hid, hw.symm.trans howner⟩ hopen
  | @retry record r now x hf hv hs =>
    subst hs
    refine held_put hheld hf rfl fun hid => ?_
    rw [hid, hr₀] at hf
    cases hf
    exact absurd hv (hunharmed hid r₀ hr₀)
  | @create row x hs =>
    subst hs
    exact ⟨r₀, Requests.find_createRequest_of_find hr₀ row, hq₀, hl₀⟩

instance (id workerID : String) (expires : Time) :
    ∀ i c x s, Decidable (Open id workerID expires i c x s)
  | _, .claimUpdate _ _ _ _, _, _ => inferInstanceAs (Decidable (_ → _))
  | _, .writeState _ _, _, s =>
    inferInstanceAs (Decidable (_ → ∀ r ∈ s.rows.find id, _))
  | _, .releaseLease _ _, _, _ => inferInstanceAs (Decidable (¬_))
  | _, .readState _, _, _ => .isTrue trivial
  | _, .claimCandidate _, _, _ => .isTrue trivial
  | _, .retryUpdate _ _, _, _ => .isTrue trivial
  | _, .createRequest _, _, _ => .isTrue trivial

theorem Unharmed.notOvertaken {id : String} {i : Nat} {c : Call} {x : Choice}
    (h : Unharmed id i c x s) : NotOvertaken i c x s := by
  cases c with
  | claimUpdate candidate workerID now leaseTTL => exact h
  | _ => trivial

/-- A claim that is granted finds a queued row whose lease has run out. -/
theorem find_of_granted {i : Nat} {candidate : RunnerState} {workerID : String}
    {now leaseTTL : Time} {x : Choice}
    (h : serve i (.claimUpdate candidate workerID now leaseTTL) x s = some (true, s')) :
    ∃ r, s.rows.find candidate.id = some r ∧ r.status = .queued ∧ r.leaseExpiresAt ≤ now ∧
      s' = s.replace (s.rows.put (r.claimed candidate.version workerID now leaseTTL)) := by
  cases x with
  | none => cases h
  | some t =>
    have he : s.claimUpdate candidate workerID now leaseTTL = (true, s') := Option.some.inj h
    rcases claimUpdate_cases s candidate workerID now leaseTTL with hw | ⟨r, hf, hq, hl, hw⟩
    · rw [hw] at he
      cases he
    · rw [hw] at he
      exact ⟨r, hf, hq, hl, (congrArg Prod.snd he).symm⟩

theorem serve_of_granted {candidate : RunnerState} {workerID : String} {now leaseTTL : Time}
    (i : Nat) (t : Time) (h : (s.claimUpdate candidate workerID now leaseTTL).1 = true) :
    serve i (.claimUpdate candidate workerID now leaseTTL) (some t) s =
      some (true, (s.claimUpdate candidate workerID now leaseTTL).2) :=
  congrArg some (Prod.ext h rfl)

/-- The claim that a thread is about to make. -/
def claimOf (cfg : Config Reply Store) (i : Nat) : Option (RunnerState × String × Time × Time) :=
  match (cfg.threads[i]? : Option (Prog Reply Unit)) with
  | some (.call (.claimUpdate candidate workerID now leaseTTL) _) =>
    some (candidate, workerID, now, leaseTTL)
  | _ => none

theorem claimOf_eq_some {cfg : Config Reply Store} {i : Nat} {candidate : RunnerState}
    {workerID : String} {now leaseTTL : Time}
    (h : claimOf cfg i = some (candidate, workerID, now, leaseTTL)) :
    ∃ k, cfg.threads[i]? = some (.call (.claimUpdate candidate workerID now leaseTTL) k) := by
  unfold claimOf at h
  split at h
  · rename_i hk
    cases h
    exact ⟨_, hk⟩
  · cases h

/-- The thread is about to be granted a claim of the request at the given time. -/
def Grants (cfg : Config Reply Store) (j : Nat) (id : String) (now : Time) : Prop :=
  ∃ candidate workerID leaseTTL k s', RunnerState.id candidate = id ∧
    cfg.threads[j]? = some (.call (.claimUpdate candidate workerID now leaseTTL) k) ∧
    serve j (.claimUpdate candidate workerID now leaseTTL) (some now) cfg.state = some (true, s')

def grants (cfg : Config Reply Store) (j : Nat) (id : String) (now : Time) : Bool :=
  match (cfg.threads[j]? : Option (Prog Reply Unit)) with
  | some (.call (.claimUpdate candidate workerID now' leaseTTL) _) =>
    candidate.id = id && now' = now && (cfg.state.claimUpdate candidate workerID now leaseTTL).1
  | _ => false

theorem grants_of_check {cfg : Config Reply Store} {j : Nat} {id : String} {now : Time}
    (h : grants cfg j id now = true) : Grants cfg j id now := by
  unfold grants at h
  split at h
  · rename_i candidate workerID now' leaseTTL k hk
    simp only [Bool.and_eq_true, decide_eq_true_eq] at h
    obtain ⟨⟨hid, rfl⟩, hgranted⟩ := h
    exact ⟨candidate, workerID, leaseTTL, k, _, hid, hk, serve_of_granted j now' hgranted⟩
  · cases h

def held (s : Store) (id workerID : String) (expires : Time) : Bool :=
  (s.rows.find id).any fun r => r.status = .queued ∧ r.lease = (workerID, expires)

theorem held_of_check {id workerID : String} {expires : Time}
    (h : held s id workerID expires = true) : Held s id workerID expires := by
  rcases hf : s.rows.find id with _ | r
  · simp [held, hf] at h
  · rw [held, hf, Option.any_some, decide_eq_true_eq] at h
    exact ⟨r, hf, h⟩

def waitingRequest : Store :=
  ⟨Tables.Table.empty.insert { id := "1", nextRetryAt := 5, lastErrorRetryable := true },
    fun _ => 0⟩

end Contention

end CiRunner.State
