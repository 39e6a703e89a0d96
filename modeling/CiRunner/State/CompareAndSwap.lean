import CiRunner.Threads.Outline
import CiRunner.Tables.Versioned
import CiRunner.State.Contention

/-! What the version of a request protects. Where no claim overtakes its candidate
and no held lease is released, every change of a row raises its version, so a write
that is accepted finds the row it is based on. Claims do overtake candidates, and
then a write is accepted over a change that it has not seen. -/

namespace CiRunner.State.Contention

open Threads Tables

/-! ### Rows that only go forward -/

def versioning : Versioning Read where
  version e := e.row.version
  same := Eq
  equivalence := eq_equivalence
  version_eq h := by rw [h]

variable {s s' : Store}

theorem read_eq_some {key : String} {e : Read} (h : s.read key = some e) :
    s.rows.find key = some e.row ∧ s.changes key = e.changes ∧ e.row.id = key := by
  simp only [Store.read, Option.map_eq_some_iff] at h
  obtain ⟨r, hr, rfl⟩ := h
  exact ⟨hr, rfl, Table.key_of_find hr⟩

theorem read_replace_of_eq {rows : Requests} {key : String}
    (h : rows.find key = s.rows.find key) : (s.replace rows).read key = s.read key := by
  simp [Store.read, Store.replace, h]

theorem advances_put {key : String} {c r : RunnerState} (hf : s.rows.find key = some c)
    (hid : r.id = c.id) (h : c = r ∨ c.version < r.version) :
    versioning.Advances s.read (s.replace (s.rows.put r)).read := by
  have hkey : r.id = key := hid.trans (Table.key_of_find hf)
  subst hkey
  have hput : (s.rows.put r).find r.id = some r := Table.find_put_self hf
  refine Versioning.advances_at r.id (fun k hk => ?_) fun e he => ?_
  · exact read_replace_of_eq (Table.find_put_of_ne (Ne.symm hk))
  · obtain ⟨hf', -, -⟩ := read_eq_some he
    rw [hf] at hf'
    cases hf'
    rcases h with h | h
    · refine ⟨e, ?_, .refl e⟩
      rw [read_replace_of_eq (by rw [hput, hf, h]), he]
    · exact ⟨⟨r, (s.replace (s.rows.put r)).changes r.id⟩,
        by simp only [Store.read, Store.replace, hput, Option.map_some], .inr h⟩

theorem advances_createRequest (s : Store) (r : RunnerState) :
    versioning.Advances s.read (s.replace (s.rows.createRequest r)).read := by
  intro k e he
  refine ⟨e, ?_, .refl e⟩
  obtain ⟨hf, -, -⟩ := read_eq_some he
  rw [read_replace_of_eq ((Requests.find_createRequest_of_find hf r).trans hf.symm), he]

theorem replace_self (s : Store) : s.replace s.rows = s := by
  simp [Store.replace]

theorem writeState_cases (s : Store) (st : RunnerState) (now : Time) :
    s.writeState st now = (none, s) ∨
    ∃ current, s.rows.find (sanitizeID st.id) = some current ∧ current.version = st.version ∧
      s.writeState st now = ((s.replace (s.rows.put (st.written current now))).read
        (sanitizeID st.id), s.replace (s.rows.put (st.written current now))) := by
  unfold Store.writeState
  rcases hw : s.rows.writeState st now with _ | rows
  · exact .inl rfl
  · obtain ⟨current, hf, hv, rfl⟩ := Requests.writeState_eq_some hw
    exact .inr ⟨current, hf, hv, rfl⟩

theorem claimUpdate_cases (s : Store) (candidate : RunnerState) (workerID : String)
    (now leaseTTL : Time) :
    s.claimUpdate candidate workerID now leaseTTL = (false, s) ∨
    ∃ r, s.rows.find candidate.id = some r ∧ r.status = .queued ∧ r.leaseExpiresAt ≤ now ∧
      s.claimUpdate candidate workerID now leaseTTL =
        (true, s.replace (s.rows.put (r.claimed candidate.version workerID now leaseTTL))) := by
  unfold Store.claimUpdate
  rcases hw : s.rows.claimUpdate candidate workerID now leaseTTL with _ | rows
  · exact .inl rfl
  · obtain ⟨r, hf, hq, hl, rfl⟩ := Requests.claimUpdate_eq_some hw
    exact .inr ⟨r, hf, hq, hl, rfl⟩

/-! ### What a statement does -/

inductive Statement (s s' : Store) : Call → Choice → Prop where
  | idle {c : Call} {x : Choice} (hs : s' = s) : Statement s s' c x
  | write {base : Read} {st current : RunnerState} {now : Time}
      (hf : s.rows.find (sanitizeID st.id) = some current) (hv : current.version = st.version)
      (hs : s' = s.replace (s.rows.put (st.written current now))) :
      Statement s s' (.writeState base st) (some now)
  | claim {candidate r : RunnerState} {workerID : String} {now leaseTTL : Time} {x : Choice}
      (hf : s.rows.find candidate.id = some r) (hq : r.status = .queued)
      (hl : r.leaseExpiresAt ≤ now)
      (hs : s' = s.replace (s.rows.put (r.claimed candidate.version workerID now leaseTTL))) :
      Statement s s' (.claimUpdate candidate workerID now leaseTTL) x
  | release {id workerID : String} {r : RunnerState} {x : Choice}
      (hf : s.rows.find (sanitizeID id) = some r)
      (hw : r.leaseOwner = Text.trimSpace workerID)
      (hs : s' = s.replace (s.rows.put r.clearLease)) : Statement s s' (.releaseLease id workerID) x
  | retry {record r : RunnerState} {now : Time} {x : Choice}
      (hf : s.rows.find record.id = some r) (hv : r.version = record.version)
      (hs : s' = s.replace (s.rows.put (r.retried record.version now))) :
      Statement s s' (.retryUpdate record now) x
  | create {row : RunnerState} {x : Choice}
      (hs : s' = s.replace (s.rows.createRequest row)) : Statement s s' (.createRequest row) x

theorem statement_of_serve {i : Nat} {c : Call} {x : Choice} {a : Reply c}
    (h : serve i c x s = some (a, s')) : Statement s s' c x := by
  cases x with
  | none =>
    cases c <;>
      (cases h; exact .idle rfl)
  | some t =>
    cases c with
    | readState id => cases h; exact .idle rfl
    | claimCandidate now => cases h; exact .idle rfl
    | writeState base st =>
      have hs : s' = (s.writeState st t).2 := by injection h with h; rw [h]
      rcases writeState_cases s st t with he | ⟨current, hf, hv, he⟩
      · rw [he] at hs
        exact .idle hs
      · rw [he] at hs
        exact .write hf hv hs
    | claimUpdate candidate workerID now leaseTTL =>
      have hs : s' = (s.claimUpdate candidate workerID now leaseTTL).2 := by
        injection h with h; rw [h]
      rcases claimUpdate_cases s candidate workerID now leaseTTL with he | ⟨r, hf, hq, hl, he⟩
      · rw [he] at hs
        exact .idle hs
      · rw [he] at hs
        exact .claim hf hq hl hs
    | releaseLease id workerID =>
      cases h
      rcases s.rows.releaseLease_cases id workerID with he | ⟨r, hf, hw, he⟩
      · rw [he, replace_self]
        exact .idle rfl
      · rw [he]
        exact .release hf hw rfl
    | retryUpdate record now =>
      cases h
      rcases s.rows.retryUpdate_cases record now with he | ⟨r, hf, hv, he⟩
      · rw [he, replace_self]
        exact .idle rfl
      · rw [he]
        exact .retry hf hv rfl
    | createRequest row => cases h; exact .create rfl

/-! ### The proof outline -/

/-- A caller knows the rows that it has read. -/
abbrev Know := List Read

/-- A state is written at the version of the row that it is based on. -/
def may (κ : Know) : Call → Prop
  | .writeState base st =>
    base ∈ κ ∧ sanitizeID st.id = base.row.id ∧ st.version = base.row.version
  | _ => True

def tells : (c : Call) → Reply c → Prop
  | .readState id, reply => ∀ e : Read, reply = some e → e.row.id = sanitizeID id
  | .writeState _ st, reply => ∀ e : Read, reply = some e →
    e.row.id = sanitizeID st.id ∧ e.row.version = st.version + 1
  | _, _ => True

def learn (κ : Know) : (c : Call) → Reply c → Know
  | .readState _, reply => (reply : Option Read).toList ++ κ
  | .writeState _ _, reply => (reply : Option Read).toList ++ κ
  | _, _ => κ

def outline : Outline machine Know where
  ok := Undisturbed
  inv _ := True
  holds _ κ s := ∀ e ∈ κ, versioning.Seen s.read e.row.id e
  effect _ s s' := versioning.Advances s.read s'.read
  may := may
  tells _ := tells
  learn := learn

/-- Under the condition no statement takes a row back. -/
theorem advances_serve {i : Nat} {c : Call} {x : Choice} {a : Reply c}
    (hok : Undisturbed i c x s) (h : serve i c x s = some (a, s')) :
    versioning.Advances s.read s'.read := by
  cases statement_of_serve h with
  | idle hs => exact hs ▸ .refl _
  | @write base st current now hf hv hs =>
    subst hs
    refine advances_put hf (RunnerState.id_written ..) (.inr ?_)
    rw [RunnerState.version_written, hv]
    exact Nat.lt_succ_self _
  | @claim candidate r workerID now leaseTTL x hf hq hl hs =>
    subst hs
    exact advances_put hf rfl (.inr (Nat.lt_succ_of_le (Nat.le_of_eq (hok r hf hq hl))))
  | @release id workerID r x hf hw hs =>
    subst hs
    obtain ⟨ho, ht⟩ := hok r hf hw
    refine advances_put hf rfl (.inl ?_)
    simp [RunnerState.clearLease, ← ho, ← ht]
  | retry hf hv hs =>
    subst hs
    exact advances_put hf rfl (.inr (Nat.lt_succ_of_le (Nat.le_of_eq hv)))
  | create hs => exact hs ▸ advances_createRequest s _

theorem tells_serve {i : Nat} {c : Call} {x : Choice} {a : Reply c}
    (h : serve i c x s = some (a, s')) : tells c a := by
  cases c with
  | readState id =>
    intro e he
    cases x with
    | none => cases h; cases he
    | some t =>
      have ha : s.read (sanitizeID id) = a := by injection h with h; injection h
      rw [he] at ha
      exact (read_eq_some ha).2.2
  | writeState base st =>
    intro e he
    cases x with
    | none => cases h; cases he
    | some now =>
      have ha : (s.writeState st now).1 = a := by injection h with h; rw [h]
      rcases writeState_cases s st now with hw | ⟨current, hf, hv, hw⟩
      · rw [hw, he] at ha
        cases ha
      · rw [hw, he] at ha
        obtain ⟨hrow, -, hid⟩ := read_eq_some ha
        have hput : (s.rows.put (st.written current now)).find (sanitizeID st.id) =
            some (st.written current now) := by
          have hkey : (st.written current now).id = sanitizeID st.id :=
            (RunnerState.id_written ..).trans (Table.key_of_find hf)
          rw [← hkey] at hf ⊢
          exact Table.find_put_self hf
        have hrow' : some (st.written current now) = some e.row := hput.symm.trans hrow
        refine ⟨hid, ?_⟩
        rw [← Option.some.inj hrow', RunnerState.version_written]
  | claimCandidate now => trivial
  | claimUpdate candidate workerID now leaseTTL => trivial
  | releaseLease id workerID => trivial
  | retryUpdate record now => trivial
  | createRequest row => trivial

theorem read_of_learn {i : Nat} {κ : Know} {c : Call} {x : Choice} {a : Reply c}
    (h : serve i c x s = some (a, s')) {e : Read} (he : e ∈ learn κ c a) :
    e ∈ κ ∨ s'.read e.row.id = some e := by
  cases c with
  | readState id =>
    rcases List.mem_append.mp he with he | he
    · cases x with
      | none => cases h; simp at he
      | some t =>
        injection h with h
        injection h with ha hs
        rw [Option.mem_toList, ← ha] at he
        rw [← hs, (read_eq_some he).2.2]
        exact .inr he
    · exact .inl he
  | writeState base st =>
    rcases List.mem_append.mp he with he | he
    · cases x with
      | none => cases h; simp at he
      | some now =>
        have ha : (s.writeState st now) = (a, s') := Option.some.inj h
        rcases writeState_cases s st now with hw | ⟨current, hf, hv, hw⟩
        · rw [hw] at ha
          cases ha
          simp at he
        · rw [hw] at ha
          injection ha with ha hs
          rw [Option.mem_toList, ← ha] at he
          rw [← hs, (read_eq_some he).2.2]
          exact .inr he
    · exact .inl he
  | claimCandidate now => exact .inl he
  | claimUpdate candidate workerID now leaseTTL => exact .inl he
  | releaseLease id workerID => exact .inl he
  | retryUpdate record now => exact .inl he
  | createRequest row => exact .inl he

theorem seen_learn {i : Nat} {κ : Know} {c : Call} {x : Choice} {a : Reply c}
    (hκ : ∀ e ∈ κ, versioning.Seen s'.read e.row.id e) (h : serve i c x s = some (a, s')) :
    ∀ e ∈ learn κ c a, versioning.Seen s'.read e.row.id e := by
  intro e he
  rcases read_of_learn h he with hmem | hread
  · exact hκ e hmem
  · exact Versioning.seen_of_find hread

/-! ### The operations follow the outline -/

theorem follows_writes (edits : List Edit) {κ : Know} {base : Read} {st : RunnerState}
    (hb : base ∈ κ) (hid : st.id = base.row.id) (hs : sanitizeID base.row.id = base.row.id)
    (hv : st.version = base.row.version) :
    outline.Follows (fun _ _ => True) κ (writes edits base st) := by
  induction edits generalizing κ base st with
  | nil => exact Outline.follows_pure trivial
  | cons edit edits ih =>
    have hid' : sanitizeID (edit.apply st).id = base.row.id := by rw [edit.id_eq, hid, hs]
    refine Outline.follows_ask_bind ⟨hb, hid', by rw [edit.version_eq, hv]⟩ fun reply ht => ?_
    cases reply with
    | none => exact Outline.follows_pure trivial
    | some committed =>
      obtain ⟨hcid, hcv⟩ := ht committed rfl
      apply ih (List.mem_cons_self ..)
      · rw [hcid, hid', edit.id_eq, hid]
      · rw [hcid, hid', hs]
      · exact hcv.symm

theorem follows_updateState (id : String) (edits : List Edit) :
    outline.Follows (fun _ _ => True) [] (updateState id edits) := by
  refine Outline.follows_ask_bind trivial fun reply ht => ?_
  cases reply with
  | none => exact Outline.follows_pure trivial
  | some base =>
    apply follows_writes edits (List.mem_cons_self ..) rfl _ rfl
    rw [ht base rfl, sanitizeID_sanitizeID]

theorem follows_claimNextRunnable (workerID : String) (now leaseTTL : Time) :
    outline.Follows (fun _ _ => True) [] (claimNextRunnable workerID now leaseTTL) := by
  by_cases hw : Text.trimSpace workerID = ""
  · simp only [claimNextRunnable, if_pos hw]
    exact Outline.follows_pure trivial
  · simp only [claimNextRunnable, if_neg hw]
    refine Outline.follows_ask_bind trivial fun reply _ => ?_
    cases reply with
    | none => exact Outline.follows_pure trivial
    | some candidate =>
      refine Outline.follows_ask_bind trivial fun claimed _ => ?_
      cases claimed with
      | false => exact Outline.follows_pure trivial
      | true => exact Outline.follows_ask_bind trivial fun _ _ => Outline.follows_pure trivial

theorem follows_retryRequest (id : String) (now : Time) :
    outline.Follows (fun _ _ => True) [] (retryRequest id now) := by
  refine Outline.follows_ask_bind trivial fun reply _ => ?_
  cases reply with
  | none => exact Outline.follows_pure trivial
  | some base =>
    by_cases hr : base.row.retryAllowed = true
    · simp only [hr, if_true]
      refine Outline.follows_ask_bind trivial fun _ _ => ?_
      exact Outline.follows_ask_bind trivial fun _ _ => Outline.follows_pure trivial
    · simp only [hr]
      exact Outline.follows_pure trivial

theorem outline_sound : outline.Sound fun _ => [] where
  serve {i _ _ _ _ _ _} _ hκ _ hok hs :=
    have ha := advances_serve (i := i) hok hs
    ⟨tells_serve (i := i) hs, trivial,
      seen_learn (i := i) (fun e he => (hκ e he).advance ha) hs, ha⟩
  stable _ _ _ ha hκ e he := (hκ e he).advance ha
  fresh_holds _ _ := by simp [outline]
  restart_inv _ := trivial
  follows
    | .updateState id edits => follows_updateState id edits
    | .claimNextRunnable workerID now leaseTTL => follows_claimNextRunnable workerID now leaseTTL
    | .releaseLease id workerID =>
      outline.follows_ask (.releaseLease id workerID) trivial fun _ _ => trivial
    | .retryRequest id now => follows_retryRequest id now
    | .createRequest req now =>
      outline.follows_ask (.createRequest (req.row now)) trivial fun _ _ => trivial
    | .createRejectedRequest req reason now =>
      outline.follows_ask (.createRequest (req.rejectedRow reason now)) trivial fun _ _ => trivial

/-! ### What the version protects -/

/-- An accepted write finds the row that it is based on, with no change since. -/
theorem read_of_accepted {κ : Know} {i : Nat} {base e : Read} {st : RunnerState} {x : Choice}
    (hκ : ∀ e ∈ κ, versioning.Seen s.read e.row.id e) (hm : may κ (.writeState base st))
    (h : serve i (.writeState base st) x s = some (some e, s')) :
    s.read (sanitizeID st.id) = some base := by
  obtain ⟨hb, hid, hv⟩ := hm
  cases x with
  | none => cases h
  | some now =>
    have ha : s.writeState st now = (some e, s') := Option.some.inj h
    rcases writeState_cases s st now with hw | ⟨current, hf, hcv, hw⟩
    · rw [hw] at ha
      cases ha
    · have hread : s.read (sanitizeID st.id) = some ⟨current, s.changes (sanitizeID st.id)⟩ := by
        simp [Store.read, hf]
      rw [hid] at hread ⊢
      have hsame : base = ⟨current, s.changes base.row.id⟩ :=
        (hκ base hb).same_of_version hread (hcv.trans hv)
      rw [hread, ← hsame]

/-- Every row that differs has a higher version. -/
def RaisesVersions (s s' : Store) : Prop :=
  ∀ id r r', s.rows.find id = some r → s'.rows.find id = some r' → r ≠ r' → r.version < r'.version

theorem raisesVersions_of_advances (h : versioning.Advances s.read s'.read) :
    RaisesVersions s s' := by
  intro id r r' hr hr' hne
  obtain ⟨e, he, hl⟩ := h id ⟨r, s.changes id⟩ (by simp [Store.read, hr])
  obtain ⟨hf, -, -⟩ := read_eq_some he
  rw [hr'] at hf
  cases hf
  rcases hl with hl | hl
  · have hrow : r = e.row := congrArg Read.row hl
    exact absurd hrow hne
  · exact hl

/-- The next call of the thread is a write that is accepted over a row that has changed since it
was read. -/
def LostUpdate (cfg : Config Reply Store) (i : Nat) (x : Choice) : Prop :=
  ∃ base st k e s', cfg.threads[i]? = some (.call (.writeState base st) k) ∧
    serve i (.writeState base st) x cfg.state = some (some e, s') ∧
    cfg.state.read (sanitizeID st.id) ≠ some base

def lostUpdate (cfg : Config Reply Store) (i : Nat) (x : Choice) : Bool :=
  match (cfg.threads[i]? : Option (Prog Reply Unit)) with
  | some (.call (.writeState base st) _) =>
    match serve i (.writeState base st) x cfg.state with
    | some (some _, _) => cfg.state.read (sanitizeID st.id) ≠ some base
    | _ => false
  | _ => false

theorem lostUpdate_of_check {cfg : Config Reply Store} {i : Nat} {x : Choice}
    (h : lostUpdate cfg i x = true) : LostUpdate cfg i x := by
  unfold lostUpdate at h
  split at h
  · rename_i base st k hk
    split at h
    · rename_i e s' hs
      exact ⟨base, st, k, e, s', hk, hs, by simpa using h⟩
    · cases h
  · cases h

/-- Where every claim finds its candidate at the version it selected and no held lease is
released, each change of a row raises its version and no update is lost. -/
theorem version_protects_requests (s₀ : Store) {cfg cfg' : Config Reply Store}
    {d : Decision Choice Op} (hr : machine.Reaches Undisturbed s₀ cfg)
    (hm : machine.Meets Undisturbed cfg d) (h : machine.step cfg d = some cfg') :
    RaisesVersions cfg.state cfg'.state ∧ ∀ i x, d = .run i x → ¬ LostUpdate cfg i x := by
  constructor
  · apply raisesVersions_of_advances
    obtain ⟨op, -, -, rfl⟩ | ⟨i, x, c, k, a, t, rfl, hi, hs, rfl⟩ | ⟨-, rfl⟩ :=
      Machine.step_cases h
    · exact .refl _
    · exact advances_serve (i := i) (hm c k hi) hs
    · exact .refl _
  · rintro i x rfl ⟨base, st, k, e, s', hi, hs, hne⟩
    obtain ⟨κ, hκ, hmay⟩ := outline_sound.may_of_reaches trivial hr hi
    exact hne (read_of_accepted (i := i) hκ hmay hs)

def oneRequest : Store := ⟨Tables.Table.empty.insert { id := "1" }, fun _ => 0⟩

/-- A write after a read on its own. -/
theorem version_protects_requests_single_write : ∃ cfg cfg',
    machine.Reaches Undisturbed oneRequest cfg ∧ machine.step cfg (.run 0 (some 6)) = some cfg' ∧
    (cfg'.state.rows.find "1").map (·.version) = some 1 ∧
    RaisesVersions cfg.state cfg'.state ∧ ¬ LostUpdate cfg 0 (some 6) := by
  obtain ⟨cfg, cfg', hr, hm, h, hp⟩ := Machine.exists_step_of_execMeeting (M := machine)
    Undisturbed (s := oneRequest)
    [.start (.updateState "1" [noteError]), .run 0 (some 5)] (.run 0 (some 6))
    (fun _ cfg' => (cfg'.state.rows.find "1").map (·.version) == some 1) (by decide +kernel)
  have hall := version_protects_requests oneRequest hr hm h
  exact ⟨cfg, cfg', hr, h, by simpa using hp, hall.1, hall.2 0 (some 6) rfl⟩

/-- A claim selects its candidate, and the request is written before the claim's update: the
update sets the version that the write has left, and a write based on that version is then
accepted, over the lease. -/
theorem claim_overtaken_by_write :
    (∃ cfg cfg' d, machine.Reachable oneRequest cfg ∧ machine.step cfg d = some cfg' ∧
      ¬ RaisesVersions cfg.state cfg'.state) ∧
    ∃ cfg i x, machine.Reachable oneRequest cfg ∧ LostUpdate cfg i x := by
  constructor
  · obtain ⟨cfg, cfg', hr, h, hp⟩ := Machine.exists_step_of_exec (M := machine) (s := oneRequest)
      [.start (.claimNextRunnable "worker" 10 5), .start (.updateState "1" [noteError]),
        .run 0 (some 10), .run 1 (some 11), .run 1 (some 12)] (.run 0 (some 13))
      (fun cfg cfg' => (cfg.state.rows.find "1").any fun r =>
        (cfg'.state.rows.find "1").any fun r' => r ≠ r' && r'.version ≤ r.version)
      (by decide +kernel)
    refine ⟨cfg, cfg', _, hr, h, fun hv => ?_⟩
    obtain ⟨r, hr, hp⟩ := (Option.any_eq_true ..).mp hp
    obtain ⟨r', hr', hp⟩ := (Option.any_eq_true ..).mp hp
    simp only [ne_eq, Bool.and_eq_true, decide_eq_true_eq] at hp
    have := hv "1" r r' hr hr' hp.1
    omega
  · obtain ⟨cfg, hr, hp⟩ := Machine.exists_reachable_of_exec (M := machine) (s := oneRequest)
      [.start (.claimNextRunnable "worker" 10 5), .start (.updateState "1" [noteError]),
        .start (.updateState "1" [noteError]), .run 0 (some 10), .run 1 (some 11),
        .run 1 (some 12), .run 2 (some 13), .run 0 (some 14)]
      (lostUpdate · 2 (some 15)) (by decide +kernel)
    exact ⟨cfg, 2, some 15, hr, lostUpdate_of_check hp⟩

end CiRunner.State.Contention
