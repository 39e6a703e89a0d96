import CiRunner.Lifecycle.Knowledge

/-! The calls of the lifecycle are sound for the outline: where no claim is
overtaken, an accepted write finds the row that it is based on, every row stays in
order, and no thread takes from another what it knows. -/

namespace CiRunner.Lifecycle

open Threads Tables CiRunner.State Text

variable {cfg : Settings} {i : Nat} {κ : Know} {c : Call} {x : Choice} {s s' : State}

/-! ### Writes and claims -/

theorem writeState_cases (s : State) (i : Nat) (w : Writer) (st : RunnerState) (now : Time) :
    s.writeState i w st now = (none, s.settle i w) ∨
    ∃ cur, s.rows.find cur.id = some cur ∧ sanitizeID st.id = cur.id ∧ st.version = cur.version ∧
      s.writeState i w st now = (some (st.written cur now),
        { (s.settle i w).record w cur.id now with rows := s.rows.put (st.written cur now) }) := by
  unfold State.writeState
  rcases hw : s.rows.writeState st now with _ | rows
  · exact .inl rfl
  · obtain ⟨cur, hf, hv, rfl⟩ := Requests.writeState_eq_some hw
    have hid : cur.id = sanitizeID st.id := Table.key_of_find hf
    have hput : (s.rows.put (st.written cur now)).find cur.id = some (st.written cur now) :=
      Table.find_put_self (v := st.written cur now) (by rw [RunnerState.id_written, hid]; exact hf)
    refine .inr ⟨cur, by rw [hid]; exact hf, hid.symm, hv.symm, ?_⟩
    simp only [← hid, hput]

theorem claimUpdate_cases (s : State) (candidate : RunnerState) (workerID : String)
    (now leaseTTL : Time) :
    s.claimUpdate candidate workerID now leaseTTL = (false, s) ∨
    ∃ cur, s.rows.find cur.id = some cur ∧ candidate.id = cur.id ∧ cur.status = .queued ∧
      cur.leaseExpiresAt ≤ now ∧ s.claimUpdate candidate workerID now leaseTTL =
        (true, { s with
          rows := s.rows.put (cur.claimed candidate.version workerID now leaseTTL) }) := by
  unfold State.claimUpdate
  rcases hw : s.rows.claimUpdate candidate workerID now leaseTTL with _ | rows
  · exact .inl rfl
  · obtain ⟨cur, hf, hq, hl, rfl⟩ := Requests.claimUpdate_eq_some hw
    have hid : cur.id = candidate.id := Table.key_of_find hf
    exact .inr ⟨cur, by rw [hid]; exact hf, hid.symm, hq, hl, rfl⟩

theorem trail_settle (s : State) (i : Nat) (w : Writer) : (s.settle i w).trail = s.trail := by
  unfold State.settle
  split <;> rfl

theorem rows_settle (s : State) (i : Nat) (w : Writer) : (s.settle i w).rows = s.rows := by
  unfold State.settle
  split <;> rfl

theorem trail_record_settle (s : State) (i : Nat) (w w' : Writer) (key : String) (now : Time) :
    ((s.settle i w).record w' key now).trail = (s.record w' key now).trail := by
  unfold State.settle
  split
  · cases w' with
    | reconnect n => cases n <;> rfl
    | _ => rfl
  · rfl

theorem trail_recorded {k key : String} (hne : k ≠ key) (s : State) (x : Choice) (c : Call) :
    (recorded s x key c).trail k = s.trail k := by
  cases c with
  | writeState w st =>
    cases w with
    | reconnect n => cases n <;> simp [recorded, State.record, State.trail, hne]
    | creating | running | snapshot => simp [recorded, State.record, State.trail, hne]
    | _ => rfl
  | _ => rfl

theorem record_frame (s : State) (w : Writer) (key : String) (now : Time) :
    (s.record w key now).locks = s.locks ∧ (s.record w key now).creationLocks = s.creationLocks ∧
    (s.record w key now).stopped = s.stopped ∧
    (s.record w key now).reservations = s.reservations ∧ (s.record w key now).starts = s.starts := by
  cases w with
  | reconnect n => cases n <;> exact ⟨rfl, rfl, rfl, rfl, rfl⟩
  | _ => exact ⟨rfl, rfl, rfl, rfl, rfl⟩

theorem same_of_version {b cur : RunnerState} (hκ : Holds i κ s) (hb : b ∈ κ.rows)
    (hf : s.rows.find cur.id = some cur) (hid : b.id = cur.id) (hv : cur.version = b.version) :
    versioning.same b cur :=
  (hκ.rows b hb).same_of_version (by rw [hid]; exact hf) hv

/-- Everything a served call can do. -/
theorem served_of_serve {a : Reply c} (hκ : Holds i κ s) (hm : may cfg κ c)
    (hok : NotOvertaken cfg i c x s) (h : serve cfg i c x s = some (a, s')) :
    Served κ x s c s' := by
  cases c with
  | writeState w st =>
    rcases hx : x.fails with _ | _
    · have hs : s' = (s.writeState i w st x.now).2 := by
        simp only [serve, hx, Bool.false_eq_true, if_false] at h
        rw [Option.some.inj h]
      rcases writeState_cases s i w st x.now with he | ⟨cur, hf, hkey, hv, he⟩
      · rw [hs, he]
        exact .rest (rows_settle ..) (trail_settle ..)
      · obtain ⟨b, hb, hid, hbv, hsite, hpermit, -, -⟩ := hm
        have hbid : b.id = cur.id := hid.trans hkey
        have hsame := same_of_version hκ hb hf hbid (hv.symm.trans hbv)
        rw [core_eq_of_same hsame] at hsite
        rw [hs, he]
        exact .rewrite hf (.write hb hbid hsame hkey hv hsite hpermit) rfl
          (trail_record_settle s i w w cur.id x.now) hx
    · have hs : s' = s.settle i w := by
        simp only [serve, hx] at h
        injection h with h
        injection h with _ h
        exact h.symm
      rw [hs]
      exact .rest (rows_settle ..) (trail_settle ..)
  | claimUpdate candidate workerID now leaseTTL =>
    rcases hx : x.fails with _ | _
    · have hs : s' = (s.claimUpdate candidate workerID now leaseTTL).2 := by
        simp only [serve, hx, Bool.false_eq_true, if_false] at h
        rw [Option.some.inj h]
      rcases claimUpdate_cases s candidate workerID now leaseTTL with he | ⟨cur, hf, hid, hq, hl, he⟩
      · rw [hs, he]
        exact .rest rfl rfl
      · have hv : cur.version = candidate.version :=
          hok (candidate, now) rfl hx cur (by rw [hid]; exact hf) hq hl
        rw [hs, he, ← hv]
        exact .rewrite hf (.claim hq) rfl rfl hx
    · simp only [serve, hx] at h
      cases h
      exact .rest rfl rfl
  | releaseLease n id workerID =>
    rcases hx : x.fails with _ | _
    · simp only [serve, hx, Bool.false_eq_true, if_false] at h
      cases h
      rcases s.rows.releaseLease_cases id workerID with he | ⟨cur, hf, -, he⟩
      · exact .rest he rfl
      · have hid : cur.id = sanitizeID id := Table.key_of_find hf
        refine .rewrite (by rw [hid]; exact hf) (.release hid.symm ?_) he rfl hx
        rw [hid]
        exact hm
    · simp only [serve, hx] at h
      cases h
      exact .rest rfl rfl
  | retryUpdate record now =>
    rcases hx : x.fails with _ | _
    · simp only [serve, hx, Bool.false_eq_true, if_false] at h
      cases h
      rcases s.rows.retryUpdate_cases record now with he | ⟨cur, hf, hv, he⟩
      · exact .rest he rfl
      · have hid : cur.id = record.id := Table.key_of_find hf
        have hf' : s.rows.find cur.id = some cur := by rw [hid]; exact hf
        refine .rewrite hf' (.retry hm.1 (same_of_version hκ hm.1 hf' hid.symm hv) hm.2) ?_
          rfl hx
        rw [hv]
        exact he
    · simp only [serve, hx] at h
      cases h
      exact .rest rfl rfl
  | createRequest row =>
    rcases hx : x.fails with _ | _
    · simp only [serve, hx, Bool.false_eq_true, if_false] at h
      cases h
      rcases s.rows.createRequest_cases row with he | he
      · exact .rest he rfl
      · rw [he]
        exact .create hm
    · simp only [serve, hx] at h
      cases h
      exact .rest rfl rfl
  | lock id | lockCreation id =>
    simp only [serve] at h
    split at h <;> cases h
    exact .rest rfl rfl
  | reserve =>
    simp only [serve, State.reserve] at h
    split at h
    · cases h; exact .rest rfl rfl
    · split at h <;> (cases h; exact .rest rfl rfl)
  | stopSandbox sandboxID =>
    simp only [serve, State.stopSandbox] at h
    split at h
    · cases h; exact .rest rfl rfl
    · cases h
      split <;> exact .rest rfl rfl
  | _ => cases h; exact .rest rfl rfl

/-! ### What becomes of a row -/

section Rewrite

variable {cur new : RunnerState}

theorem Rewrite.id_eq (h : Rewrite κ x c cur new) : new.id = cur.id := by
  cases h <;> rfl

theorem Rewrite.labels_eq (h : Rewrite κ x c cur new) : new.labels = cur.labels := by
  cases h <;> rfl

theorem Rewrite.later (h : Rewrite κ x c cur new) : versioning.Later cur new := by
  cases h with
  | write _ _ _ _ hv =>
    refine .inr ?_
    simp only [versioning, RunnerState.version_written, hv]
    exact Nat.lt_succ_self _
  | claim => exact .inr (Nat.lt_succ_self _)
  | release => exact .inl rfl
  | retry => exact .inr (Nat.lt_succ_self _)

theorem Rewrite.rowOk (h : Rewrite κ x c cur new) (hc : RowOk cur) : RowOk new := by
  cases h with
  | write _ _ _ _ _ hsite => exact rowOk_written hc (hsite.coreOk hc.core)
  | claim => exact ⟨hc.key, hc.sandbox, hc.unprovisioned, hc.environment, hc.service⟩
  | release => exact ⟨hc.key, hc.sandbox, hc.unprovisioned, hc.environment, hc.service⟩
  | retry =>
    exact ⟨hc.key, coreOk_empty.sandbox, fun _ => rfl, environment_trim_empty, service_trim_empty⟩

theorem Rewrite.unprovisioned (h : Rewrite κ x c cur new) (hc : ∀ w st, c ≠ .writeState w st)
    (hn : cur.sandboxID = "") : new.sandboxID = "" := by
  cases h with
  | write => exact absurd rfl (hc _ _)
  | claim => exact hn
  | release => exact hn
  | retry => rfl

theorem Rewrite.provisioned (h : Rewrite κ x c cur new) (hc : cur.sandboxID = "") :
    new.sandboxID = "" ∨ cur.id ∈ κ.locks := by
  cases h with
  | @write w st b _ _ hid _ _ _ hsite hpermit =>
    have hs := congrArg Core.sandboxID (core_written st cur x.now)
    rw [sandboxID_stamp] at hs
    obtain hd | ⟨n, rfl⟩ | ⟨n, rfl⟩ := hsite.provisioned hc
    · exact .inl (hs.trans hd)
    · exact .inr (hid ▸ hpermit.2.2)
    · exact .inr (hid ▸ hpermit)
  | claim => exact .inl hc
  | release => exact .inl hc
  | retry => exact .inl rfl

end Rewrite

/-- Where a row comes from, and what is recorded of its request. -/
theorem Served.row {k : String} {r : RunnerState} (h : Served κ x s c s')
    (hr : s'.rows.find k = some r) :
    (s.rows.find k = some r ∧ s'.trail k = s.trail k) ∨
    (s.rows.find k = none ∧ NewRow r ∧ s'.trail k = s.trail k) ∨
    ∃ cur, s.rows.find k = some cur ∧ cur.id = k ∧ x.fails = false ∧ Rewrite κ x c cur r ∧
      s'.trail k = (recorded s x k c).trail k := by
  cases h with
  | rest rows trail =>
    rw [rows] at hr
    exact .inl ⟨hr, congrFun trail k⟩
  | create hnew =>
    obtain ⟨-, rfl, hn⟩ | h := Table.find_insert_cases hr
    · exact .inr (.inl ⟨hn, hnew, rfl⟩)
    · exact .inl ⟨h, rfl⟩
  | @rewrite _ _ cur new hf hrow rows trail hx =>
    rw [rows] at hr
    obtain ⟨hk, rfl, -⟩ | ⟨hne, h⟩ := Table.find_put_cases hr
    · rw [hrow.id_eq] at hk
      subst hk
      exact .inr (.inr ⟨cur, hf, rfl, hx, hrow, congrFun trail _⟩)
    · rw [hrow.id_eq] at hne
      exact .inl ⟨h, (congrFun trail k).trans (trail_recorded hne s x c)⟩

theorem Served.advances (h : Served κ x s c s') :
    versioning.Advances s.rows.find s'.rows.find := by
  cases h with
  | rest rows => rw [rows]; exact .refl _
  | create => exact Versioning.advances_insert s.rows _
  | @rewrite _ _ cur new hf hrow rows =>
    have hf' : s.rows.find new.id = some cur := by rw [hrow.id_eq]; exact hf
    rw [rows]
    exact Versioning.advances_put hf' hrow.later

theorem Served.row_of_find {k : String} {r r' : RunnerState} (h : Served κ x s c s')
    (hr : s.rows.find k = some r) (hr' : s'.rows.find k = some r') :
    r' = r ∨ (r.id = k ∧ x.fails = false ∧ Rewrite κ x c r r') := by
  obtain ⟨h, -⟩ | ⟨hn, -⟩ | ⟨cur, hf, hid, hx, hrow, -⟩ := h.row hr'
  · rw [hr] at h
    exact .inl (Option.some.inj h).symm
  · rw [hr] at hn
    cases hn
  · rw [hr] at hf
    cases hf
    exact .inr ⟨hid, hx, hrow⟩

theorem Served.rowsOk (h : Served κ x s c s') (hs : RowsOk s) : RowsOk s' := by
  intro k r hr
  obtain ⟨h, -⟩ | ⟨-, hnew, -⟩ | ⟨cur, hf, -, -, hrow, -⟩ := h.row hr
  · exact hs k r h
  · exact hnew.ok
  · exact hrow.rowOk (hs k cur hf)

/-! ### The effect of a call -/

/-- The locks of the other threads, the reservations and what is stopped. -/
structure Frame (i : Nat) (s s' : State) : Prop where
  stopped : ∀ x ∈ s.stopped, x ∈ s'.stopped
  locks : ∀ id j, j ≠ i → s.locks id = some j → s'.locks id = some j
  creation : ∀ id j, j ≠ i → s.creationLocks id = some j → s'.creationLocks id = some j
  reservations : ∀ j, j ≠ i → j ∈ s.reservations → j ∈ s'.reservations

theorem frame_of_eq (hs : s'.stopped = s.stopped) (hl : s'.locks = s.locks)
    (hc : s'.creationLocks = s.creationLocks) (hr : s'.reservations = s.reservations) :
    Frame i s s' :=
  ⟨by simp [hs], by simp [hl], by simp [hc], by simp [hr]⟩

theorem frame_settle (s : State) (i : Nat) (w : Writer) : Frame i s (s.settle i w) := by
  unfold State.settle
  split
  · refine ⟨fun _ h => h, fun _ _ _ h => h, fun _ _ _ h => h, fun j hj h => ?_⟩
    exact (List.mem_erase_of_ne hj).mpr h
  · exact frame_of_eq rfl rfl rfl rfl

theorem frame_writeState (s : State) (i : Nat) (w : Writer) (st : RunnerState) (now : Time) :
    Frame i s (s.writeState i w st now).2 := by
  have hsettle := frame_settle s i w
  rcases writeState_cases s i w st now with he | ⟨cur, -, -, -, he⟩
  · rw [he]
    exact hsettle
  · obtain ⟨hl, hc, hs, hr, -⟩ := record_frame (s.settle i w) w cur.id now
    rw [he]
    refine ⟨?_, ?_, ?_, ?_⟩
    · rw [hs]; exact hsettle.stopped
    · rw [hl]; exact hsettle.locks
    · rw [hc]; exact hsettle.creation
    · rw [hr]; exact hsettle.reservations

theorem lock_update {locks : String → Option Nat} {id : String} (hfree : locks id = none)
    (v : Option Nat) (id' : String) (j : Nat) (h : locks id' = some j) :
    Function.update locks id v id' = some j := by
  have hne : id' ≠ id := fun e => by rw [e, hfree] at h; cases h
  rw [Function.update_of_ne hne]
  exact h

theorem released_of_ne {locks : String → Option Nat} {id id' : String} {j : Nat} (hj : j ≠ i)
    (h : locks id' = some j) : released locks id i id' = some j := by
  unfold released
  split
  · rename_i hid
    have hne : id' ≠ id := fun e => by
      rw [e, hid] at h
      exact hj (Option.some.inj h).symm
    rw [Function.update_of_ne hne]
    exact h
  · exact h

theorem released_self {locks : String → Option Nat} {id id' : String} (hne : id' ≠ id) :
    released locks id i id' = locks id' := by
  unfold released
  split
  · exact Function.update_of_ne hne ..
  · rfl

theorem frame_serve {a : Reply c} (h : serve cfg i c x s = some (a, s')) : Frame i s s' := by
  cases c with
  | writeState w st =>
    rcases hx : x.fails with _ | _ <;> simp only [serve, hx] at h
    · have hs : s' = (s.writeState i w st x.now).2 := by
        simp only [Bool.false_eq_true, if_false] at h
        rw [Option.some.inj h]
      rw [hs]
      exact frame_writeState ..
    · cases h
      exact frame_settle ..
  | claimUpdate candidate workerID now leaseTTL =>
    rcases hx : x.fails with _ | _ <;> simp only [serve, hx] at h
    · have hs : s' = (s.claimUpdate candidate workerID now leaseTTL).2 := by
        simp only [Bool.false_eq_true, if_false] at h
        rw [Option.some.inj h]
      rcases claimUpdate_cases s candidate workerID now leaseTTL with he | ⟨_, _, _, _, _, he⟩ <;>
        (rw [hs, he]; exact frame_of_eq rfl rfl rfl rfl)
    · cases h
      exact frame_of_eq rfl rfl rfl rfl
  | releaseLease | retryUpdate | createRequest =>
    rcases hx : x.fails with _ | _ <;>
      (simp only [serve, hx] at h; cases h; exact frame_of_eq rfl rfl rfl rfl)
  | lock id =>
    simp only [serve] at h
    split at h <;> cases h
    rename_i hfree
    exact ⟨fun _ h => h, fun id' j _ => lock_update hfree _ id' j, fun _ _ _ h => h,
      fun _ _ h => h⟩
  | lockCreation id =>
    simp only [serve] at h
    split at h <;> cases h
    rename_i hfree
    exact ⟨fun _ h => h, fun _ _ _ h => h, fun id' j _ => lock_update hfree _ id' j,
      fun _ _ h => h⟩
  | unlock id =>
    cases h
    exact ⟨fun _ h => h, fun _ _ hj => released_of_ne hj, fun _ _ _ h => h, fun _ _ h => h⟩
  | unlockCreation id =>
    cases h
    exact ⟨fun _ h => h, fun _ _ _ h => h, fun _ _ hj => released_of_ne hj, fun _ _ h => h⟩
  | reserve =>
    simp only [serve, State.reserve] at h
    split at h
    · cases h; exact frame_of_eq rfl rfl rfl rfl
    · split at h
      · cases h; exact frame_of_eq rfl rfl rfl rfl
      · cases h
        exact ⟨fun _ h => h, fun _ _ _ h => h, fun _ _ _ h => h,
          fun _ _ h => List.mem_cons_of_mem _ h⟩
  | stopSandbox sandboxID =>
    have hmem : ∀ x ∈ s.stopped, x ∈ sandboxID :: s.stopped := fun _ h => List.mem_cons_of_mem _ h
    simp only [serve, State.stopSandbox] at h
    split at h
    · cases h
      exact ⟨hmem, fun _ _ _ h => h, fun _ _ _ h => h, fun _ _ h => h⟩
    · cases h
      split
      · exact ⟨hmem, fun _ _ _ h => h, fun _ _ _ h => h, fun _ _ h => h⟩
      · exact frame_of_eq rfl rfl rfl rfl
  | _ => cases h; exact frame_of_eq rfl rfl rfl rfl

theorem effect_serve {a : Reply c} (hκ : Holds i κ s) (hserved : Served κ x s c s')
    (h : serve cfg i c x s = some (a, s')) : Effect i s s' where
  rows := hserved.advances
  labels k r r' hr hr' := by
    obtain rfl | ⟨-, -, hrow⟩ := hserved.row_of_find hr hr'
    · rfl
    · exact hrow.labels_eq
  provisioned k r r' hr hr' hn := by
    obtain rfl | ⟨hid, -, hrow⟩ := hserved.row_of_find hr hr'
    · exact .inl hn
    · obtain hn' | hl := hrow.provisioned hn
      · exact .inl hn'
      · exact .inr (hid ▸ hκ.locks _ hl)
  stopped := (frame_serve h).stopped
  locks := (frame_serve h).locks
  creation := (frame_serve h).creation
  reservations := (frame_serve h).reservations

theorem Holds.stable {j : Nat} (hij : i ≠ j) (he : Effect i s s') (hκ : Holds j κ s) :
    Holds j κ s' where
  rows b hb := (hκ.rows b hb).advance he.rows
  labels b hb r hr := by
    obtain ⟨r₀, hr₀, -⟩ := hκ.rows b hb
    rw [he.labels b.id r₀ r hr₀ hr, hκ.labels b hb r₀ hr₀]
  stopped y hy := he.stopped y (hκ.stopped y hy)
  locks id hid := he.locks id j (Ne.symm hij) (hκ.locks id hid)
  creation id hid := he.creation id j (Ne.symm hij) (hκ.creation id hid)
  unprovisioned k hk := by
    obtain ⟨hl, r, hr, hn⟩ := hκ.unprovisioned k hk
    obtain ⟨r', hr', -⟩ := he.rows k r hr
    refine ⟨he.locks k j (Ne.symm hij) hl, r', hr', ?_⟩
    obtain hn' | hl' := he.provisioned k r r' hr hr' hn
    · exact hn'
    · rw [hl] at hl'
      exact absurd (Option.some.inj hl').symm hij
  reserved h := he.reservations j (Ne.symm hij) (hκ.reserved h)

/-! ### What a call teaches -/

theorem Holds.keep (hκ : Holds i κ s) (he : Effect i s s') (hl : s'.locks = s.locks)
    (hc : s'.creationLocks = s.creationLocks) (hr : s'.reservations = s.reservations)
    (hn : ∀ k r r', s.rows.find k = some r → s'.rows.find k = some r' → r.sandboxID = "" →
      r'.sandboxID = "") : Holds i κ s' where
  rows b hb := (hκ.rows b hb).advance he.rows
  labels b hb r hr := by
    obtain ⟨r₀, hr₀, -⟩ := hκ.rows b hb
    rw [he.labels b.id r₀ r hr₀ hr, hκ.labels b hb r₀ hr₀]
  stopped y hy := he.stopped y (hκ.stopped y hy)
  locks := by rw [hl]; exact hκ.locks
  creation := by rw [hc]; exact hκ.creation
  unprovisioned k hk := by
    obtain ⟨hlk, r, hr, hr0⟩ := hκ.unprovisioned k hk
    obtain ⟨r', hr', -⟩ := he.rows k r hr
    exact ⟨by rw [hl]; exact hlk, r', hr', hn k r r' hr hr' hr0⟩
  reserved := by rw [hr]; exact hκ.reserved

/-- A row that has been read. -/
theorem Holds.read (hκ : Holds i κ s) {r : RunnerState} (hr : s.rows.find r.id = some r) :
    Holds i (κ.read r) s where
  rows b hb := by
    obtain rfl | hb := List.mem_cons.mp hb
    · exact Versioning.seen_of_find hr
    · exact hκ.rows b hb
  labels b hb r' hr' := by
    obtain rfl | hb := List.mem_cons.mp hb
    · rw [hr] at hr'
      cases hr'
      rfl
    · exact hκ.labels b hb r' hr'
  stopped := hκ.stopped
  locks := hκ.locks
  creation := hκ.creation
  unprovisioned k hk := by
    simp only [Know.read] at hk
    split at hk
    · rename_i hn
      obtain rfl | hk := List.mem_cons.mp hk
      · exact ⟨hκ.locks _ hn.2, r, hr, hn.1⟩
      · exact hκ.unprovisioned k hk
    · exact hκ.unprovisioned k hk
  reserved := hκ.reserved

/-- A write, accepted or not. -/
theorem Holds.write {w : Writer} {reply : Option RunnerState} (hκ : Holds i κ s)
    (he : Effect i s s') (hl : s'.locks = s.locks) (hc : s'.creationLocks = s.creationLocks)
    (hr : w ≠ .creating → s'.reservations = s.reservations)
    (hreply : ∀ r, reply = some r → s'.rows.find r.id = some r) : Holds i (κ.wrote w reply) s' := by
  have hrow : ∀ b ∈ κ.rows, ∀ r, s'.rows.find b.id = some r → r.labels = b.labels := by
    intro b hb r hr
    obtain ⟨r₀, hr₀, -⟩ := hκ.rows b hb
    rw [he.labels b.id r₀ r hr₀ hr, hκ.labels b hb r₀ hr₀]
  have hres : (κ.spent w).reserved = true → i ∈ s'.reservations := by
    intro h
    cases w with
    | creating => cases h
    | _ => rw [hr (by simp)]; exact hκ.reserved h
  cases reply with
  | none =>
    exact ⟨fun b hb => (hκ.rows b hb).advance he.rows, hrow,
      fun y hy => he.stopped y (hκ.stopped y hy), by rw [hl]; exact hκ.locks,
      by rw [hc]; exact hκ.creation, by simp [Know.wrote, Know.spent], hres⟩
  | some r =>
    refine ⟨fun b hb => ?_, fun b hb r' hr' => ?_, fun y hy => he.stopped y (hκ.stopped y hy),
      by rw [hl]; exact hκ.locks, by rw [hc]; exact hκ.creation, by simp [Know.wrote, Know.spent], hres⟩
    · obtain rfl | hb := List.mem_cons.mp hb
      · exact Versioning.seen_of_find (hreply _ rfl)
      · exact (hκ.rows b hb).advance he.rows
    · obtain rfl | hb := List.mem_cons.mp hb
      · rw [hreply _ rfl] at hr'
        cases hr'
        rfl
      · exact hrow b hb r' hr'

theorem find_of_read {id : String} {r : RunnerState} (h : s.rows.find (sanitizeID id) = some r) :
    s.rows.find r.id = some r := by
  rw [Table.key_of_find h]
  exact h

theorem find_writeState {w : Writer} {st r : RunnerState} {now : Time}
    (h : (s.writeState i w st now).1 = some r) : (s.writeState i w st now).2.rows.find r.id = some r ∧
      ∃ current, current.id = sanitizeID st.id ∧ r = st.written current now := by
  rcases writeState_cases s i w st now with he | ⟨cur, hf, hkey, -, he⟩
  · rw [he] at h
    cases h
  · rw [he] at h ⊢
    cases h
    exact ⟨Table.find_put_self (v := st.written cur now) hf, cur, hkey.symm, rfl⟩

theorem locks_writeState (s : State) (i : Nat) (w : Writer) (st : RunnerState) (now : Time) :
    (s.writeState i w st now).2.locks = s.locks ∧
    (s.writeState i w st now).2.creationLocks = s.creationLocks ∧
    (w ≠ .creating → (s.writeState i w st now).2.reservations = s.reservations) := by
  have hsettle : (s.settle i w).locks = s.locks ∧
      (s.settle i w).creationLocks = s.creationLocks ∧
      (w ≠ .creating → (s.settle i w).reservations = s.reservations) := by
    unfold State.settle
    split
    · rename_i hw
      exact ⟨rfl, rfl, fun h => absurd hw h⟩
    · exact ⟨rfl, rfl, fun _ => rfl⟩
  rcases writeState_cases s i w st now with he | ⟨cur, -, -, -, he⟩
  · rw [he]
    exact hsettle
  · obtain ⟨hl, hc, -, hr, -⟩ := record_frame (s.settle i w) w cur.id now
    rw [he]
    exact ⟨hl.trans hsettle.1, hc.trans hsettle.2.1, fun h => hr.trans (hsettle.2.2 h)⟩

theorem holds_learn {a : Reply c} (hκ : Holds i κ s) (hserved : Served κ x s c s')
    (he : Effect i s s') (h : serve cfg i c x s = some (a, s')) : Holds i (learn κ c a) s' := by
  have hkeep (hc : ∀ w st, c ≠ .writeState w st) : ∀ k r r', s.rows.find k = some r →
      s'.rows.find k = some r' → r.sandboxID = "" → r'.sandboxID = "" := by
    intro k r r' hr hr' hn
    obtain rfl | ⟨-, -, hrow⟩ := hserved.row_of_find hr hr'
    · exact hn
    · exact hrow.unprovisioned hc hn
  cases c with
  | writeState w st =>
    rcases hx : x.fails with _ | _ <;> simp only [serve, hx] at h
    · simp only [Bool.false_eq_true, if_false] at h
      have hw : s.writeState i w st x.now = (a, s') := Option.some.inj h
      have hs : (s.writeState i w st x.now).2 = s' := by rw [hw]
      have ha : (s.writeState i w st x.now).1 = a := by rw [hw]
      obtain ⟨hl, hc, hr⟩ := locks_writeState s i w st x.now
      rw [hs] at hl hc hr
      refine hκ.write he hl hc hr fun r hr => ?_
      rw [← ha] at hr
      rw [← hs]
      exact (find_writeState hr).1
    · simp only [if_true] at h
      cases h
      show Holds i (κ.wrote w none) _
      refine hκ.write he ?_ ?_ (fun hw => ?_) (fun r hr => by cases hr)
      · unfold State.settle; split <;> rfl
      · unfold State.settle; split <;> rfl
      · unfold State.settle; rw [if_neg hw]
  | readState id =>
    rcases hx : x.fails with _ | _ <;> simp only [serve, hx] at h
    · simp only [Bool.false_eq_true, if_false] at h
      injection h with h
      injection h with ha hs
      subst hs
      cases a with
      | none => exact hκ
      | some r => exact hκ.read (find_of_read ha)
    · cases h
      exact hκ
  | claimUpdate candidate workerID now leaseTTL =>
    rcases hx : x.fails with _ | _ <;> simp only [serve, hx] at h
    · have hs : s' = (s.claimUpdate candidate workerID now leaseTTL).2 := by
        simp only [Bool.false_eq_true, if_false] at h
        rw [Option.some.inj h]
      have hframe : s'.locks = s.locks ∧ s'.creationLocks = s.creationLocks ∧
          s'.reservations = s.reservations := by
        rcases claimUpdate_cases s candidate workerID now leaseTTL with h | ⟨_, _, _, _, _, h⟩ <;>
          (rw [hs, h]; exact ⟨rfl, rfl, rfl⟩)
      exact hκ.keep he hframe.1 hframe.2.1 hframe.2.2 (hkeep fun _ _ hc => by cases hc)
    · cases h
      exact hκ
  | releaseLease | retryUpdate | createRequest =>
    rcases hx : x.fails with _ | _ <;> simp only [serve, hx] at h
    · cases h
      exact hκ.keep he rfl rfl rfl (hkeep fun _ _ hc => by cases hc)
    · cases h
      exact hκ
  | lock id =>
    simp only [serve] at h
    split at h <;> cases h
    rename_i hfree
    refine ⟨hκ.rows, hκ.labels, hκ.stopped, fun id' hid => ?_, hκ.creation, fun k hk => ?_,
      hκ.reserved⟩
    · obtain rfl | hid := List.mem_cons.mp hid
      · exact Function.update_self ..
      · exact lock_update hfree _ id' i (hκ.locks id' hid)
    · obtain ⟨hl, hr⟩ := hκ.unprovisioned k hk
      exact ⟨lock_update hfree _ k i hl, hr⟩
  | lockCreation id =>
    simp only [serve] at h
    split at h <;> cases h
    rename_i hfree
    refine ⟨hκ.rows, hκ.labels, hκ.stopped, hκ.locks, fun id' hid => ?_, hκ.unprovisioned,
      hκ.reserved⟩
    obtain rfl | hid := List.mem_cons.mp hid
    · exact Function.update_self ..
    · exact lock_update hfree _ id' i (hκ.creation id' hid)
  | unlock id =>
    cases h
    refine ⟨hκ.rows, hκ.labels, hκ.stopped, fun id' hid => ?_, hκ.creation, fun k hk => ?_,
      hκ.reserved⟩
    · obtain ⟨hid, hne⟩ := List.mem_filter.mp hid
      exact (released_self (of_decide_eq_true hne)).trans (hκ.locks id' hid)
    · obtain ⟨hk, hne⟩ := List.mem_filter.mp hk
      obtain ⟨hl, hr⟩ := hκ.unprovisioned k hk
      exact ⟨(released_self (of_decide_eq_true hne)).trans hl, hr⟩
  | unlockCreation id =>
    cases h
    refine ⟨hκ.rows, hκ.labels, hκ.stopped, hκ.locks, fun id' hid => ?_, hκ.unprovisioned,
      hκ.reserved⟩
    obtain ⟨hid, hne⟩ := List.mem_filter.mp hid
    exact (released_self (of_decide_eq_true hne)).trans (hκ.creation id' hid)
  | reserve =>
    simp only [serve, State.reserve] at h
    split at h
    · cases h; exact hκ
    · split at h
      · cases h; exact hκ
      · cases h
        exact ⟨hκ.rows, hκ.labels, hκ.stopped, hκ.locks, hκ.creation, hκ.unprovisioned,
          fun _ => List.mem_cons_self ..⟩
  | stopSandbox sandboxID =>
    have hmem : ∀ y ∈ sandboxID :: κ.stopped, y ∈ sandboxID :: s.stopped := by
      intro y hy
      obtain rfl | hy := List.mem_cons.mp hy
      · exact List.mem_cons_self ..
      · exact List.mem_cons_of_mem _ (hκ.stopped y hy)
    simp only [serve, State.stopSandbox] at h
    split at h
    · cases h
      exact ⟨hκ.rows, hκ.labels, hmem, hκ.locks, hκ.creation, hκ.unprovisioned, hκ.reserved⟩
    · rename_i err _
      cases h
      rcases hg : isSandboxGone err with _ | _
      · simpa only [learn, hg, Bool.false_eq_true, if_false] using hκ
      · simp only [learn, hg, if_true]
        exact ⟨hκ.rows, hκ.labels, hmem, hκ.locks, hκ.creation, hκ.unprovisioned, hκ.reserved⟩
  | sandboxConfig id =>
    simp only [serve] at h
    split at h <;> cases h
    · exact hκ
    · exact ⟨hκ.rows, hκ.labels, hκ.stopped, hκ.locks, hκ.creation, hκ.unprovisioned, hκ.reserved⟩
  | _ =>
    cases h
    exact ⟨hκ.rows, hκ.labels, hκ.stopped, hκ.locks, hκ.creation, hκ.unprovisioned, hκ.reserved⟩

theorem tells_serve {a : Reply c} (hs : RowsOk s) (hκ : Holds i κ s)
    (h : serve cfg i c x s = some (a, s')) : tells κ c a := by
  cases c with
  | readState id =>
    intro r hr
    rcases hx : x.fails with _ | _ <;> simp only [serve, hx] at h
    · simp only [Bool.false_eq_true, if_false] at h
      injection h with h
      injection h with ha _
      have hf : s.rows.find (sanitizeID id) = some r := ha.trans hr
      refine ⟨Table.key_of_find hf, hs _ r hf, fun hk => ?_, fun b hb hid => ?_,
        fun b hb hid hv => ?_⟩
      · obtain ⟨-, r', hr', hn⟩ := hκ.unprovisioned _ hk
        rw [hf] at hr'
        cases hr'
        exact hn
      · exact (hκ.labels b hb r (by rw [hid]; exact hf)).symm
      · exact core_eq_of_same ((hκ.rows b hb).same_of_version (by rw [hid]; exact hf) hv.symm)
    · simp only [if_true] at h
      cases h
      cases hr
  | writeState w st =>
    intro r hr
    rcases hx : x.fails with _ | _ <;> simp only [serve, hx] at h
    · simp only [Bool.false_eq_true, if_false] at h
      have ha : (s.writeState i w st x.now).1 = a := by rw [Option.some.inj h]
      obtain ⟨-, cur, hid, rfl⟩ := find_writeState (ha.trans hr)
      exact ⟨cur, x.now, hid, rfl⟩
    · simp only [if_true] at h
      cases h
      cases hr
  | recoverSandbox sandboxID =>
    intro result n hr hne
    simp only [serve] at h
    injection h with h
    injection h with ha _
    have hrec : recovered sandboxID x = .found result n := ha.trans hr
    unfold recovered at hrec
    split at hrec
    · rw [if_neg hne] at hrec
      cases hrec
      rfl
    · split at hrec
      · cases hrec
      · split at hrec <;> cases hrec
  | _ => trivial

theorem base_serve {a : Reply c} (hs : RowsOk s) (hκ : Holds i κ s) (hm : may cfg κ c)
    (hok : NotOvertaken cfg i c x s) (h : serve cfg i c x s = some (a, s')) :
    tells κ c a ∧ RowsOk s' ∧ Holds i (learn κ c a) s' ∧ Effect i s s' := by
  have hserved := served_of_serve hκ hm hok h
  have heffect := effect_serve hκ hserved h
  exact ⟨tells_serve hs hκ h, hserved.rowsOk hs, holds_learn hκ hserved heffect h, heffect⟩

end CiRunner.Lifecycle
