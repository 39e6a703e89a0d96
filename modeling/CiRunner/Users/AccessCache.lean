import CiRunner.State.Access

/-! The cache of the repositories that a user has access to. A request takes the entry of its
account or waits for a load, which it shares with the requests that wait for the same account and
epoch; an invalidation begins a new epoch. The steps are those under the mutex of the source, in
any order; times are in milliseconds. -/

namespace CiRunner.Users

open State

def maxUserRepositoryAccessCacheItems : ℕ := 512
def userRepositoryAccessRefreshAfter : ℕ := 20000
def userRepositoryAccessCacheTTL : ℕ := 30000
def userRepositoryAccessRefreshRetry : ℕ := 5000

/-- Why there is no access list. -/
inductive AccessError where
  | rejected
  | failed
  | canceled
  deriving DecidableEq, Repr

abbrev LoadResult := Except AccessError (List RepositoryAccess)

structure CachedUserRepositoryAccess where
  accountID : ℤ
  access : List RepositoryAccess
  refreshAfter : ℕ
  expiresAt : ℕ
  refreshing : Bool := false

/-- How far a shared load is, with the epoch of its account when it started. -/
inductive LoadStage where
  | called
  | loading (started : ℕ)
  | loaded (started : ℕ) (result : LoadResult)
  | settled (started : ℕ) (result : LoadResult)
  | done (started : ℕ) (result : LoadResult)

/-- A load under the key of its account and epoch. -/
structure Load where
  accountID : ℤ
  epoch : ℕ
  stage : LoadStage := .called

namespace Load

def running (l : Load) : Bool :=
  match l.stage with
  | .done .. => false
  | _ => true

def started (l : Load) : Option ℕ :=
  match l.stage with
  | .called => none
  | .loading n | .loaded n _ | .settled n _ | .done n _ => some n

def result (l : Load) : Option LoadResult :=
  match l.stage with
  | .loaded _ r | .settled _ r | .done _ r => some r
  | _ => none

end Load

/-- How far a request is. An answer has the epoch of the account when it was given. -/
inductive AccessStage where
  | called
  | missed
  | keyed (epoch : ℕ)
  | waiting (epoch load : ℕ)
  | received (epoch : ℕ) (access : List RepositoryAccess)
  | answered (result : LoadResult) (epoch : ℕ)

/-- A request, with the epoch of its account when it began. -/
structure AccessRequest where
  accountID : ℤ
  since : ℕ
  stage : AccessStage

structure AccessCache where
  epoch : ℤ → ℕ := fun _ => 0
  cache : List CachedUserRepositoryAccess := []
  loads : List Load := []
  requests : List AccessRequest := []

namespace AccessCache

def move (s : AccessCache) (i : ℕ) (r : AccessRequest) (stage : AccessStage) : AccessCache :=
  { s with requests := s.requests.set i { r with stage } }

def answer (s : AccessCache) (i : ℕ) (r : AccessRequest) (result : LoadResult) : AccessCache :=
  s.move i r (.answered result (s.epoch r.accountID))

def without (s : AccessCache) (a : ℤ) : List CachedUserRepositoryAccess :=
  s.cache.filter (·.accountID ≠ a)

def cachedUserRepositoryAccessForRequest (s : AccessCache) (i : ℕ) (r : AccessRequest) (now : ℕ) :
    AccessCache :=
  match s.cache.find? (·.accountID = r.accountID) with
  | none => s.move i r .missed
  | some c =>
    if c.expiresAt ≤ now then { s.move i r .missed with cache := s.without r.accountID }
    else
      let s' := s.answer i r (.ok c.access)
      -- The refresh in the background is a request that nobody reads the answer of.
      if c.refreshAfter ≤ now ∧ c.refreshing = false then
        { s' with
          cache := { c with refreshing := true } :: s.without r.accountID
          requests := s'.requests ++ [⟨r.accountID, s.epoch r.accountID, .missed⟩] }
      else s'

def invalidateUserRepositoryAccess (s : AccessCache) (a : ℤ) : AccessCache :=
  { s with epoch := Function.update s.epoch a (s.epoch a + 1), cache := s.without a }

/-- The entry to evict is any one of the map. -/
def cacheUserRepositoryAccessIfCurrent (s : AccessCache) (a : ℤ) (epoch now victim : ℕ)
    (access : List RepositoryAccess) : AccessCache :=
  if s.epoch a ≠ epoch then s
  else
    let kept := if (s.cache.find? (·.accountID = a)).isNone ∧
        maxUserRepositoryAccessCacheItems ≤ s.cache.length then
      s.cache.eraseIdx (victim % s.cache.length) else s.without a
    { s with cache := ⟨a, access, now + userRepositoryAccessRefreshAfter,
        now + userRepositoryAccessCacheTTL, false⟩ :: kept }

def finishUserRepositoryAccessRefresh (s : AccessCache) (a : ℤ) (epoch now : ℕ) : AccessCache :=
  if s.epoch a ≠ epoch then s
  else
    match s.cache.find? (·.accountID = a) with
    | none => s
    | some c =>
      { s with cache := { c with
          refreshing := false
          refreshAfter := min (now + userRepositoryAccessRefreshRetry) c.expiresAt } ::
        s.without a }

/-- What the shared function does with the outcome of its load. -/
def settle (s : AccessCache) (l : Load) (now victim : ℕ) : LoadResult → AccessCache
  | .ok access => s.cacheUserRepositoryAccessIfCurrent l.accountID l.epoch now victim access
  | .error .rejected =>
    if s.epoch l.accountID ≠ l.epoch then s else s.invalidateUserRepositoryAccess l.accountID
  | .error _ => s.finishUserRepositoryAccessRefresh l.accountID l.epoch now

inductive Step where
  | userAuthorizedRepositoryAccess (a : ℤ)
  | refreshUserRepositoryAccess (a : ℤ)
  | lookup (i now : ℕ)
  | readEpoch (i : ℕ)
  | doChan (i : ℕ)
  | start (j : ℕ)
  | finish (j : ℕ) (result : LoadResult)
  | settle (j now victim : ℕ)
  | deliver (j : ℕ)
  | receive (i : ℕ)
  | check (i : ℕ)
  | cancel (i : ℕ)
  | invalidate (a : ℤ)

def onRequest (s : AccessCache) (i : ℕ) (r : AccessRequest) : Step → AccessStage → AccessCache
  | .lookup _ now, .called => s.cachedUserRepositoryAccessForRequest i r now
  | .readEpoch _, .missed => s.move i r (.keyed (s.epoch r.accountID))
  | .doChan _, .keyed e =>
    match s.loads.findIdx? fun l => l.accountID = r.accountID ∧ l.epoch = e ∧ l.running with
    | some j => s.move i r (.waiting e j)
    | none => { s.move i r (.waiting e s.loads.length) with
        loads := s.loads ++ [⟨r.accountID, e, .called⟩] }
  | .receive _, .waiting e j =>
    match s.loads[j]? with
    | some ⟨_, _, .done _ (.ok access)⟩ => s.move i r (.received e access)
    | some ⟨_, _, .done _ (.error err)⟩ => s.answer i r (.error err)
    | _ => s
  | .check _, .received e access =>
    if s.epoch r.accountID = e then s.answer i r (.ok access) else s.move i r .missed
  | .cancel _, .waiting _ _ => s.answer i r (.error .canceled)
  | _, _ => s

def onLoad (s : AccessCache) (j : ℕ) (l : Load) : Step → LoadStage → AccessCache
  | .start _, .called =>
    { s with loads := s.loads.set j { l with stage := .loading (s.epoch l.accountID) } }
  | .finish _ result, .loading n =>
    { s with loads := s.loads.set j { l with stage := .loaded n result } }
  | .settle _ now victim, .loaded n result =>
    { s.settle l now victim result with
      loads := s.loads.set j { l with stage := .settled n result } }
  | .deliver _, .settled n result =>
    { s with loads := s.loads.set j { l with stage := .done n result } }
  | _, _ => s

def step (s : AccessCache) (t : Step) : AccessCache :=
  match t with
  | .userAuthorizedRepositoryAccess a =>
    { s with requests := s.requests ++ [⟨a, s.epoch a, .called⟩] }
  | .refreshUserRepositoryAccess a =>
    { s with requests := s.requests ++ [⟨a, s.epoch a, .missed⟩] }
  | .invalidate a => s.invalidateUserRepositoryAccess a
  | .lookup i _ | .readEpoch i | .doChan i | .receive i | .check i | .cancel i =>
    match s.requests[i]? with
    | some r => s.onRequest i r t r.stage
    | none => s
  | .start j | .finish j _ | .settle j .. | .deliver j =>
    match s.loads[j]? with
    | some l => s.onLoad j l t l.stage
    | none => s

def run (s : AccessCache) (steps : List Step) : AccessCache := steps.foldl step s

/-! ### Answers -/

/-- The access list is what a load of the account gave that started in the epoch or later. -/
def Gives (loads : List Load) (a : ℤ) (access : List RepositoryAccess) (epoch : ℕ) : Prop :=
  ∃ (j : ℕ) (l : Load), loads[j]? = some l ∧ l.accountID = a ∧ l.result = some (.ok access) ∧
    ∃ n ∈ l.started, epoch ≤ n

/-- The loads go on, and others are begun. -/
def Later (loads loads' : List Load) : Prop :=
  ∀ (j : ℕ) (l : Load), loads[j]? = some l → ∃ l' : Load, loads'[j]? = some l' ∧
    l'.accountID = l.accountID ∧ l'.epoch = l.epoch ∧
    ∀ r, l.result = some r → l'.result = some r ∧ l'.started = l.started

theorem Later.refl (loads : List Load) : Later loads loads :=
  fun _ l h => ⟨l, h, rfl, rfl, fun _ hr => ⟨hr, rfl⟩⟩

theorem later_append (loads : List Load) (l : Load) : Later loads (loads ++ [l]) := by
  intro j k h
  have hj := (List.getElem?_eq_some_iff.mp h).1
  exact ⟨k, by rw [List.getElem?_append_left hj, h], rfl, rfl, fun _ hr => ⟨hr, rfl⟩⟩

variable {s s' : AccessCache} {loads loads' : List Load} {a : ℤ} {e i j : ℕ} {l : Load}
  {r : AccessRequest} {access : List RepositoryAccess}

theorem later_set (h : loads[j]? = some l) {l' : Load} (ha : l'.accountID = l.accountID)
    (he : l'.epoch = l.epoch)
    (hr : ∀ r, l.result = some r → l'.result = some r ∧ l'.started = l.started) :
    Later loads (loads.set j l') := by
  intro k m hk
  have hj := (List.getElem?_eq_some_iff.mp h).1
  by_cases hjk : j = k
  · subst hjk
    obtain rfl := Option.some.inj (h.symm.trans hk)
    exact ⟨l', List.getElem?_set_self hj, ha, he, hr⟩
  · exact ⟨m, by rw [List.getElem?_set_ne hjk, hk], rfl, rfl, fun _ hr => ⟨hr, rfl⟩⟩

theorem Gives.later (h : Gives loads a access e) (hl : Later loads loads') :
    Gives loads' a access e := by
  obtain ⟨j, l, hj, rfl, hr, hn⟩ := h
  obtain ⟨l', hj', ha, -, hkeep⟩ := hl j l hj
  obtain ⟨hr', hs⟩ := hkeep _ hr
  exact ⟨j, l', hj', ha, hr', hs ▸ hn⟩

/-- What is known of a request at its stage. -/
def Knows (s : AccessCache) (r : AccessRequest) : AccessStage → Prop
  | .keyed e => e ≤ s.epoch r.accountID
  | .waiting e j => ∃ l, s.loads[j]? = some l ∧ l.accountID = r.accountID ∧ l.epoch = e
  | .received e access => Gives s.loads r.accountID access e
  | .answered (.ok access) e => r.since ≤ e ∧ Gives s.loads r.accountID access e
  | _ => True

structure Inv (s : AccessCache) : Prop where
  /-- A load starts in the epoch that it is for, or later. -/
  started : ∀ l ∈ s.loads, l.epoch ≤ s.epoch l.accountID ∧ ∀ n ∈ l.started, l.epoch ≤ n
  cached : ∀ c ∈ s.cache, Gives s.loads c.accountID c.access (s.epoch c.accountID)
  since : ∀ r ∈ s.requests, r.since ≤ s.epoch r.accountID
  asked : ∀ r ∈ s.requests, s.Knows r r.stage
  size : s.cache.length ≤ maxUserRepositoryAccessCacheItems

theorem Knows.later {stage : AccessStage} (h : s.Knows r stage)
    (he : ∀ a, s.epoch a ≤ s'.epoch a) (hl : Later s.loads s'.loads) : s'.Knows r stage := by
  match stage, h with
  | .keyed e, h => exact Nat.le_trans h (he _)
  | .waiting e j, ⟨l, hj, ha, hepoch⟩ =>
    obtain ⟨l', hj', ha', hepoch', -⟩ := hl j l hj
    exact ⟨l', hj', ha'.trans ha, hepoch'.trans hepoch⟩
  | .received e access, h => exact Gives.later h hl
  | .answered (.ok access) e, h => exact ⟨h.1, h.2.later hl⟩
  | .answered (.error _) _, _ | .called, _ | .missed, _ => trivial

theorem Inv.setLoad (h : s.Inv) (hj : s.loads[j]? = some l) {l' : Load}
    (ha : l'.accountID = l.accountID) (he : l'.epoch = l.epoch)
    (hr : ∀ r, l.result = some r → l'.result = some r ∧ l'.started = l.started)
    (hn : ∀ n ∈ l'.started, l.epoch ≤ n) : Inv { s with loads := s.loads.set j l' } := by
  have hl := later_set hj ha he hr
  refine ⟨fun m hm => ?_, fun c hc => (h.cached c hc).later hl, h.since,
    fun r hr => (h.asked r hr).later (fun _ => Nat.le_refl _) hl, h.size⟩
  rcases List.mem_or_eq_of_mem_set hm with hm | rfl
  · exact h.started m hm
  · rw [ha, he]
    exact ⟨(h.started l (List.mem_of_getElem? hj)).1, hn⟩

theorem Inv.move (h : s.Inv) (hi : s.requests[i]? = some r) {stage : AccessStage}
    (hs : s.Knows r stage) : (s.move i r stage).Inv := by
  have hmem := List.mem_of_getElem? hi
  refine ⟨h.started, h.cached, fun q hq => ?_, fun q hq => ?_, h.size⟩ <;>
    rcases List.mem_or_eq_of_mem_set hq with hq | rfl
  · exact h.since q hq
  · exact h.since r hmem
  · exact h.asked q hq
  · exact hs

theorem Inv.add (h : s.Inv) (a : ℤ) {stage : AccessStage} (hs : stage = .called ∨ stage = .missed) :
    Inv { s with requests := s.requests ++ [⟨a, s.epoch a, stage⟩] } := by
  refine ⟨h.started, h.cached, fun q hq => ?_, fun q hq => ?_, h.size⟩ <;>
    rcases List.mem_append.mp hq with hq | hq
  · exact h.since q hq
  · rw [List.mem_singleton.mp hq]
  · exact h.asked q hq
  · rw [List.mem_singleton.mp hq]
    rcases hs with rfl | rfl <;> trivial

theorem Inv.keep (h : s.Inv) {cache : List CachedUserRepositoryAccess}
    (hc : ∀ c ∈ cache, Gives s.loads c.accountID c.access (s.epoch c.accountID))
    (hs : cache.length ≤ s.cache.length) : Inv { s with cache } :=
  ⟨h.started, hc, h.since, h.asked, hs.trans h.size⟩

theorem length_without_lt {c : CachedUserRepositoryAccess}
    (h : s.cache.find? (·.accountID = a) = some c) :
    c.accountID = a ∧ c ∈ s.cache ∧ (s.without a).length < s.cache.length := by
  have ha : c.accountID = a := by simpa using List.find?_some h
  have hmem := List.mem_of_find?_eq_some h
  exact ⟨ha, hmem, List.length_filter_lt_length_iff_exists.mpr ⟨c, hmem, by simp [ha]⟩⟩

theorem mem_without {c : CachedUserRepositoryAccess} (h : c ∈ s.without a) :
    c ∈ s.cache ∧ c.accountID ≠ a := by
  simpa [without] using h

/-- An entry is put in the place of the one of its account. -/
theorem Inv.replace (h : s.Inv) {c d : CachedUserRepositoryAccess}
    (hc : s.cache.find? (·.accountID = a) = some c) (ha : d.accountID = c.accountID)
    (hg : Gives s.loads c.accountID d.access (s.epoch c.accountID)) :
    Inv { s with cache := d :: s.without a } := by
  refine h.keep (fun e he => ?_) (length_without_lt hc).2.2
  rcases List.mem_cons.mp he with rfl | he
  · rwa [ha]
  · exact h.cached e (mem_without he).1

theorem Inv.invalidate (h : s.Inv) (a : ℤ) : (s.invalidateUserRepositoryAccess a).Inv := by
  have he : ∀ b, s.epoch b ≤ Function.update s.epoch a (s.epoch a + 1) b := by
    intro b
    rw [Function.update_apply]
    split
    · rename_i hb
      exact hb ▸ Nat.le_succ _
    · exact Nat.le_refl _
  refine ⟨fun l hl => ⟨(h.started l hl).1.trans (he _), (h.started l hl).2⟩, fun c hc => ?_,
    fun r hr => (h.since r hr).trans (he _), fun r hr => (h.asked r hr).later he (.refl _),
    (List.length_filter_le ..).trans h.size⟩
  obtain ⟨hmem, ha⟩ := mem_without hc
  have hsame : Function.update s.epoch a (s.epoch a + 1) c.accountID = s.epoch c.accountID :=
    Function.update_of_ne ha ..
  change Gives s.loads c.accountID c.access (Function.update s.epoch a (s.epoch a + 1) c.accountID)
  rw [hsame]
  exact h.cached c hmem

theorem Inv.cache (h : s.Inv) (hg : Gives s.loads a access e) (now victim : ℕ) :
    (s.cacheUserRepositoryAccessIfCurrent a e now victim access).Inv := by
  unfold cacheUserRepositoryAccessIfCurrent
  split
  · exact h
  · rename_i he
    rw [← not_not.mp he] at hg
    refine ⟨h.started, fun c hc => ?_, h.since, h.asked, ?_⟩
    · rcases List.mem_cons.mp hc with rfl | hc
      · exact hg
      · refine h.cached c ?_
        split at hc
        · exact List.mem_of_mem_eraseIdx hc
        · exact (mem_without hc).1
    · have hsize := h.size
      dsimp only
      rw [List.length_cons]
      split
      · rename_i hfull
        have hpos : 0 < s.cache.length := Nat.lt_of_lt_of_le (by decide) hfull.2
        rw [List.length_eraseIdx_of_lt (Nat.mod_lt _ hpos)]
        omega
      · rename_i hroom
        rcases hf : s.cache.find? (·.accountID = a) with _ | c
        · rw [hf] at hroom
          exact Nat.lt_of_le_of_lt (List.length_filter_le ..)
            (Nat.lt_of_not_le fun hfull => hroom ⟨rfl, hfull⟩)
        · exact (length_without_lt hf).2.2.trans_le hsize

theorem loads_settle (s : AccessCache) (l : Load) (now victim : ℕ) (result : LoadResult) :
    (s.settle l now victim result).loads = s.loads := by
  unfold AccessCache.settle cacheUserRepositoryAccessIfCurrent finishUserRepositoryAccessRefresh
  repeat' split
  all_goals rfl

theorem Inv.settle (h : s.Inv) {result : LoadResult} (hg : ∀ access, result = .ok access →
    Gives s.loads l.accountID access l.epoch) (now victim : ℕ) :
    (s.settle l now victim result).Inv := by
  have hfinish : (s.finishUserRepositoryAccessRefresh l.accountID l.epoch now).Inv := by
    unfold finishUserRepositoryAccessRefresh
    split
    · exact h
    · split
      · exact h
      · rename_i c hc
        exact h.replace hc rfl (h.cached c (length_without_lt hc).2.1)
  match result with
  | .ok access => exact h.cache (hg access rfl) now victim
  | .error .rejected =>
    change (if s.epoch l.accountID ≠ l.epoch then s
      else s.invalidateUserRepositoryAccess l.accountID).Inv
    split
    · exact h
    · exact h.invalidate _
  | .error .failed | .error .canceled => exact hfinish

theorem Inv.lookup (h : s.Inv) (hi : s.requests[i]? = some r) (now : ℕ) :
    (s.cachedUserRepositoryAccessForRequest i r now).Inv := by
  unfold cachedUserRepositoryAccessForRequest
  split
  · exact h.move hi trivial
  · rename_i c hc
    obtain ⟨ha, hmem, hlt⟩ := length_without_lt hc
    have hgives := h.cached c hmem
    split
    · have hmiss : (s.move i r .missed).Inv := h.move hi trivial
      exact hmiss.keep (fun d hd => h.cached d (mem_without hd).1) hlt.le
    · have hanswer : (s.answer i r (.ok c.access)).Inv :=
        h.move hi ⟨h.since r (List.mem_of_getElem? hi), ha ▸ hgives⟩
      dsimp only
      split
      · have hmark := hanswer.replace (d := { c with refreshing := true }) hc rfl hgives
        exact hmark.add r.accountID (.inr rfl)
      · exact hanswer

theorem Inv.onRequest (h : s.Inv) (hi : s.requests[i]? = some r) (t : Step) :
    (s.onRequest i r t r.stage).Inv := by
  have hasked := h.asked r (List.mem_of_getElem? hi)
  unfold AccessCache.onRequest
  split
  · exact h.lookup hi _
  · exact h.move hi (Nat.le_refl _)
  · rename_i e hstage
    rw [hstage] at hasked
    split
    · rename_i j hj
      obtain ⟨hlt, hl, -⟩ := List.findIdx?_eq_some_iff_getElem.mp hj
      simp only [decide_eq_true_eq] at hl
      exact h.move hi ⟨_, List.getElem?_eq_getElem hlt, hl.1, hl.2.1⟩
    · have hl := later_append s.loads ⟨r.accountID, e, .called⟩
      have hloads : Inv { s with loads := s.loads ++ [⟨r.accountID, e, .called⟩] } := by
        refine ⟨fun l hm => ?_, fun c hc => (h.cached c hc).later hl, h.since,
          fun q hq => (h.asked q hq).later (fun _ => Nat.le_refl _) hl, h.size⟩
        rcases List.mem_append.mp hm with hm | hm
        · exact h.started l hm
        · obtain rfl := List.mem_singleton.mp hm
          exact ⟨hasked, fun n hn => by cases hn⟩
      exact hloads.move hi ⟨_, List.getElem?_concat_length, rfl, rfl⟩
  · rename_i e j hstage
    rw [hstage] at hasked
    obtain ⟨l, hj, ha, he⟩ := hasked
    split
    · rename_i n access hdone
      obtain rfl := Option.some.inj (hj.symm.trans hdone)
      have hn := (h.started _ (List.mem_of_getElem? hj)).2 n rfl
      exact h.move hi ⟨j, _, hj, ha, rfl, n, rfl, he ▸ hn⟩
    · exact h.move hi trivial
    · exact h
  · rename_i e access hstage
    rw [hstage] at hasked
    split
    · rename_i he
      exact h.move hi ⟨h.since r (List.mem_of_getElem? hi), he ▸ hasked⟩
    · exact h.move hi trivial
  · exact h.move hi trivial
  · exact h

theorem Inv.onLoad (h : s.Inv) (hj : s.loads[j]? = some l) (t : Step) :
    (s.onLoad j l t l.stage).Inv := by
  obtain ⟨hepoch, hstarted⟩ := h.started l (List.mem_of_getElem? hj)
  obtain ⟨a, e, stage⟩ := l
  unfold AccessCache.onLoad
  split
  · rename_i hstage
    subst hstage
    exact h.setLoad hj rfl rfl (fun _ hr => by cases hr) fun n hn => Option.some.inj hn ▸ hepoch
  · rename_i n result hstage
    subst hstage
    exact h.setLoad hj rfl rfl (fun _ hr => by cases hr) hstarted
  · rename_i now victim n result hstage
    subst hstage
    have hs := h.settle (l := ⟨a, e, .loaded n result⟩)
      (fun access hr => ⟨j, _, hj, rfl, congrArg some hr, n, rfl, hstarted n rfl⟩) now victim
    have hj' := hj
    rw [← loads_settle s ⟨a, e, .loaded n result⟩ now victim result] at hj' ⊢
    exact hs.setLoad hj' rfl rfl (fun _ hr => ⟨hr, rfl⟩) hstarted
  · rename_i n result hstage
    subst hstage
    exact h.setLoad hj rfl rfl (fun _ hr => ⟨hr, rfl⟩) hstarted
  · exact h

theorem inv_step (h : s.Inv) (t : Step) : (s.step t).Inv := by
  unfold step
  split
  · exact h.add _ (.inl rfl)
  · exact h.add _ (.inr rfl)
  · exact h.invalidate _
  all_goals
    split
    · rename_i hfound
      first | exact h.onRequest hfound _ | exact h.onLoad hfound _
    · exact h

theorem inv_run (h : s.Inv) (steps : List Step) : (s.run steps).Inv := by
  induction steps generalizing s with
  | nil => exact h
  | cons t steps ih => exact ih (inv_step h t)

/-- Whatever the order of requests, refreshes, loads, evictions and invalidations: an answer is
what a load gave that started in the epoch in which it is given, which is not before the epoch
in which the request began; so is an entry of the cache in the current epoch; and the cache
stays within its size. -/
theorem access_answers_fresh (steps : List Step) :
    (∀ r ∈ (run {} steps).requests, ∀ access epoch, r.stage = .answered (.ok access) epoch →
      r.since ≤ epoch ∧ Gives (run {} steps).loads r.accountID access epoch) ∧
    (∀ c ∈ (run {} steps).cache, Gives (run {} steps).loads c.accountID c.access
      ((run {} steps).epoch c.accountID)) ∧
    (run {} steps).cache.length ≤ maxUserRepositoryAccessCacheItems := by
  have h : (run {} steps).Inv := inv_run ⟨by simp, by simp, by simp, by simp, by simp⟩ steps
  refine ⟨fun r hr access epoch hs => ?_, h.cached, h.size⟩
  have hasked := h.asked r hr
  rw [hs] at hasked
  exact hasked

/-- The account is invalidated while a request waits for a load: it is loaded again. -/
theorem access_answers_fresh_again :
    let s := run {} [.userAuthorizedRepositoryAccess 1, .lookup 0 5, .readEpoch 0, .doChan 0,
      .start 0, .finish 0 (.ok []), .invalidate 1, .settle 0 6 0, .deliver 0, .receive 0, .check 0,
      .readEpoch 0, .doChan 0, .start 1, .finish 1 (.ok [⟨3, ["o/r"]⟩]), .settle 1 8 0, .deliver 1,
      .receive 0, .check 0]
    s.requests = [⟨1, 0, .answered (.ok [⟨3, ["o/r"]⟩]) 1⟩] ∧
      Gives s.loads 1 [⟨3, ["o/r"]⟩] 1 :=
  ⟨rfl, ((access_answers_fresh _).1 ⟨1, 0, .answered (.ok [⟨3, ["o/r"]⟩]) 1⟩
    (List.mem_singleton_self _) _ _ rfl).2⟩

end AccessCache

end CiRunner.Users
