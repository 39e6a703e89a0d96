import CiRunner.Admin.Requests

/-! Following the cursors of the list of runner requests, while requests are created and change.
Each page is read from the requests at its time. The walk has every request that
matches all the time, once and in the order of the list, as long as the server reads its
own cursors: it refuses those that have become too long by the id in them. -/

namespace CiRunner.Admin

open Tables Text
open CiRunner.State (Time Lowering)

section Walk

variable (reader : CursorReader) (fold : Lowering) (contents : Nat → Contents)
  (query : RunnerQuery)

/-- Follow the cursors of the responses, so many at most, from the page with the given number on. -/
def followPages : Nat → Nat → String → Option (List RequestRow)
  | 0, _, _ => none
  | n + 1, i, raw =>
    match handleListRunners reader fold (contents i) { query with cursor := raw } with
    | .error _ => none
    | .ok page =>
      match page.nextCursor with
      | none => some page.items
      | some next => (followPages n (i + 1) next).map (page.items ++ ·)

/-- The pages by the keys of their cursors. -/
def readPages (matching : RequestRow → Bool) (limit : Nat) (i : Nat)
    (c : Option (Timeᵒᵈ ×ₗ String)) : Option (List RequestRow × Bool) :=
  some ((contents i).keyPage matching limit c)

/-- The cursor behind a request can be read: it is not too long. -/
def Readable (filterKey : String) (r : RequestRow) : Prop :=
  (encodeAdminRunnerRequestCursor
    (cursorOf reader filterKey r.createdAt r.id)).utf8ByteSize ≤ 2048

variable {reader fold contents query} {options : RunnerRequestListOptions}
  {matching : RequestRow → Bool} {n i : Nat} {raw : String} {c : Option (Timeᵒᵈ ×ₗ String)}

theorem keyset_readPages (contents : Nat → Contents) (matching : RequestRow → Bool) (limit : Nat) :
    Keyset RequestRow.key (readPages contents matching limit) (fun r => some r.key)
      (fun i => (contents i).requests.rows) (fun _ => matching)
      (fun c k => c.all fun k' => k' < k) limit where
  nodup i := nodup_key (contents i)
  read_eq _ _ := rfl
  behind_cursor _ _ := rfl
  behind_of_lt c k k' h hlt := by
    cases c with
    | none => rfl
    | some k₀ => exact decide_eq_true ((of_decide_eq_true h).trans hlt)

theorem exists_getLast {contents : Contents} {limit : Nat} (hlimit : 0 < limit)
    {items : List RequestRow} (h : contents.keyPage matching limit c = (items, true)) :
    ∃ v ∈ contents.requests.rows, items.getLast? = some v := by
  rw [Contents.keyPage, page_eq, Prod.mk.injEq, decide_eq_true_eq] at h
  obtain ⟨rfl, hmore⟩ := h
  have hne : (ordered RequestRow.key contents.requests.rows fun r => matching r &&
      c.all fun k => k < r.key).take limit ≠ [] := by
    rw [Ne, List.take_eq_nil_iff]
    rintro (hzero | hnil)
    · omega
    · exact absurd hmore (by rw [hnil]; exact Nat.not_lt_zero _)
  obtain ⟨v, hv⟩ := Option.isSome_iff_exists.mp (List.getLast?_isSome.mpr hne)
  exact ⟨v, (mem_ordered.mp (List.mem_of_mem_take (List.mem_of_getLast? hv))).1, hv⟩

/-- Following the cursors is walking over the pages, as long as the server reads them. -/
theorem followPages_eq_walk (hquery : readRunnerQuery fold query = .ok options)
    (hmatching : filterRunnerRequestList fold options = some matching)
    (hreadable : ∀ r ∈ walkEnds (readPages contents matching options.limit)
      (fun r => some r.key) n i c, Readable reader (options.filterKey reader) r)
    (hraw : StandsFor reader (options.filterKey reader) raw c) :
    followPages reader fold contents query n i raw =
      walk (readPages contents matching options.limit) (fun r => some r.key) n i c := by
  induction n generalizing i raw c with
  | zero => rfl
  | succ n ih =>
    rw [followPages, walk, handleListRunners_eq hquery hmatching hraw]
    rw [walkEnds] at hreadable
    simp only [readPages] at hreadable ⊢
    cases hpage : (contents i).keyPage matching options.limit c with
    | mk items more =>
      rw [hpage] at hreadable
      cases more with
      | false => rfl
      | true =>
        simp only [if_true] at hreadable ⊢
        obtain ⟨v, hv, hlast⟩ := exists_getLast (exists_matching hquery).2 hpage
        rw [hlast] at hreadable ⊢
        simp only [List.forall_mem_cons, Option.map_some] at hreadable ⊢
        refine congrArg (Option.map _) (ih hreadable.2 ?_)
        exact ⟨v.createdAt, v.id, rfl, (contents i).dated v hv, (contents i).named v hv, rfl,
          hreadable.1⟩

/-! ### Requests that come and change -/

/-- Between the pages requests are created later than those that were there at the first page;
the others may change or be removed, but keep the time and the id. -/
def OnlyLater (contents : Nat → Contents) : Prop :=
  ∀ j, ∀ r ∈ (contents j).requests.rows,
    (∃ r₀ ∈ (contents 0).requests.rows, r₀.key = r.key) ∨
      ∀ r₀ ∈ (contents 0).requests.rows, r₀.createdAt < r.createdAt

theorem exists_key_of_behind (hlater : OnlyLater contents) {v r : RequestRow} {j : Nat}
    (hv : v ∈ (contents 0).requests.rows) (hr : r ∈ (contents j).requests.rows)
    (hbehind : v.key < r.key) : ∃ r₀ ∈ (contents 0).requests.rows, r₀.key = r.key := by
  refine (hlater j r hr).resolve_right fun hall => ?_
  have hlt := hall v hv
  rw [RequestRow.key, RequestRow.key, State.queueKey, State.queueKey,
    Prod.Lex.toLex_lt_toLex] at hbehind
  simp only [OrderDual.toDual_lt_toDual, OrderDual.toDual_inj] at hbehind
  rcases hbehind with h | ⟨h, -⟩
  · exact absurd hlt (Nat.lt_asymm h)
  · exact absurd (h ▸ hlt) (Nat.lt_irrefl _)

/-- The walk ends: every page but the last passes a request that was there at the first. -/
theorem exists_walk_readPages (matching : RequestRow → Bool) (hlater : OnlyLater contents)
    {limit : Nat} (hlimit : 0 < limit)
    (hn : (contents 0).requests.rows.length < n) :
    ∃ l, walk (readPages contents matching limit) (fun r => some r.key) n 0 none = some l := by
  cases n with
  | zero => exact absurd hn (Nat.not_lt_zero _)
  | succ n =>
    rw [walk]
    simp only [readPages]
    cases hpage : (contents 0).keyPage matching limit none with
    | mk items more =>
      cases more with
      | false => exact ⟨_, rfl⟩
      | true =>
        obtain ⟨v, hv, hlast⟩ := exists_getLast hlimit hpage
        have hfewer : (((contents 0).requests.rows.map RequestRow.key).filter fun k =>
            (some v.key).all fun k' => k' < k).length < n := by
          refine lt_of_lt_of_le (List.length_filter_lt_length_iff_exists.mpr
            ⟨v.key, List.mem_map_of_mem hv, by simp⟩) ?_
          rw [List.length_map]
          exact Nat.lt_succ_iff.mp hn
        obtain ⟨l, hl⟩ := (keyset_readPages contents matching limit).exists_walk (i := 1) hlimit
          ((contents 0).requests.rows.map RequestRow.key) (fun j _ r hr _ hbehind => by
            obtain ⟨r₀, hr₀, hkey⟩ :=
              exists_key_of_behind hlater hv hr (of_decide_eq_true hbehind)
            exact hkey ▸ List.mem_map_of_mem hr₀) hfewer
        refine ⟨items ++ l, ?_⟩
        dsimp only
        rw [hlast]
        exact congrArg (Option.map _) hl

theorem exists_key_of_mem_walk (hlater : OnlyLater contents) {limit : Nat} {l : List RequestRow}
    (hl : walk (readPages contents matching limit) (fun r => some r.key) n 0 none = some l)
    {r : RequestRow} (hr : r ∈ l) : ∃ r₀ ∈ (contents 0).requests.rows, r₀.key = r.key := by
  cases n with
  | zero => cases hl
  | succ n =>
    have hkeyset := keyset_readPages contents matching limit
    obtain ⟨all, rfl, ⟨-, rfl⟩ | ⟨v, l', hv, hl', rfl⟩⟩ := hkeyset.walk_cases hl
    · exact ⟨r, (mem_ordered.mp hr).1, rfl⟩
    · rcases List.mem_append.mp hr with hr | hr
      · exact ⟨r, (mem_ordered.mp (List.mem_of_mem_take hr)).1, rfl⟩
      · obtain ⟨hbehind, j, -, hmem, -⟩ := (hkeyset.sorted_walk hl').2 r hr
        have hv := (mem_ordered.mp (List.mem_of_mem_take (List.mem_of_getLast? hv))).1
        exact exists_key_of_behind hlater hv hmem (of_decide_eq_true hbehind)

/-- No id comes twice in a walk. -/
theorem nodup_walk (hlater : OnlyLater contents) {limit : Nat} {l : List RequestRow}
    (hl : walk (readPages contents matching limit) (fun r => some r.key) n 0 none = some l) :
    (l.map RequestRow.requestID).Nodup := by
  have hsorted := ((keyset_readPages contents matching limit).sorted_walk hl).1
  rw [List.pairwise_map] at hsorted
  rw [List.Nodup, List.pairwise_map]
  refine hsorted.imp_of_mem fun {r r'} hr hr' hlt heq => ?_
  obtain ⟨r₀, hr₀, hkey⟩ := exists_key_of_mem_walk hlater hl hr
  obtain ⟨r₁, hr₁, hkey'⟩ := exists_key_of_mem_walk hlater hl hr'
  have hid : ∀ {a b : RequestRow}, a.key = b.key → a.requestID = b.requestID :=
    fun h => congrArg (fun k => (ofLex k).2) h
  have hsame : r₀ = r₁ := by
    have hfind := Table.find_of_mem hr₀
    rw [(hid hkey).trans (heq.trans (hid hkey').symm), Table.find_of_mem hr₁] at hfind
    exact (Option.some.inj hfind).symm
  rw [← hkey, ← hkey', hsame] at hlt
  exact lt_irrefl _ hlt

end Walk

/-! ### Cursors that come back -/

section Cursors

variable {reader : CursorReader} {fold : Lowering} {contents : Contents} {query : RunnerQuery}
  {options : RunnerRequestListOptions} {page : AdminRunnerRequestPage} {next : String}

/-- The cursor of a response is that of one of the requests. -/
theorem exists_of_nextCursor (hquery : readRunnerQuery fold query = .ok options)
    (hpage : handleListRunners reader fold contents query = .ok page)
    (hnext : page.nextCursor = some next) : ∃ r ∈ contents.requests.rows,
      next = encodeAdminRunnerRequestCursor
        (cursorOf reader (options.filterKey reader) r.createdAt r.id) := by
  rw [handleListRunners, hquery] at hpage
  simp only [bind, Except.bind] at hpage
  split at hpage
  · cases hpage
  · rename_i after hafter
    split at hpage
    · cases hpage
    · rename_i listed hlisted
      obtain ⟨states, more⟩ := listed
      cases hpage
      dsimp only at hnext
      split at hnext
      · obtain ⟨r, hr, rfl⟩ := Option.map_eq_some_iff.mp hnext
        refine ⟨r, ?_, rfl⟩
        rw [Contents.listStatesCursor] at hlisted
        split at hlisted
        · cases hlisted
        · split at hlisted
          · cases hlisted
          · simp only [page_eq] at hlisted
            cases hlisted
            exact (mem_ordered.mp (List.mem_of_mem_take (List.mem_of_getLast? hr))).1
      · cases hnext

/-- The text of no part of the filter has the separator. -/
def RunnerRequestListOptions.Plain (options : RunnerRequestListOptions) : Prop :=
  ∀ s ∈ [options.displayStatus, options.repositoryFullName, options.profileName],
    '\x00' ∉ s.toList

def RunnerRequestListOptions.SameFilter (options options' : RunnerRequestListOptions) : Prop :=
  options.displayStatus = options'.displayStatus ∧
    options.repositoryFullName = options'.repositoryFullName ∧
    options.profileName = options'.profileName

theorem handleListRunners_other {contents' : Contents} {query' : RunnerQuery}
    {options' : RunnerRequestListOptions} (hquery : readRunnerQuery fold query' = .ok options')
    {queuedAt : Time} {id filterKey : String} (hid : id ≠ "") (htime : queuedAt ≠ 0)
    (hkey : filterKey ≠ options'.filterKey reader)
    (hfits : (encodeAdminRunnerRequestCursor
      (cursorOf reader filterKey queuedAt id)).utf8ByteSize ≤ 2048) :
    handleListRunners reader fold contents' { query' with
      cursor := encodeAdminRunnerRequestCursor (cursorOf reader filterKey queuedAt id) } =
      .error invalidCursor := by
  have hsame : readRunnerQuery fold { query' with
      cursor := encodeAdminRunnerRequestCursor (cursorOf reader filterKey queuedAt id) } =
        .ok options' := hquery
  rw [handleListRunners, hsame]
  simp only [bind, Except.bind]
  rw [trimSpace_encode, readRunnerCursor, if_neg (encode_ne_empty hid),
    decode_cursorOf hid htime hfits, if_neg hkey]
  rfl

theorem handleListRunners_tooLong (contents : Contents)
    (hquery : readRunnerQuery fold query = .ok options) {cursor : AdminRunnerRequestCursor}
    (hid : cursor.id ≠ "") (hlong : 2048 < (encodeAdminRunnerRequestCursor cursor).utf8ByteSize) :
    handleListRunners reader fold contents { query with
      cursor := encodeAdminRunnerRequestCursor cursor } = .error tooLong := by
  have hsame : readRunnerQuery fold { query with
      cursor := encodeAdminRunnerRequestCursor cursor } = .ok options := hquery
  rw [handleListRunners, hsame]
  simp only [bind, Except.bind]
  rw [trimSpace_encode, readRunnerCursor, if_neg (encode_ne_empty hid),
    decodeAdminRunnerRequestCursor, if_pos hlong]
  rfl

end Cursors

/-- Following the cursors is exact as long as no page ends with a request whose cursor is too
long: it ends, and gives the requests that match all the time, each once and newest first. A
cursor that is not too long is accepted with the filter that it was made for and with no
other. -/
theorem runner_pages_exact (reader : CursorReader) (fold : Lowering) {query : RunnerQuery}
    {options : RunnerRequestListOptions} (hquery : readRunnerQuery fold query = .ok options) :
    ∃ matching, filterRunnerRequestList fold options = some matching ∧
      (∀ contents : Nat → Contents, OnlyLater contents →
        ∀ n > (contents 0).requests.rows.length,
        (∀ r ∈ walkEnds (readPages contents matching options.limit) (fun r => some r.key) n 0 none,
          Readable reader (options.filterKey reader) r) →
        ∃ l, followPages reader fold contents query n 0 "" = some l ∧
          (l.map RequestRow.key).Pairwise (· < ·) ∧ (l.map RequestRow.requestID).Nodup ∧
          (∀ r ∈ l, ∃ j, r ∈ (contents j).requests.rows ∧ matching r = true) ∧
          ∀ k, (∀ j, ∃ r ∈ (contents j).requests.rows, r.key = k ∧ matching r = true) →
            ∃ r ∈ l, r.key = k) ∧
      ∀ contents raw page next,
        handleListRunners reader fold contents { query with cursor := raw } = .ok page →
        page.nextCursor = some next → next.utf8ByteSize ≤ 2048 →
        (∀ contents', ∃ page',
          handleListRunners reader fold contents' { query with cursor := next } = .ok page') ∧
        ∀ query' options', readRunnerQuery fold query' = .ok options' →
          options.Plain → options'.Plain → ¬ options.SameFilter options' → ∀ contents',
            handleListRunners reader fold contents' { query' with cursor := next } =
              .error invalidCursor := by
  obtain ⟨⟨matching, hmatching⟩, hlimit⟩ := exists_matching hquery
  refine ⟨matching, hmatching, ?_, ?_⟩
  · intro contents hlater n hn hreadable
    obtain ⟨l, hl⟩ := exists_walk_readPages matching hlater hlimit hn
    have hkeyset := keyset_readPages contents matching options.limit
    obtain ⟨hsorted, hfrom⟩ := hkeyset.sorted_walk hl
    refine ⟨l, ?_, hsorted, nodup_walk hlater hl, ?_, fun k hk => ?_⟩
    · rw [followPages_eq_walk hquery hmatching hreadable (show "" = "" from rfl), hl]
    · intro r hr
      obtain ⟨-, j, -, hmem, hp⟩ := hfrom r hr
      exact ⟨j, hmem, hp⟩
    · exact hkeyset.exists_mem_walk hl rfl fun j _ => hk j
  · intro contents raw page next hpage hnext hfits
    have hsame : readRunnerQuery fold { query with cursor := raw } = .ok options := hquery
    obtain ⟨r, hr, rfl⟩ := exists_of_nextCursor hsame hpage hnext
    have hid := contents.named r hr
    have htime := contents.dated r hr
    refine ⟨fun contents' => ⟨_, handleListRunners_eq hquery hmatching
      (c := some r.key) ⟨r.createdAt, r.id, rfl, htime, hid, rfl, hfits⟩⟩, ?_⟩
    intro query' options' hquery' hplain hplain' hne contents'
    refine handleListRunners_other hquery' hid htime (fun heq => hne ?_) hfits
    exact filterKey_injective reader heq hplain hplain'

/-- Two requests, the one with the given id being newer. -/
def twoRequests (id : String) (h : id ≠ "") (hne : id ≠ "b") : Contents where
  requests :=
    { rows := [{ id := id, createdAt := 2 }, { id := "b", createdAt := 1 }]
      nodup := by simp [RequestRow.requestID, hne] }
  named := by simp [h]
  dated := by simp

theorem onePerPage_query : readRunnerQuery .ascii { limit := "1" } = .ok ⟨"", "", "", 1⟩ := rfl

theorem onePerPage_matching :
    filterRunnerRequestList .ascii ⟨"", "", "", 1⟩ = some fun _ => true := rfl

/-- Two requests on pages of one. -/
theorem runner_pages_exact_two :
    (followPages plainReader .ascii (fun _ => twoRequests "a" (by decide) (by decide))
      { limit := "1" } 3 0 "").map (·.map RequestRow.requestID) = some ["a", "b"] ∧
    ∃ l, followPages plainReader .ascii (fun _ => twoRequests "a" (by decide) (by decide))
      { limit := "1" } 3 0 "" = some l ∧ (l.map RequestRow.key).Pairwise (· < ·) := by
  refine ⟨by decide +kernel, ?_⟩
  obtain ⟨matching, hmatching, hwalk, -⟩ := runner_pages_exact plainReader .ascii onePerPage_query
  obtain rfl := Option.some.inj (hmatching.symm.trans onePerPage_matching)
  obtain ⟨l, hl, hsorted, -⟩ := hwalk (fun _ => twoRequests "a" (by decide) (by decide))
    (fun _ r hr => .inl ⟨r, hr, rfl⟩) 3 (by decide) (by unfold Readable; decide +kernel)
  exact ⟨l, hl, hsorted⟩

/-- The server does not take back the cursor behind a request with a long id. -/
theorem handleListRunners_long {id : String} (hempty : id ≠ "") (hother : id ≠ "b")
    (hlong : 2048 < id.toList.length) :
    ∃ page next, handleListRunners plainReader .ascii (twoRequests id hempty hother)
        { limit := "1" } = .ok page ∧
      page.items.map RequestRow.requestID = [id] ∧ page.nextCursor = some next ∧
      handleListRunners plainReader .ascii (twoRequests id hempty hother)
        { limit := "1", cursor := next } = .error tooLong := by
  have hpage : (twoRequests id hempty hother).keyPage (fun _ => true) 1 none =
      ([{ id := id, createdAt := 2 }], true) := by
    have hle : ({ id := id, createdAt := 2 } : RequestRow).key ≤
        ({ id := "b", createdAt := 1 } : RequestRow).key :=
      Prod.Lex.toLex_le_toLex.mpr (.inl (OrderDual.toDual_lt_toDual.mpr Nat.one_lt_two))
    simp [Contents.keyPage, page_eq, ordered, twoRequests, hle]
  have hfirst : handleListRunners plainReader .ascii (twoRequests id hempty hother)
      { limit := "1" } = _ :=
    handleListRunners_eq onePerPage_query onePerPage_matching (show StandsFor _ _ "" none from rfl)
  rw [hpage] at hfirst
  refine ⟨_, encodeAdminRunnerRequestCursor (cursorOf plainReader
    (RunnerRequestListOptions.filterKey ⟨"", "", "", 1⟩ plainReader) 2 id), hfirst, rfl, rfl, ?_⟩
  have hsize := length_id_le (cursorOf plainReader
    (RunnerRequestListOptions.filterKey ⟨"", "", "", 1⟩ plainReader) 2 id)
  exact handleListRunners_tooLong _ onePerPage_query hempty (lt_of_lt_of_le hlong hsize)

/-- Behind a request with a long id the list cannot be followed: the server refuses the cursor that
it has given, and the request after it is never listed. -/
theorem runner_pages_stuck :
    ∃ (contents : Contents) (page : AdminRunnerRequestPage) (next : String),
      contents.requests.rows.map RequestRow.requestID = [longID 2049, "b"] ∧
      handleListRunners plainReader .ascii contents { limit := "1" } = .ok page ∧
      page.items.map RequestRow.requestID = [longID 2049] ∧ page.nextCursor = some next ∧
      handleListRunners plainReader .ascii contents { limit := "1", cursor := next } =
        .error tooLong ∧
      ∀ n, followPages plainReader .ascii (fun _ => contents) { limit := "1" } n 0 "" = none := by
  have hlength := length_longID 2049
  have hempty : longID 2049 ≠ "" := fun h => by simp [h] at hlength
  have hother : longID 2049 ≠ "b" := fun h => by simp [h] at hlength
  have hlong : 2048 < (longID 2049).toList.length := by omega
  generalize longID 2049 = id at *
  obtain ⟨page, next, hfirst, hitems, hnext, hrefused⟩ := handleListRunners_long hempty hother hlong
  refine ⟨twoRequests id hempty hother, page, next, rfl, hfirst, hitems, hnext, hrefused, ?_⟩
  intro n
  cases n with
  | zero => rfl
  | succ n =>
    rw [followPages, hfirst]
    dsimp only
    rw [hnext]
    cases n with
    | zero => rfl
    | succ n =>
      dsimp only
      rw [followPages, hrefused]
      rfl

end CiRunner.Admin
