import Mathlib.Data.List.Induction
import CiRunner.Tables.Keyed

/-! Transactions on a keyed table. What a transaction writes is seen by itself only until it
commits, and it locks the rows that it writes, and others that it asks for, until it
ends; a statement that needs a row that another transaction has locked has to wait. A
transaction may also add entries to a log, which become part of it at the commit. -/

namespace CiRunner.Tables

variable {K V A : Type} [DecidableEq K] {key : V → K}

/-! ### Writes -/

/-- A row is saved under its key, or the row with a key is deleted. -/
inductive Write (key : V → K) where
  | put (v : V)
  | delete (k : K)

namespace Write

def row : Write key → K
  | .put v => key v
  | .delete k => k

def result : Write key → Option V
  | .put v => some v
  | .delete _ => none

def apply (t : Table key) : Write key → Table key
  | .put v => (t.remove fun u => key u = key v).insert v
  | .delete k => t.remove fun u => key u = k

theorem find_apply (t : Table key) (w : Write key) (k : K) :
    (w.apply t).find k = if w.row = k then w.result else t.find k := by
  have hremove : ∀ l : K, (t.remove fun u => key u = l).find k =
      if l = k then none else t.find k := by
    intro l
    rw [Table.find_remove]
    rcases hf : t.find k with _ | v
    · simp
    · have hk : key v = k := Table.key_of_find hf
      by_cases hl : l = k
      · simp [hk, hl]
      · simp [hk, hl, Ne.symm hl]
  cases w with
  | put v =>
    simp only [apply, row, result, Table.find_insert, hremove]
    split <;> simp [*]
  | delete l => exact hremove l

def last (ws : List (Write key)) (k : K) : Option (Option V) :=
  (ws.reverse.find? fun w => w.row = k).map result

theorem last_append (ws : List (Write key)) (w : Write key) (k : K) :
    last (ws ++ [w]) k = if w.row = k then some w.result else last ws k := by
  simp only [last, List.reverse_append, List.reverse_singleton, List.singleton_append,
    List.find?_cons]
  by_cases h : w.row = k <;> simp [h]

theorem last_eq_none {ws : List (Write key)} {k : K} (h : ∀ w ∈ ws, w.row ≠ k) :
    last ws k = none := by
  simp only [last, Option.map_eq_none_iff, List.find?_eq_none, List.mem_reverse]
  intro w hw
  simpa using h w hw

theorem find_foldl (t : Table key) (ws : List (Write key)) (k : K) :
    (ws.foldl apply t).find k = (last ws k).getD (t.find k) := by
  induction ws using List.reverseRecOn with
  | nil => rfl
  | append_singleton ws w ih =>
    rw [List.foldl_append, List.foldl_cons, List.foldl_nil, find_apply, last_append, ih]
    split <;> rfl

theorem find_deletes (t : Table key) (keys : List K) (k : K) :
    ((keys.map (@Write.delete K V key)).foldl apply t).find k =
      if k ∈ keys then none else t.find k := by
  induction keys generalizing t with
  | nil => simp
  | cons l keys ih =>
    rw [List.map_cons, List.foldl_cons, ih, find_apply]
    by_cases hk : k ∈ keys
    · simp [hk]
    · by_cases hl : l = k
      · simp [row, result, hl]
      · simp [row, hk, hl, Ne.symm hl]

end Write

/-! ### The database -/

/-- The rows and the log that are committed, and of each open transaction its writes, its entries
of the log and its locks. -/
structure Database (key : V → K) (A : Type) where
  rows : Table key := .empty
  log : List A := []
  writes : ℕ → List (Write key) := fun _ => []
  entries : ℕ → List A := fun _ => []
  locks : K → Option ℕ := fun _ => none

namespace Database

/-- The table as a transaction sees it. -/
def view (db : Database key A) (i : ℕ) : Table key := (db.writes i).foldl Write.apply db.rows

/-- No other transaction has locked the row. -/
def free (db : Database key A) (i : ℕ) (k : K) : Bool :=
  db.locks k = none || db.locks k = some i

def lock (db : Database key A) (i : ℕ) (k : K) : Database key A :=
  { db with locks := Function.update db.locks k (some i) }

/-- A statement of a transaction writes a row. -/
def write (db : Database key A) (i : ℕ) (w : Write key) : Database key A :=
  { db.lock i w.row with writes := Function.update db.writes i (db.writes i ++ [w]) }

/-- A statement of a transaction writes several rows. -/
def writeAll (db : Database key A) (i : ℕ) (ws : List (Write key)) : Database key A :=
  ws.foldl (fun db w => db.write i w) db

/-- A transaction ends without a trace. -/
def rollback (db : Database key A) (i : ℕ) : Database key A :=
  { db with
    writes := Function.update db.writes i []
    entries := Function.update db.entries i []
    locks := fun k => if db.locks k = some i then none else db.locks k }

def commit (db : Database key A) (i : ℕ) : Database key A :=
  { db.rollback i with rows := db.view i, log := db.log ++ db.entries i }

/-- All transactions end without a trace. -/
def abort (db : Database key A) : Database key A := { rows := db.rows, log := db.log }

variable {db : Database key A} {i j : ℕ} {k : K} {w : Write key}

theorem find_view (db : Database key A) (i : ℕ) (k : K) :
    (db.view i).find k = (Write.last (db.writes i) k).getD (db.rows.find k) :=
  Write.find_foldl db.rows (db.writes i) k

theorem find_view_singleton (h : db.writes i = [w]) (k : K) :
    (db.view i).find k = if w.row = k then w.result else db.rows.find k := by
  rw [view, h]
  exact Write.find_apply db.rows w k

theorem find_view_append {ws : List (Write key)} (h : db.writes i = ws ++ [w]) (k : K) :
    (db.view i).find k = if w.row = k then w.result else (ws.foldl Write.apply db.rows).find k := by
  rw [view, h, List.foldl_append]
  exact Write.find_apply _ w k

theorem view_of_nil (h : db.writes i = []) : db.view i = db.rows := by
  rw [view, h, List.foldl_nil]

omit [DecidableEq K] in
theorem free_iff : db.free i k = true ↔ db.locks k = none ∨ db.locks k = some i := by
  simp [free]

/-! ### What statements leave alone -/

theorem writes_write_self (db : Database key A) (i : ℕ) (w : Write key) :
    (db.write i w).writes i = db.writes i ++ [w] := Function.update_self ..

theorem writes_write_of_ne (db : Database key A) (w : Write key) (h : j ≠ i) :
    (db.write i w).writes j = db.writes j := Function.update_of_ne h ..

theorem writes_writeAll_self (db : Database key A) (i : ℕ) (ws : List (Write key)) :
    (db.writeAll i ws).writes i = db.writes i ++ ws := by
  induction ws generalizing db with
  | nil => exact (List.append_nil _).symm
  | cons w ws ih =>
    exact (ih (db.write i w)).trans (by rw [writes_write_self, List.append_assoc]; rfl)

theorem writes_writeAll_of_ne (db : Database key A) (ws : List (Write key)) (h : j ≠ i) :
    (db.writeAll i ws).writes j = db.writes j := by
  induction ws generalizing db with
  | nil => rfl
  | cons w ws ih => exact (ih (db.write i w)).trans (db.writes_write_of_ne w h)

theorem rows_writeAll (db : Database key A) (i : ℕ) (ws : List (Write key)) :
    (db.writeAll i ws).rows = db.rows := by
  induction ws generalizing db with
  | nil => rfl
  | cons w ws ih => exact ih (db.write i w)

omit [DecidableEq K] in
theorem writes_rollback_self (db : Database key A) (i : ℕ) : (db.rollback i).writes i = [] :=
  Function.update_self ..

omit [DecidableEq K] in
theorem writes_rollback_of_ne (db : Database key A) (h : j ≠ i) :
    (db.rollback i).writes j = db.writes j := Function.update_of_ne h ..

theorem free_write {l : K} (h : db.free i l = true) : (db.write i w).free i l = true := by
  rw [free_iff] at h ⊢
  by_cases hl : l = w.row
  · exact .inr (by rw [hl]; exact Function.update_self ..)
  · have hsame : (db.write i w).locks l = db.locks l := Function.update_of_ne hl ..
    rw [hsame]
    exact h

theorem locks_lock (hfree : db.free i k = true) {l : K} (h : j ≠ i) (hl : db.locks l = some j) :
    (db.lock i k).locks l = some j := by
  by_cases hlk : l = k
  · rw [hlk] at hl
    obtain hnone | hown := free_iff.mp hfree
    · rw [hnone] at hl
      cases hl
    · rw [hown] at hl
      exact absurd (Option.some.inj hl).symm h
  · exact (Function.update_of_ne hlk ..).trans hl

theorem locks_write_self {l : K} (hl : db.locks l = some i) :
    (db.write i w).locks l = some i := by
  by_cases hlk : l = w.row
  · rw [hlk]
    exact Function.update_self ..
  · exact (Function.update_of_ne hlk ..).trans hl

theorem locks_writeAll_self {l : K} {ws : List (Write key)} (hl : db.locks l = some i) :
    (db.writeAll i ws).locks l = some i := by
  induction ws generalizing db with
  | nil => exact hl
  | cons w ws ih => exact ih (locks_write_self hl)

theorem locks_writeAll {ws : List (Write key)} (hfree : ∀ w ∈ ws, db.free i w.row = true) {l : K}
    (h : j ≠ i) (hl : db.locks l = some j) : (db.writeAll i ws).locks l = some j := by
  induction ws generalizing db with
  | nil => exact hl
  | cons w ws ih =>
    refine ih (fun u hu => free_write (hfree u (List.mem_cons_of_mem w hu))) ?_
    exact locks_lock (hfree w List.mem_cons_self) h hl

omit [DecidableEq K] in
theorem locks_rollback {l : K} (h : j ≠ i) (hl : db.locks l = some j) :
    (db.rollback i).locks l = some j := by
  have hne : db.locks l ≠ some i := by
    rw [hl]
    exact fun he => h (Option.some.inj he)
  rw [rollback]
  dsimp only
  rw [if_neg hne, hl]

theorem find_commit (h : ∀ w ∈ db.writes i, db.locks w.row = some i) (hk : db.locks k ≠ some i) :
    (db.commit i).rows.find k = db.rows.find k := by
  have hlast : Write.last (db.writes i) k = none := by
    refine Write.last_eq_none fun w hw he => hk ?_
    rw [← he]
    exact h w hw
  exact (db.find_view i k).trans (by rw [hlast]; rfl)

def Guarded (db : Database key A) : Prop := ∀ i, ∀ w ∈ db.writes i, db.locks w.row = some i

theorem guarded_lock (h : db.Guarded) (hfree : db.free i k = true) : (db.lock i k).Guarded := by
  intro j w hw
  have hold := h j w hw
  simp only [lock]
  by_cases hk : w.row = k
  · rw [hk, Function.update_self]
    rw [hk] at hold
    obtain hnone | hown := free_iff.mp hfree
    · rw [hnone] at hold
      cases hold
    · rw [← hold, hown]
  · rw [Function.update_of_ne hk]
    exact hold

theorem guarded_write (h : db.Guarded) (hfree : db.free i w.row = true) :
    (db.write i w).Guarded := by
  intro j u hu
  have hlocked := guarded_lock h hfree
  by_cases hj : j = i
  · subst hj
    simp only [write, Function.update_self, List.mem_append, List.mem_singleton] at hu
    obtain hu | rfl := hu
    · exact hlocked j u hu
    · exact Function.update_self _ _ _
  · simp only [write, Function.update_of_ne hj] at hu
    exact hlocked j u hu

theorem guarded_writeAll (h : db.Guarded) {ws : List (Write key)}
    (hfree : ∀ w ∈ ws, db.free i w.row = true) : (db.writeAll i ws).Guarded := by
  induction ws generalizing db with
  | nil => exact h
  | cons w ws ih =>
    refine ih (guarded_write h (hfree w List.mem_cons_self)) fun u hu => ?_
    exact free_write (hfree u (List.mem_cons_of_mem w hu))

omit [DecidableEq K] in
theorem guarded_rollback (h : db.Guarded) (i : ℕ) : (db.rollback i).Guarded := by
  intro j w hw
  by_cases hj : j = i
  · subst hj
    simp [rollback] at hw
  · simp only [rollback, Function.update_of_ne hj] at hw
    have hold := h j w hw
    have hne : db.locks w.row ≠ some i := by
      rw [hold]
      exact fun he => hj (Option.some.inj he)
    simp only [rollback]
    rw [if_neg hne]
    exact hold

theorem guarded_commit (h : db.Guarded) (i : ℕ) : (db.commit i).Guarded := guarded_rollback h i

omit [DecidableEq K] in
theorem guarded_abort (db : Database key A) : db.abort.Guarded := by
  intro i w hw
  cases hw

end Database

end CiRunner.Tables
