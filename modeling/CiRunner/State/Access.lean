import Mathlib.Data.List.Dedup
import Mathlib.Data.List.Sort
import Mathlib.Data.String.Basic
import CiRunner.Text

/-! Repositories that a user has access to, by the installation that grants it. The list may
have repetitions, blanks and variants in case; a query is made from its normal form, which
has each installation once and each of its repositories once, in lower case. -/

namespace CiRunner.State

open Text

/-- Lower case as the language has it: on ASCII it is that of the database, it has nothing left to
lower, and nothing but the empty text becomes empty. -/
structure Lowering where
  lower : String → String
  lower_ascii : ∀ s, (∀ c ∈ s.toList, c.val < 0x80) → lower s = toLower s
  lower_lower : ∀ s, lower (lower s) = lower s
  lower_toLower : ∀ s, lower (toLower s) = lower s
  lower_eq_empty : ∀ s, lower s = "" → s = ""

theorem char_toLower_toLower (c : Char) : c.toLower.toLower = c.toLower := by
  unfold Char.toLower
  split
  · rename_i h
    rw [dif_neg]
    rintro ⟨-, hle⟩
    have hA : 65 ≤ c.val.toNat := h.1
    have hZ : c.val.toNat ≤ 90 := h.2
    have hle : (c.val + 32).toNat ≤ 90 := hle
    rw [UInt32.toNat_add, show (32 : UInt32).toNat = 32 from rfl] at hle
    omega
  · rfl

theorem toLower_toLower (s : String) : toLower (toLower s) = toLower s := by
  simp only [toLower, String.toList_ofList, List.map_map]
  refine congrArg String.ofList (List.map_congr_left fun c _ => ?_)
  exact char_toLower_toLower c

/-- Lower case of ASCII letters only is one. -/
def Lowering.ascii : Lowering where
  lower := toLower
  lower_ascii _ _ := rfl
  lower_lower := toLower_toLower
  lower_toLower := toLower_toLower
  lower_eq_empty s h := by
    have hlist := congrArg String.toList h
    rw [toLower, String.toList_ofList, String.toList_empty, List.map_eq_nil_iff] at hlist
    exact String.toList_eq_nil_iff.mp hlist

def Ascii (s : String) : Prop := ∀ c ∈ s.toList, c.val < 0x80

structure RepositoryAccess where
  installationID : Int
  repositories : List String

variable (fold : Lowering)

def uniqueLowerTrimmed (seen : List String) : List String → List String
  | [] => []
  | value :: values =>
    let value := fold.lower (trimSpace value)
    if value = "" || seen.contains value then uniqueLowerTrimmed seen values
    else value :: uniqueLowerTrimmed (value :: seen) values

def repositoriesByInstallation (access : List RepositoryAccess) (installationID : Int) :
    List String :=
  ((access.filter (·.installationID = installationID)).flatMap fun item =>
    uniqueLowerTrimmed fold [] item.repositories).dedup

def normalizeRepositoryAccess (access : List RepositoryAccess) : List RepositoryAccess :=
  let installationIDs := ((access.map (·.installationID)).filter (0 < ·)).dedup
  let nonempty := installationIDs.filter (repositoriesByInstallation fold access · ≠ [])
  (nonempty.insertionSort (· ≤ ·)).map fun installationID =>
    { installationID := installationID
      repositories := (repositoriesByInstallation fold access installationID).insertionSort (· ≤ ·) }

/-- An entry grants access to the repository. -/
def Granted (access : List RepositoryAccess) (installationID : Int) (repository : String) : Prop :=
  0 < installationID ∧ ∃ item ∈ access, item.installationID = installationID ∧
    ∃ name ∈ item.repositories, trimSpace name ≠ "" ∧
      fold.lower (trimSpace name) = fold.lower repository

instance (access : List RepositoryAccess) (installationID : Int) (repository : String) :
    Decidable (Granted fold access installationID repository) :=
  inferInstanceAs (Decidable (_ ∧ _))

variable {fold} {access : List RepositoryAccess} {installationID : Int} {repository : String}

theorem mem_uniqueLowerTrimmed {seen values : List String} {value : String} :
    value ∈ uniqueLowerTrimmed fold seen values ↔
      value ≠ "" ∧ value ∉ seen ∧ ∃ v ∈ values, fold.lower (trimSpace v) = value := by
  fun_induction uniqueLowerTrimmed fold seen values with
  | case1 seen => simp
  | case2 seen v values low hskip ih =>
    simp only [Bool.or_eq_true, decide_eq_true_eq, List.contains_iff_mem] at hskip
    rw [ih]
    simp only [List.exists_mem_cons_iff]
    grind
  | case3 seen v values low hskip ih =>
    simp only [Bool.or_eq_true, decide_eq_true_eq, List.contains_iff_mem, not_or] at hskip
    rw [List.mem_cons, ih]
    simp only [List.exists_mem_cons_iff]
    grind

theorem mem_repositoriesByInstallation :
    repository ∈ repositoriesByInstallation fold access installationID ↔
      repository ≠ "" ∧ ∃ item ∈ access, item.installationID = installationID ∧
        ∃ name ∈ item.repositories, fold.lower (trimSpace name) = repository := by
  simp only [repositoriesByInstallation, List.mem_dedup, List.mem_flatMap, List.mem_filter,
    decide_eq_true_eq, mem_uniqueLowerTrimmed, List.not_mem_nil, not_false_eq_true, true_and]
  grind

theorem exists_mem_normalize :
    (∃ item ∈ normalizeRepositoryAccess fold access, item.installationID = installationID ∧
      repository ∈ item.repositories) ↔
    0 < installationID ∧ repository ∈ repositoriesByInstallation fold access installationID := by
  simp only [normalizeRepositoryAccess, List.mem_map, List.mem_insertionSort, List.mem_filter,
    List.mem_dedup, decide_eq_true_eq, exists_exists_and_eq_and]
  constructor
  · rintro ⟨i, ⟨⟨-, hpos⟩, -⟩, rfl, hmem⟩
    exact ⟨hpos, hmem⟩
  · rintro ⟨hpos, hmem⟩
    obtain ⟨-, item, hitem, hid, -⟩ := mem_repositoriesByInstallation.mp hmem
    exact ⟨installationID, ⟨⟨⟨item, hitem, hid⟩, hpos⟩, List.ne_nil_of_mem hmem⟩, rfl, hmem⟩

theorem nodup_normalize (fold : Lowering) (access : List RepositoryAccess) :
    ((normalizeRepositoryAccess fold access).map (·.installationID)).Nodup := by
  simp only [normalizeRepositoryAccess, List.map_map, Function.comp_def, List.map_id']
  exact (List.perm_insertionSort _ _).nodup_iff.mpr ((List.nodup_dedup _).filter _)

theorem nodup_repositories {item : RepositoryAccess}
    (h : item ∈ normalizeRepositoryAccess fold access) : item.repositories.Nodup := by
  obtain ⟨i, -, rfl⟩ := List.mem_map.mp h
  exact (List.perm_insertionSort _ _).nodup_iff.mpr (List.nodup_dedup _)

theorem Lowering.lower_empty (fold : Lowering) : fold.lower "" = "" := by
  rw [fold.lower_ascii "" (by decide)]
  decide

theorem granted_iff (h : Ascii repository) : Granted fold access installationID repository ↔
    ∃ item ∈ normalizeRepositoryAccess fold access, item.installationID = installationID ∧
      toLower repository ∈ item.repositories := by
  rw [exists_mem_normalize, mem_repositoriesByInstallation, ← fold.lower_ascii repository h, Granted]
  refine and_congr_right fun _ => ⟨?_, ?_⟩
  · rintro ⟨item, hitem, hid, name, hname, hne, heq⟩
    refine ⟨fun hempty => hne (fold.lower_eq_empty _ (heq.trans hempty)), item, hitem, hid, name,
      hname, heq⟩
  · rintro ⟨hne, item, hitem, hid, name, hname, heq⟩
    refine ⟨item, hitem, hid, name, hname, fun hempty => hne ?_, heq⟩
    rw [← heq, hempty, fold.lower_empty]

theorem granted_of_mem_normalize {item : RepositoryAccess}
    (h : item ∈ normalizeRepositoryAccess fold access) (hid : item.installationID = installationID)
    (hmem : toLower repository ∈ item.repositories) :
    Granted fold access installationID repository := by
  obtain ⟨hpos, hmem⟩ := exists_mem_normalize.mp ⟨item, h, hid, hmem⟩
  obtain ⟨hne, item, hitem, hid, name, hname, heq⟩ := mem_repositoriesByInstallation.mp hmem
  refine ⟨hpos, item, hitem, hid, name, hname, fun hempty => hne ?_, ?_⟩
  · rw [← heq, hempty, fold.lower_empty]
  · rw [← fold.lower_lower, heq, fold.lower_toLower]

end CiRunner.State
