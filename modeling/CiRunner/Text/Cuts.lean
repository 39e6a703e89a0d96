import Mathlib.Data.List.TakeWhile

/-! Cutting a list at the first occurrence of a separator. -/

namespace CiRunner.Text

variable {α : Type} [BEq α] [LawfulBEq α]

/-- The text before the first separator, the text behind it, and whether there is one. -/
def cut (sep : α) (l : List α) : List α × List α × Bool :=
  if sep ∈ l then (l.takeWhile (· != sep), (l.dropWhile (· != sep)).tail, true) else (l, [], false)

theorem ne_of_notMem {sep : α} {l : List α} (h : sep ∉ l) : ∀ c ∈ l, (c != sep) = true := by
  intro c hc
  rw [bne_iff_ne]
  rintro rfl
  exact h hc

theorem takeWhile_of_notMem {sep : α} {l : List α} (h : sep ∉ l) :
    l.takeWhile (· != sep) = l :=
  List.takeWhile_eq_self_iff.mpr (ne_of_notMem h)

theorem dropWhile_of_notMem {sep : α} {l : List α} (h : sep ∉ l) :
    l.dropWhile (· != sep) = [] :=
  List.dropWhile_eq_nil_iff.mpr (ne_of_notMem h)

theorem takeWhile_front {sep : α} {front : List α} (h : sep ∉ front) (back : List α) :
    (front ++ sep :: back).takeWhile (· != sep) = front := by
  rw [List.takeWhile_append_of_pos (ne_of_notMem h), List.takeWhile_cons_of_neg (by simp),
    List.append_nil]

theorem dropWhile_front {sep : α} {front : List α} (h : sep ∉ front) (back : List α) :
    (front ++ sep :: back).dropWhile (· != sep) = sep :: back := by
  rw [List.dropWhile_append_of_pos (ne_of_notMem h), List.dropWhile_cons_of_neg (by simp)]

theorem cut_of_notMem {sep : α} {l : List α} (h : sep ∉ l) : cut sep l = (l, [], false) :=
  if_neg h

theorem cut_front {sep : α} {front : List α} (h : sep ∉ front) (back : List α) :
    cut sep (front ++ sep :: back) = (front, back, true) := by
  rw [cut, if_pos (by simp), takeWhile_front h, dropWhile_front h, List.tail_cons]

theorem cut_fst (sep : α) (l : List α) : (cut sep l).1 = l.takeWhile (· != sep) := by
  by_cases hmem : sep ∈ l
  · rw [cut, if_pos hmem]
  · rw [cut_of_notMem hmem, takeWhile_of_notMem hmem]

theorem length_cut_lt {sep : α} {l : List α} (h : (cut sep l).2.2 = true) :
    (cut sep l).2.1.length < l.length := by
  by_cases hmem : sep ∈ l
  · obtain ⟨front, back, rfl, hfront⟩ := List.eq_append_cons_of_mem hmem
    rw [cut_front hfront, List.length_append, List.length_cons]
    exact Nat.lt_of_lt_of_le (Nat.lt_succ_self _) (Nat.le_add_left _ _)
  · rw [cut_of_notMem hmem] at h
    cases h

theorem findIdx?_front {sep : α} {front : List α} (h : sep ∉ front) (back : List α) :
    (front ++ sep :: back).findIdx? (· == sep) = some front.length := by
  induction front with
  | nil => simp [List.findIdx?_cons]
  | cons c front ih =>
    rw [List.mem_cons, not_or] at h
    have hc : (c == sep) = false := by simpa using Ne.symm h.1
    rw [List.cons_append, List.findIdx?_cons, hc, ih h.2]
    rfl

theorem findIdx?_of_notMem {sep : α} {l : List α} (h : sep ∉ l) :
    l.findIdx? (· == sep) = none := by
  rw [List.findIdx?_eq_none_iff]
  exact fun c hc => by simpa using ne_of_notMem h c hc

end CiRunner.Text
