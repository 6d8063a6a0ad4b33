import Mathlib.Data.List.Basic
import Mathlib.Tactic

/-!
# Splitting at a separator

`split sep l` lists what is between the occurrences of `sep` in `l`, which are found from left to
right and do not overlap, and `cut a l` is what stands before and after the first `a`. Parts that do
not hold the first element of the separator are found again in their intercalation
(`split_intercalate`).
-/

namespace Split

variable {α : Type}

/-- Put elements before the first part. -/
def prepend (p : List α) : List (List α) → List (List α)
  | [] => [p]
  | q :: parts => (p ++ q) :: parts

theorem prepend_nil {parts : List (List α)} (h : parts ≠ []) : prepend [] parts = parts := by
  cases parts with
  | nil => exact absurd rfl h
  | cons q parts => rfl

theorem prepend_prepend (p q : List α) (parts : List (List α)) :
    prepend p (prepend q parts) = prepend (p ++ q) parts := by
  cases parts <;> simp [prepend]

variable [DecidableEq α] (sep : List α)

/-- The parts, where the first `skip` elements belong to an occurrence that has been found. -/
def splitFrom : ℕ → List α → List (List α)
  | _, [] => [[]]
  | skip + 1, _ :: l => splitFrom skip l
  | 0, a :: l =>
    if sep <+: a :: l then [] :: splitFrom (sep.length - 1) l else prepend [a] (splitFrom 0 l)

def split (l : List α) : List (List α) := splitFrom sep 0 l

/-- What stands before and after the first `a`. -/
def cut (a : α) : List α → List α × List α
  | [] => ([], [])
  | x :: l => if x = a then ([], l) else (x :: (cut a l).1, (cut a l).2)

variable {sep} {a : α} {p l s : List α} {parts : List (List α)}

theorem cut_append_cons (h : a ∉ p) (l : List α) : cut a (p ++ a :: l) = (p, l) := by
  induction p with
  | nil => exact if_pos rfl
  | cons x p ih =>
    simp only [List.mem_cons, not_or] at h
    rw [List.cons_append, cut, if_neg (Ne.symm h.1), ih h.2]

theorem cut_of_notMem (h : a ∉ p) : cut a p = (p, []) := by
  induction p with
  | nil => rfl
  | cons x p ih =>
    simp only [List.mem_cons, not_or] at h
    rw [cut, if_neg (Ne.symm h.1), ih h.2]

theorem split_ne_nil (l : List α) : split sep l ≠ [] := by
  have hfrom : ∀ skip, splitFrom sep skip l ≠ [] := by
    induction l with
    | nil =>
      intro skip
      cases skip <;> simp [splitFrom]
    | cons x l ih =>
      intro skip
      cases skip with
      | succ skip => exact ih skip
      | zero =>
        unfold splitFrom
        split_ifs
        · simp
        · cases splitFrom sep 0 l <;> simp [prepend]
  exact hfrom 0

theorem splitFrom_length (p l : List α) : splitFrom sep p.length (p ++ l) = split sep l := by
  induction p with
  | nil => rfl
  | cons x p ih => exact ih

theorem split_sep (l : List α) : split (a :: s) (a :: s ++ l) = [] :: split (a :: s) l := by
  rw [split, List.cons_append, splitFrom, if_pos (by simp)]
  exact congrArg _ (splitFrom_length s l)

/-- Elements other than the first of the separator belong to the first part. -/
theorem split_append (h : a ∉ p) (l : List α) :
    split (a :: s) (p ++ l) = prepend p (split (a :: s) l) := by
  induction p with
  | nil => exact (prepend_nil (split_ne_nil l)).symm
  | cons x p ih =>
    simp only [List.mem_cons, not_or] at h
    have hnot : ¬ (a :: s <+: x :: (p ++ l)) := fun hx => h.1 (List.cons_prefix_cons.mp hx).1
    rw [List.cons_append, split, splitFrom, if_neg hnot]
    exact (congrArg _ (ih h.2)).trans (prepend_prepend _ _ _)

theorem split_intercalate (hparts : ∀ p ∈ parts, a ∉ p) (hne : parts ≠ []) :
    split (a :: s) ((a :: s).intercalate parts) = parts := by
  induction parts with
  | nil => exact absurd rfl hne
  | cons p parts ih =>
    obtain ⟨hp, hrest⟩ := List.forall_mem_cons.mp hparts
    cases parts with
    | nil =>
      have hsplit := split_append (s := s) hp []
      simpa [List.intercalate, split, splitFrom, prepend] using hsplit
    | cons q parts =>
      have hcons : (a :: s).intercalate (p :: q :: parts) =
          p ++ (a :: s ++ (a :: s).intercalate (q :: parts)) := by
        simp [List.intercalate]
      rw [hcons, split_append hp, split_sep, ih hrest (by simp), prepend, List.append_nil]

end Split
