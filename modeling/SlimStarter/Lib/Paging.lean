import Mathlib.Data.List.Basic
import Mathlib.Tactic

/-!
# Pages of a list

`slice n l k` is page `k` of a list, counted from 0, at `n` elements a page, and `pageCount n l` the
number of pages that are not empty. Put together these pages are the list (`flatMap_slice`), and all
of them but the last are full (`length_slice`).
-/

namespace Paging

variable {α : Type} (n : ℕ) (l : List α)

def slice (k : ℕ) : List α := (l.drop (n * k)).take n

def pageCount : ℕ := if l.length = 0 then 0 else (l.length - 1) / n + 1

variable {n l} {k : ℕ}

theorem lt_pageCount (hn : 0 < n) : k < pageCount n l ↔ n * k < l.length := by
  unfold pageCount
  split_ifs with hl
  · omega
  · rw [Nat.lt_succ_iff, Nat.le_div_iff_mul_le hn, mul_comm k n]
    omega

theorem slice_eq_nil (hn : 0 < n) : slice n l k = [] ↔ pageCount n l ≤ k := by
  rw [← not_lt, lt_pageCount hn]
  simp [slice, hn.ne']

/-- A page that another one follows is full. -/
theorem length_slice (hn : 0 < n) (h : k + 1 < pageCount n l) : (slice n l k).length = n := by
  rw [lt_pageCount hn, Nat.mul_succ] at h
  simp only [slice, List.length_take, List.length_drop]
  omega

theorem flatMap_slice_range (k : ℕ) : (List.range k).flatMap (slice n l) = l.take (n * k) := by
  induction k with
  | zero => simp
  | succ k ih =>
    rw [List.range_succ, List.flatMap_append, ih, Nat.mul_succ, List.take_add]
    simp [slice]

theorem flatMap_slice (hn : 0 < n) : (List.range (pageCount n l)).flatMap (slice n l) = l := by
  have hall : l.length ≤ n * pageCount n l := by
    by_contra hlt
    exact absurd ((lt_pageCount hn).mpr (not_le.mp hlt)) (lt_irrefl _)
  rw [flatMap_slice_range, List.take_of_length_le hall]

end Paging
