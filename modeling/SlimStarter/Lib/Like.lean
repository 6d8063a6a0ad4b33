import Mathlib.Data.List.Infix
import Mathlib.Tactic

/-!
# Wildcard patterns

The matcher of SQL's `LIKE`, with an escape character, over any alphabet. `parse` reads a pattern
into items and `matches` backtracks over them: `any` stands for any run of elements, `one` for what
`next` takes as one, and a literal for every element that folds to the same.

A text in which every wildcard and every escape character is escaped reads back as its own literals
(`parse_escape`). A pattern of literals between two `any` matches what contains them
(`matches_contains`), and without the second one what ends with them (`matches_ends`).
-/

namespace Like

variable {α : Type*} [DecidableEq α]

inductive Item (α : Type*) where
  | char (a : α)
  | one
  | any
deriving DecidableEq, Repr

/-- The elements that are not literals. -/
structure Wildcards (α : Type*) where
  any : α
  one : α
deriving DecidableEq, Repr

namespace Wildcards

variable (W : Wildcards α)

/-- What an element stands for where it is not escaped. -/
def item (a : α) : Item α := if a = W.any then .any else if a = W.one then .one else .char a

/-- The items of a pattern, unless it ends in an escape character. -/
def parse (escape : α) : List α → Option (List (Item α))
  | [] => some []
  | [a] => if a = escape then none else some [W.item a]
  | a :: b :: p =>
    if a = escape then (parse escape p).map (.char b :: ·)
    else (parse escape (b :: p)).map (W.item a :: ·)

/-- Put the escape character before every wildcard and every escape character. -/
def escape (escape : α) (s : List α) : List α :=
  s.flatMap fun a => if a = W.any ∨ a = W.one ∨ a = escape then [escape, a] else [a]

variable {W}

theorem parse_escaped (e a : α) (p : List α) :
    W.parse e (e :: a :: p) = (W.parse e p).map (.char a :: ·) := by
  simp [parse]

theorem parse_plain {e a : α} (h : a ≠ e) (p : List α) :
    W.parse e (a :: p) = (W.parse e p).map (W.item a :: ·) := by
  rcases p with _ | ⟨b, p⟩ <;> simp [parse, h]

/-- An escaped text reads back as its own literals, whatever comes after it. -/
theorem parse_escape (e : α) (s p : List α) :
    W.parse e (W.escape e s ++ p) = (W.parse e p).map (s.map .char ++ ·) := by
  induction s with
  | nil => simp [escape]
  | cons a s ih =>
    have hcons : W.escape e (a :: s) ++ p =
        (if a = W.any ∨ a = W.one ∨ a = e then [e, a] else [a]) ++ (W.escape e s ++ p) := by
      simp [escape]
    rw [hcons]
    split_ifs with ha
    · rw [List.cons_append, List.singleton_append, parse_escaped, ih]
      simp [Function.comp_def]
    · have hany : a ≠ W.any := fun h => ha (.inl h)
      have hone : a ≠ W.one := fun h => ha (.inr (.inl h))
      have he : a ≠ e := fun h => ha (.inr (.inr h))
      rw [List.singleton_append, parse_plain he, ih]
      simp [item, hany, hone, Function.comp_def]

end Wildcards

/-! ## Matching -/

section Matching

variable (fold : α → α) (next : List α → Option (List α))

/-- The items match the whole text. -/
def «matches» : List (Item α) → List α → Bool
  | [], s => s.isEmpty
  | .char _ :: _, [] => false
  | .char a :: p, b :: s => fold a = fold b && «matches» p s
  | .one :: p, s => (next s).any («matches» p)
  | .any :: p, s => s.tails.any («matches» p)

variable {fold next}

theorem matches_any (s : List α) : «matches» fold next [.any] s = true := by
  simp only [«matches», List.any_eq_true, List.mem_tails]
  exact ⟨[], List.nil_suffix, rfl⟩

/-- Literals take an equal run of elements, up to folding. -/
theorem matches_literals (k s : List α) :
    «matches» fold next (k.map .char ++ [.any]) s = true ↔ k.map fold <+: s.map fold := by
  induction k generalizing s with
  | nil => simpa using matches_any s
  | cons a k ih =>
    rcases s with _ | ⟨b, s⟩
    · simp [«matches»]
    · simp only [List.map_cons, List.cons_append, «matches», Bool.and_eq_true, decide_eq_true_eq,
        ih, List.cons_prefix_cons]

theorem matches_contains (k s : List α) :
    «matches» fold next (.any :: k.map .char ++ [.any]) s = true ↔
      k.map fold <:+: s.map fold := by
  simp only [List.cons_append, «matches», List.any_eq_true, List.mem_tails, matches_literals]
  rw [List.infix_iff_prefix_suffix]
  constructor
  · rintro ⟨t, ht, hk⟩
    exact ⟨t.map fold, hk, ht.map fold⟩
  · rintro ⟨t, hk, ht⟩
    obtain ⟨t, hsuffix, rfl⟩ := List.suffix_map_iff.mp ht
    exact ⟨t, hsuffix, hk⟩

/-- Behind the last `any` the literals take the end of the text. -/
theorem matches_ends (k s : List α) :
    «matches» fold next (.any :: k.map .char) s = true ↔ k.map fold <:+ s.map fold := by
  have hliterals : ∀ t, «matches» fold next (k.map .char) t = true ↔ k.map fold = t.map fold := by
    induction k with
    | nil =>
      intro t
      rcases t with _ | ⟨b, t⟩ <;> simp [«matches»]
    | cons a k ih =>
      intro t
      rcases t with _ | ⟨b, t⟩
      · simp [«matches»]
      · simp only [List.map_cons, «matches», Bool.and_eq_true, decide_eq_true_eq, ih,
          List.cons.injEq]
  simp only [«matches», List.any_eq_true, List.mem_tails, hliterals]
  constructor
  · rintro ⟨t, ht, hk⟩
    rw [hk]
    exact ht.map fold
  · intro h
    obtain ⟨t, hsuffix, hk⟩ := List.suffix_map_iff.mp h
    exact ⟨t, hsuffix, hk⟩

end Matching

end Like
