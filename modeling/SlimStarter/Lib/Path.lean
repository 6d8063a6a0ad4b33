import Mathlib.Data.List.Basic
import Mathlib.Tactic

/-!
# Lexical normalisation of paths

A path is a list over any alphabet with a separator and a dot. Its normal form is found without a
look at a file system: segments that are empty or one dot change nothing, and a segment of two dots
leaves the last name. A path whose further segments never are two dots stays below the one it starts
with (`below_normalise`).
-/

namespace LexicalPath

variable {α : Type} [DecidableEq α] (slash dot : α)

/-- A path in normal form: whether it is absolute, how many levels a relative one goes up first, and
the names that follow. -/
structure NormalPath (α : Type) where
  absolute : Bool
  up : ℕ
  names : List (List α)
deriving DecidableEq, Repr

/-- Go up one level; the root has none above it. -/
def NormalPath.leave (p : NormalPath α) : NormalPath α :=
  if p.names ≠ [] then { p with names := p.names.dropLast }
  else if p.absolute then p
  else { p with up := p.up + 1 }

/-- Follow one segment. -/
def NormalPath.enter (p : NormalPath α) (segment : List α) : NormalPath α :=
  if segment = [] ∨ segment = [dot] then p
  else if segment = [dot, dot] then p.leave
  else { p with names := p.names ++ [segment] }

/-- `q` is `p` or below it. -/
structure NormalPath.Below (p q : NormalPath α) : Prop where
  absolute : q.absolute = p.absolute
  up : q.up = p.up
  names : p.names <+: q.names

open NormalPath (Below enter)

def normalise (path : List α) : NormalPath α :=
  (path.splitOn slash).foldl (enter dot) ⟨path.head? = some slash, 0, []⟩

variable {slash dot} {p q r : NormalPath α} {path rest segment : List α} {segments : List (List α)}

omit [DecidableEq α] in
theorem NormalPath.Below.refl (p : NormalPath α) : Below p p := ⟨rfl, rfl, List.prefix_rfl⟩

omit [DecidableEq α] in
theorem NormalPath.Below.trans (h : Below p q) (h' : Below q r) : Below p r :=
  ⟨h'.absolute.trans h.absolute, h'.up.trans h.up, h.names.trans h'.names⟩

theorem below_enter (h : segment ≠ [dot, dot]) : Below p (enter dot p segment) := by
  unfold enter
  split_ifs
  · exact .refl p
  · exact ⟨rfl, rfl, List.prefix_append _ _⟩

theorem below_foldl (h : ∀ segment ∈ segments, segment ≠ [dot, dot]) :
    Below p (segments.foldl (enter dot) p) := by
  induction segments generalizing p with
  | nil => exact .refl p
  | cons segment segments ih =>
    obtain ⟨hsegment, hrest⟩ := List.forall_mem_cons.mp h
    exact (below_enter hsegment).trans (ih hrest)

/-- A separator at the end changes nothing, but that nothing but it is the root. -/
theorem normalise_slash : normalise slash dot (path ++ [slash]) =
    (path.splitOn slash).foldl (enter dot) ⟨(path ++ [slash]).head? = some slash, 0, []⟩ := by
  rw [normalise, List.splitOn_append_cons_self, List.splitOn_nil, List.foldl_append]
  rfl

/-- What follows a separator is followed from the directory before it. -/
theorem normalise_append : normalise slash dot (path ++ slash :: rest) =
    (rest.splitOn slash).foldl (enter dot) (normalise slash dot (path ++ [slash])) := by
  have hhead : (path ++ slash :: rest).head? = (path ++ [slash]).head? := by
    cases path <;> rfl
  rw [normalise_slash, normalise, List.splitOn_append_cons_self, List.foldl_append, hhead]

omit [DecidableEq α] in
theorem infix_intercalate {sep : List α} (h : segment ∈ segments) :
    segment <:+: sep.intercalate segments := by
  induction segments with
  | nil => cases h
  | cons first segments ih =>
    cases segments with
    | nil =>
      obtain rfl := List.mem_singleton.mp h
      simp [List.intercalate]
    | cons second segments =>
      rw [List.intercalate_cons_cons]
      rcases List.mem_cons.mp h with rfl | hrest
      · rw [List.append_assoc]
        exact (List.prefix_append _ _).isInfix
      · exact (ih hrest).trans (List.suffix_append _ _).isInfix

theorem infix_of_mem_splitOn (h : segment ∈ path.splitOn slash) : segment <:+: path := by
  have hinfix := @infix_intercalate _ _ _ [slash] h
  rwa [List.intercalate_splitOn] at hinfix

/-- A path without two dots in a row stays below where it starts. -/
theorem below_normalise (h : ¬ [dot, dot] <:+: rest) :
    Below (normalise slash dot (path ++ [slash]))
      (normalise slash dot (path ++ slash :: rest)) := by
  have happend := @normalise_append α _ slash dot path rest
  rw [happend]
  refine below_foldl fun segment hsegment hdots => h ?_
  rw [← hdots]
  exact infix_of_mem_splitOn hsegment

end LexicalPath
