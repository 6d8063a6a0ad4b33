import Mathlib.Data.List.Basic
import Mathlib.Tactic

/-!
# Assignments whose values refer to names

A list of assignments, each of a value that is put together from literals and references. A
reference is to the surrounding scope, else to an assignment before it, else empty. `resolve` turns
the assignments into values by name.

The value of a name is that of its last assignment (`get_resolve`). So the scope matters only where
an effective assignment has a reference (`get_resolve_of_literal`), and only by the names referred
to (`resolve_congr`).
-/

namespace Template

variable {ν α β : Type} [DecidableEq ν]

inductive Piece (ν α : Type) where
  | literal (s : List α)
  | reference (name : ν)
deriving DecidableEq, Repr

def Piece.isLiteral : Piece ν α → Bool
  | literal _ => true
  | reference _ => false

structure Assignment (ν α : Type) where
  name : ν
  value : List (Piece ν α)
deriving DecidableEq, Repr

/-! ## Values by name -/

def get : List (ν × β) → ν → Option β
  | [], _ => none
  | (key, value) :: rest, name => if key = name then some value else get rest name

/-- Set a value in place, or at the end where the name is new. -/
def assign : List (ν × β) → ν → β → List (ν × β)
  | [], name, value => [(name, value)]
  | (key, old) :: rest, name, value =>
    if key = name then (name, value) :: rest else (key, old) :: assign rest name value

section Values

variable {values : List (ν × β)} {name x : ν} {value : β}

theorem get_assign :
    get (assign values name value) x = if x = name then some value else get values x := by
  induction values with
  | nil => simp [assign, get, eq_comm]
  | cons entry values ih =>
    obtain ⟨key, old⟩ := entry
    by_cases hkey : key = name
    · subst hkey
      by_cases hx : key = x
      · simp [assign, get, hx]
      · simp [assign, get, hx, Ne.symm hx]
    · by_cases hx : key = x
      · subst hx
        simp [assign, get, hkey]
      · simp [assign, get, hkey, hx, ih]

theorem keys_assign {β' : Type} {values' : List (ν × β')} {value' : β'}
    (h : values.map Prod.fst = values'.map Prod.fst) :
    (assign values name value).map Prod.fst = (assign values' name value').map Prod.fst := by
  induction values generalizing values' with
  | nil =>
    obtain rfl := List.map_eq_nil_iff.mp h.symm
    rfl
  | cons entry values ih =>
    cases values' with
    | nil => simp at h
    | cons entry' values' =>
      obtain ⟨key, old⟩ := entry
      obtain ⟨key', old'⟩ := entry'
      obtain ⟨rfl, hrest⟩ := List.cons.inj h
      simp only [assign]
      split_ifs
      · simp [hrest]
      · simp [ih hrest]

theorem mem_keys_assign : x ∈ (assign values name value).map Prod.fst ↔
    x = name ∨ x ∈ values.map Prod.fst := by
  induction values with
  | nil => simp [assign]
  | cons entry values ih =>
    obtain ⟨key, old⟩ := entry
    unfold assign
    split_ifs with hkey
    · subst hkey
      simp
    · rw [List.map_cons, List.mem_cons, ih, List.map_cons, List.mem_cons]
      tauto

theorem nodup_keys_assign (h : (values.map Prod.fst).Nodup) :
    ((assign values name value).map Prod.fst).Nodup := by
  induction values with
  | nil => simp [assign]
  | cons entry values ih =>
    obtain ⟨key, old⟩ := entry
    obtain ⟨hnot, hrest⟩ := List.nodup_cons.mp h
    unfold assign
    split_ifs with hkey
    · exact hkey ▸ h
    · refine List.nodup_cons.mpr ⟨fun hmem => ?_, ih hrest⟩
      exact (mem_keys_assign.mp hmem).elim hkey hnot

theorem mem_of_get (h : get values x = some value) : (x, value) ∈ values := by
  induction values with
  | nil => simp [get] at h
  | cons entry values ih =>
    obtain ⟨key, old⟩ := entry
    unfold get at h
    split_ifs at h with hkey
    · obtain rfl := Option.some.inj h
      exact hkey ▸ List.mem_cons_self
    · exact List.mem_cons_of_mem _ (ih h)

theorem forall_assign {P : β → Prop} (h : ∀ entry ∈ values, P entry.2) (hvalue : P value) :
    ∀ entry ∈ assign values name value, P entry.2 := by
  induction values with
  | nil => simpa [assign] using hvalue
  | cons entry values ih =>
    obtain ⟨key, old⟩ := entry
    obtain ⟨hold, hrest⟩ := List.forall_mem_cons.mp h
    unfold assign
    split_ifs
    · exact List.forall_mem_cons.mpr ⟨hvalue, hrest⟩
    · exact List.forall_mem_cons.mpr ⟨hold, ih hrest⟩

end Values

/-! ## Resolving -/

/-- The text of a piece, in a scope and after these values. -/
def expand (scope : ν → Option (List α)) (values : List (ν × List α)) : Piece ν α → List α
  | .literal s => s
  | .reference name => ((scope name).or (get values name)).getD []

def expandAll (scope : ν → Option (List α)) (values : List (ν × List α))
    (pieces : List (Piece ν α)) : List α :=
  pieces.flatMap (expand scope values)

/-- The values after some assignments more. -/
def resolveFrom (scope : ν → Option (List α)) :
    List (ν × List α) → List (Assignment ν α) → List (ν × List α)
  | values, [] => values
  | values, line :: lines =>
    resolveFrom scope (assign values line.name (expandAll scope values line.value)) lines

def resolve (scope : ν → Option (List α)) (lines : List (Assignment ν α)) : List (ν × List α) :=
  resolveFrom scope [] lines

/-- The assignments that no later one overwrites. -/
def effective : List (Assignment ν α) → List (Assignment ν α)
  | [] => []
  | line :: lines =>
    if line.name ∈ lines.map Assignment.name then effective lines else line :: effective lines

/-- The names that the assignments refer to. -/
def references (lines : List (Assignment ν α)) : List ν :=
  lines.flatMap fun line => line.value.filterMap fun
    | .literal _ => none
    | .reference name => some name

section Resolve

variable {scope scope' : ν → Option (List α)} {values values' : List (ν × List α)}
variable {lines : List (Assignment ν α)} {line : Assignment ν α} {x : ν}

theorem get_resolveFrom_of_notMem (h : x ∉ lines.map Assignment.name) :
    get (resolveFrom scope values lines) x = get values x := by
  induction lines generalizing values with
  | nil => rfl
  | cons line lines ih =>
    rw [List.map_cons, List.mem_cons, not_or] at h
    rw [resolveFrom, ih h.2, get_assign, if_neg h.1]

/-- An effective assignment gives its name the value it has where it stands. -/
theorem get_resolve (h : line ∈ effective lines) :
    ∃ before, get (resolveFrom scope values lines) line.name =
      some (expandAll scope before line.value) := by
  induction lines generalizing values with
  | nil => simp [effective] at h
  | cons first lines ih =>
    unfold effective at h
    split_ifs at h with hlater
    · exact ih h
    · rcases List.mem_cons.mp h with rfl | h
      · refine ⟨values, ?_⟩
        rw [resolveFrom, get_resolveFrom_of_notMem hlater, get_assign, if_pos rfl]
      · exact ih h

theorem exists_effective (h : x ∈ lines.map Assignment.name) :
    ∃ line ∈ effective lines, line.name = x := by
  induction lines with
  | nil => simp at h
  | cons first lines ih =>
    unfold effective
    split_ifs with hlater
    · refine ih ?_
      rcases List.mem_cons.mp h with rfl | h
      · exact hlater
      · exact h
    · rcases List.mem_cons.mp h with rfl | h
      · exact ⟨first, List.mem_cons_self, rfl⟩
      · obtain ⟨line, hline, hname⟩ := ih h
        exact ⟨line, List.mem_cons_of_mem _ hline, hname⟩

theorem expandAll_of_literal {pieces : List (Piece ν α)}
    (h : pieces.all Piece.isLiteral = true) :
    expandAll scope values pieces = expandAll scope' values' pieces := by
  refine List.flatMap_congr fun piece hpiece => ?_
  have hliteral := List.all_eq_true.mp h piece hpiece
  cases piece with
  | literal s => rfl
  | reference name => simp [Piece.isLiteral] at hliteral

/-- The scope does not matter to a name whose effective assignment is literal. -/
theorem get_resolve_of_literal
    (h : ∀ line ∈ effective lines, line.name = x → line.value.all Piece.isLiteral = true) :
    get (resolve scope lines) x = get (resolve scope' lines) x := by
  unfold resolve
  by_cases hx : x ∈ lines.map Assignment.name
  · obtain ⟨line, hline, rfl⟩ := exists_effective hx
    obtain ⟨before, hvalue⟩ := @get_resolve ν α _ scope [] lines line hline
    obtain ⟨before', hvalue'⟩ := @get_resolve ν α _ scope' [] lines line hline
    rw [hvalue, hvalue', expandAll_of_literal (h line hline rfl)]
  · rw [get_resolveFrom_of_notMem hx, get_resolveFrom_of_notMem hx]

theorem keys_resolveFrom (h : values.map Prod.fst = values'.map Prod.fst) :
    (resolveFrom scope values lines).map Prod.fst =
      (resolveFrom scope' values' lines).map Prod.fst := by
  induction lines generalizing values values' with
  | nil => exact h
  | cons line lines ih =>
    exact ih (keys_assign h)

theorem keys_resolve :
    (resolve scope lines).map Prod.fst = (resolve scope' lines).map Prod.fst :=
  keys_resolveFrom rfl

theorem mem_keys_resolve (h : x ∈ (resolve scope lines).map Prod.fst) :
    x ∈ lines.map Assignment.name := by
  suffices ∀ values : List (ν × List α), x ∈ (resolveFrom scope values lines).map Prod.fst →
      x ∈ values.map Prod.fst ∨ x ∈ lines.map Assignment.name by
    simpa using this [] h
  clear h
  induction lines with
  | nil => exact fun _ => .inl
  | cons line lines ih =>
    intro values hx
    rcases ih _ hx with hx | hx
    · rcases mem_keys_assign.mp hx with rfl | hx
      · exact .inr List.mem_cons_self
      · exact .inl hx
    · exact .inr (List.mem_cons_of_mem _ hx)

theorem nodup_keys_resolve : ((resolve scope lines).map Prod.fst).Nodup := by
  suffices ∀ values : List (ν × List α), (values.map Prod.fst).Nodup →
      ((resolveFrom scope values lines).map Prod.fst).Nodup from this [] List.nodup_nil
  induction lines with
  | nil => exact fun _ h => h
  | cons line lines ih => exact fun values h => ih _ (nodup_keys_assign h)

theorem resolve_congr (h : ∀ name ∈ references lines, scope name = scope' name) :
    resolve scope lines = resolve scope' lines := by
  suffices ∀ values, resolveFrom scope values lines = resolveFrom scope' values lines from this []
  induction lines with
  | nil => exact fun _ => rfl
  | cons line lines ih =>
    intro values
    simp only [references, List.flatMap_cons, List.mem_append] at h
    have hline : expandAll scope values line.value = expandAll scope' values line.value := by
      refine List.flatMap_congr fun piece hpiece => ?_
      cases piece with
      | literal s => rfl
      | reference name =>
        have hname := h name (.inl (List.mem_filterMap.mpr ⟨_, hpiece, rfl⟩))
        simp [expand, hname]
    rw [resolveFrom, resolveFrom, hline]
    exact ih (fun name hname => h name (.inr hname)) _

/-- A value is at least as long as any reference in it. -/
theorem length_le_expandAll {pieces : List (Piece ν α)} {piece : Piece ν α}
    (h : piece ∈ pieces) :
    (expand scope values piece).length ≤ (expandAll scope values pieces).length := by
  obtain ⟨before, after, rfl⟩ := List.append_of_mem h
  simp only [expandAll, List.flatMap_append, List.flatMap_cons, List.length_append]
  omega

/-- A value that counts and has a reference is not the same in every scope. -/
theorem exists_get_ne {name : ν} (hline : line ∈ effective lines)
    (hpiece : .reference name ∈ line.value) (a : α) :
    ∃ n, get (resolve (fun x => if x = name then some (List.replicate n a) else none) lines)
      line.name ≠ get (resolve scope lines) line.name := by
  obtain ⟨before, hvalue⟩ := @get_resolve ν α _ scope [] lines line hline
  let n := (expandAll scope before line.value).length + 1
  refine ⟨n, fun hsame => ?_⟩
  let scope' : ν → Option (List α) := fun x => if x = name then some (List.replicate n a) else none
  obtain ⟨before', hvalue'⟩ := @get_resolve ν α _ scope' [] lines line hline
  have hexpand := Option.some.inj (hvalue'.symm.trans (hsame.trans hvalue))
  have hle := @length_le_expandAll ν α _ scope' before' _ _ hpiece
  rw [hexpand] at hle
  simp [expand, scope', n] at hle

/-- A property of texts that concatenation keeps, of the literals and of the scope, is one of the
values. -/
theorem forall_resolve {P : List α → Prop} (hnil : P []) (happend : ∀ s t, P s → P t → P (s ++ t))
    (hscope : ∀ name, ∀ s ∈ scope name, P s)
    (hlines : ∀ line ∈ lines, ∀ s, .literal s ∈ line.value → P s) :
    ∀ entry ∈ resolve scope lines, P entry.2 := by
  suffices ∀ values : List (ν × List α), (∀ entry ∈ values, P entry.2) →
      ∀ entry ∈ resolveFrom scope values lines, P entry.2 from this [] (by simp)
  induction lines with
  | nil => exact fun values h => h
  | cons line lines ih =>
    intro values hvalues
    have hpiece : ∀ piece ∈ line.value, P (expand scope values piece) := by
      intro piece hpiece
      cases piece with
      | literal s => exact hlines line List.mem_cons_self s hpiece
      | reference name =>
        cases hs : (scope name).or (get values name) with
        | none => simpa [expand, hs] using hnil
        | some s =>
          rcases Option.or_eq_some_iff.mp hs with h | ⟨-, h⟩
          · simpa [expand, hs] using hscope name s h
          · simpa [expand, hs] using hvalues _ (mem_of_get h)
    have hall : P (expandAll scope values line.value) := by
      suffices ∀ pieces : List (Piece ν α), (∀ piece ∈ pieces, P (expand scope values piece)) →
          P (expandAll scope values pieces) from this _ hpiece
      intro pieces hpieces
      induction pieces with
      | nil => exact hnil
      | cons piece pieces ihp =>
        exact happend _ _ (hpieces piece List.mem_cons_self)
          (ihp fun piece h => hpieces piece (List.mem_cons_of_mem _ h))
    exact ih (fun line h => hlines line (List.mem_cons_of_mem _ h)) _ (forall_assign hvalues hall)

end Resolve

end Template
