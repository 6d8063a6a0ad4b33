import Mathlib.Data.List.Basic
import Mathlib.Tactic

/-!
# Tables with an auto-increment key

A `Table` is its rows in insertion order and the key the next insert takes. An update rewrites the
rows its condition selects and says how many these were.
-/

structure Table (ρ : Type) where
  rows : List ρ
  autoIncrement : ℕ
deriving DecidableEq, Repr

namespace Table

variable {ρ : Type}

def insert (t : Table ρ) (row : ℕ → ρ) : Table ρ where
  rows := t.rows ++ [row t.autoIncrement]
  autoIncrement := t.autoIncrement + 1

def update (t : Table ρ) (p : ρ → Bool) (f : ρ → ρ) : Table ρ where
  rows := t.rows.map fun r => if p r then f r else r
  autoIncrement := t.autoIncrement

def affected (t : Table ρ) (p : ρ → Bool) : ℕ := t.rows.countP p

def first (t : Table ρ) (p : ρ → Bool) : Option ρ := t.rows.find? p

variable {t : Table ρ} {p : ρ → Bool} {f : ρ → ρ} {row : ℕ → ρ} {r : ρ}

@[simp] theorem insert_autoIncrement :
    (t.insert row).autoIncrement = t.autoIncrement + 1 := rfl

@[simp] theorem update_autoIncrement : (t.update p f).autoIncrement = t.autoIncrement := rfl

@[simp] theorem mem_insert : r ∈ (t.insert row).rows ↔ r ∈ t.rows ∨ r = row t.autoIncrement := by
  simp [insert]

theorem mem_update : r ∈ (t.update p f).rows ↔
    (r ∈ t.rows ∧ p r = false) ∨ ∃ r' ∈ t.rows, p r' = true ∧ f r' = r := by
  simp only [update, List.mem_map]
  constructor
  · rintro ⟨r', hr', rfl⟩
    cases hp : p r'
    · exact .inl (by simpa [hp] using hr')
    · exact .inr ⟨r', hr', hp, by simp⟩
  · rintro (⟨hr, hp⟩ | ⟨r', hr', hp, rfl⟩)
    · exact ⟨r, hr, by simp [hp]⟩
    · exact ⟨r', hr', by simp [hp]⟩

theorem mem_update_of_mem (h : r ∈ t.rows) :
    (if p r then f r else r) ∈ (t.update p f).rows :=
  List.mem_map.mpr ⟨r, h, rfl⟩

theorem affected_pos : 0 < t.affected p ↔ ∃ r ∈ t.rows, p r = true := List.countP_pos_iff

theorem not_affected_pos : ¬ 0 < t.affected p ↔ ∀ r ∈ t.rows, p r = false := by
  simp [affected_pos]

theorem first_mem (h : t.first p = some r) : r ∈ t.rows ∧ p r = true :=
  ⟨List.mem_of_find?_eq_some h, List.find?_some h⟩

theorem first_eq_none : t.first p = none ↔ ∀ r ∈ t.rows, p r = false := by
  simp [first]

theorem first_isSome : (t.first p).isSome ↔ ∃ r ∈ t.rows, p r = true := by
  simp [first]

/-! ## The primary key -/

/-- `key` is a primary key: no two rows share one, and the next key is larger than all. -/
structure Keyed (key : ρ → ℕ) (t : Table ρ) : Prop where
  distinct : t.rows.Pairwise fun r r' => key r ≠ key r'
  lt : ∀ r ∈ t.rows, key r < t.autoIncrement

variable {key : ρ → ℕ}

theorem Keyed.eq_of_key (h : t.Keyed key) {r r' : ρ} (hr : r ∈ t.rows) (hr' : r' ∈ t.rows)
    (hkey : key r = key r') : r = r' := by
  have hsymm : Std.Symm fun r r' => key r ≠ key r' := ⟨fun _ _ => Ne.symm⟩
  by_contra hne
  exact h.distinct.forall hr hr' hne hkey

theorem Keyed.insert (h : t.Keyed key) (hrow : ∀ id, key (row id) = id) :
    (t.insert row).Keyed key where
  distinct := by
    refine List.pairwise_append.mpr ⟨h.distinct, List.pairwise_singleton _ _, fun r hr r' hr' => ?_⟩
    rw [List.mem_singleton.mp hr', hrow]
    exact (h.lt r hr).ne
  lt := by
    intro r hr
    rw [insert_autoIncrement]
    rcases mem_insert.mp hr with hr | rfl
    · exact Nat.lt_succ_of_lt (h.lt r hr)
    · rw [hrow]
      exact Nat.lt_succ_self _

theorem Keyed.update (h : t.Keyed key) (hf : ∀ r, key (f r) = key r) :
    (t.update p f).Keyed key where
  distinct := by
    refine List.pairwise_map.mpr (h.distinct.imp fun {r r'} hne => ?_)
    split_ifs <;> simpa only [hf] using hne
  lt := by
    intro r hr
    rw [update_autoIncrement]
    rcases mem_update.mp hr with ⟨hr, -⟩ | ⟨r', hr', -, rfl⟩
    · exact h.lt r hr
    · rw [hf]
      exact h.lt r' hr'

end Table
