import Mathlib.Data.Set.Basic
import Mathlib.Tactic

/-!
# Registers

A register keeps entries under keys, and gives each one a key that it has not given before. Two
entries may clash in one respect or another (`clash`): an operation that would make an entry clash
with another one is refused, with the respects in which it does. What does not fit (`fits`) is not
entered either.

`step` is the answer to an operation and the register after it. `run` takes one operation after the
other and lists them with their answers; where there is none the register stays as it is. In an
`Apart` register no two entries clash, and they never come to (`Apart.run`). In a `Tidy` register no
key is in use before it is given. Then an entry stays as it is under the operations that spare its
key (`entry_run`).
-/

structure Register (α : Type) where
  next : ℕ
  entry : ℕ → Option α

namespace Register

inductive Operation (α : Type) where
  | lookup (key : ℕ)
  | enter (a : α)
  | replace (key : ℕ) (a : α)
  | remove (key : ℕ)
deriving DecidableEq

inductive Answer (ι α : Type) where
  | found (key : ℕ) (a : α)
  | missing
  | refused (respects : Set ι)
  | unfit
  | removed

variable {ι α : Type} (clash : ι → α → α → Prop) (fits : α → Prop)

/-- The respects in which an entry clashes with those under other keys than this one. -/
def conflicts (r : Register α) (key : ℕ) (a : α) : Set ι :=
  {i | ∃ k ≠ key, ∃ b, r.entry k = some b ∧ clash i b a}

def put (r : Register α) (key : ℕ) (a : Option α) : Register α :=
  { r with entry := Function.update r.entry key a }

/-- Give the next key to an entry. -/
def add (r : Register α) (a : α) : Register α :=
  ⟨r.next + 1, Function.update r.entry r.next (some a)⟩

open Classical in
noncomputable def step (r : Register α) : Operation α → Answer ι α × Register α
  | .lookup key =>
    (match r.entry key with
      | some a => .found key a
      | none => .missing, r)
  | .enter a =>
    if r.conflicts clash r.next a = ∅ then
      if fits a then (.found r.next a, r.add a) else (.unfit, r)
    else (.refused (r.conflicts clash r.next a), r)
  | .replace key a =>
    if r.entry key = none then (.missing, r)
    else if r.conflicts clash key a = ∅ then
      if fits a then (.found key a, r.put key (some a)) else (.unfit, r)
    else (.refused (r.conflicts clash key a), r)
  | .remove key =>
    if r.entry key = none then (.missing, r)
    else (.removed, r.put key none)

/-- The operation with its answer, where there is one, and the register after it. -/
noncomputable def respond (r : Register α) :
    Option (Operation α) → Option (Operation α × Answer ι α) × Register α
  | none => (none, r)
  | some operation =>
    (some (operation, (r.step clash fits operation).1), (r.step clash fits operation).2)

noncomputable def run : List (Option (Operation α)) → Register α →
    List (Option (Operation α × Answer ι α)) × Register α
  | [], r => ([], r)
  | operation :: operations, r =>
    let (answer, r) := r.respond clash fits operation
    let (answers, r) := run operations r
    (answer :: answers, r)

/-- The operation leaves what is under the key. -/
def Operation.Spares (key : ℕ) : Operation α → Prop
  | .replace k _ | .remove k => k ≠ key
  | _ => True

/-- No two entries clash. -/
def Apart (r : Register α) : Prop :=
  ∀ k k' a b, k ≠ k' → r.entry k = some a → r.entry k' = some b → ∀ i, ¬ clash i a b

/-- No key is in use before it is given. -/
def Tidy (r : Register α) : Prop := ∀ key, r.next ≤ key → r.entry key = none

section Step

variable {clash fits} {r : Register α} {key k : ℕ} {a : α} {x : Option α} {operation : Operation α}

theorem put_self : (r.put key x).entry key = x := Function.update_self ..

theorem put_of_ne (h : k ≠ key) : (r.put key x).entry k = r.entry k := Function.update_of_ne h ..

theorem add_self : (r.add a).entry r.next = some a := Function.update_self ..

theorem add_of_ne (h : k ≠ r.next) : (r.add a).entry k = r.entry k := Function.update_of_ne h ..

variable (clash fits) in
/-- What an operation can make of a register. -/
theorem step_cases (r : Register α) (operation : Operation α) :
    (r.step clash fits operation).2 = r
    ∨ (∃ a, r.conflicts clash r.next a = ∅ ∧ (r.step clash fits operation).2 = r.add a)
    ∨ ∃ key x, ¬ operation.Spares key ∧ r.entry key ≠ none
        ∧ (∀ a, x = some a → r.conflicts clash key a = ∅)
        ∧ (r.step clash fits operation).2 = r.put key x := by
  cases operation with
  | lookup key => exact .inl rfl
  | enter a =>
    by_cases hfree : r.conflicts clash r.next a = ∅
    · by_cases hfits : fits a
      · exact .inr (.inl ⟨a, hfree, by simp [step, hfree, hfits]⟩)
      · exact .inl (by simp [step, hfree, hfits])
    · exact .inl (by simp [step, hfree])
  | replace key a =>
    by_cases hentry : r.entry key = none
    · exact .inl (by simp [step, hentry])
    · by_cases hfree : r.conflicts clash key a = ∅
      · by_cases hfits : fits a
        · refine .inr (.inr ⟨key, some a, fun h => h rfl, hentry, ?_,
            by simp [step, hentry, hfree, hfits]⟩)
          rintro b ⟨⟩
          exact hfree
        · exact .inl (by simp [step, hentry, hfree, hfits])
      · exact .inl (by simp [step, hentry, hfree])
  | remove key =>
    by_cases hentry : r.entry key = none
    · exact .inl (by simp [step, hentry])
    · exact .inr (.inr ⟨key, none, fun h => h rfl, hentry, nofun, by simp [step, hentry]⟩)

theorem next_le_step : r.next ≤ (r.step clash fits operation).2.next := by
  rcases step_cases clash fits r operation with hs | ⟨a, -, hs⟩ | ⟨k, x, -, -, -, hs⟩
  · rw [hs]
  · rw [hs]
    exact Nat.le_succ _
  · rw [hs]
    exact le_rfl

theorem Tidy.lt (h : r.Tidy) (hentry : r.entry key ≠ none) : key < r.next := by
  by_contra hlt
  exact hentry (h key (by omega))

theorem Tidy.step (h : r.Tidy) : (r.step clash fits operation).2.Tidy := by
  intro key hkey
  rcases step_cases clash fits r operation with hs | ⟨a, -, hs⟩ | ⟨k, x, -, hk, -, hs⟩
  · rw [hs] at hkey ⊢
    exact h key hkey
  · rw [hs] at hkey ⊢
    have hlt : r.next + 1 ≤ key := hkey
    rw [add_of_ne (by omega)]
    exact h key (by omega)
  · rw [hs] at hkey ⊢
    have hle : r.next ≤ key := hkey
    have hlt := h.lt hk
    rw [put_of_ne (by omega)]
    exact h key hle

/-- An entry without conflicts clashes with no other. -/
theorem not_clash_of_free (hsymm : ∀ i a b, clash i a b → clash i b a)
    (hfree : r.conflicts clash key a = ∅) {b : α} (hne : k ≠ key) (hb : r.entry k = some b)
    (i : ι) : ¬ clash i a b ∧ ¬ clash i b a := by
  have hmiss : i ∉ r.conflicts clash key a := by simp [hfree]
  have hba : ¬ clash i b a := fun h => hmiss ⟨k, hne, b, hb, h⟩
  exact ⟨fun h => hba (hsymm i a b h), hba⟩

/-- Where clashes are mutual, no operation makes two entries clash. -/
theorem Apart.step (hsymm : ∀ i a b, clash i a b → clash i b a) (h : r.Apart clash) :
    (r.step clash fits operation).2.Apart clash := by
  -- An entry is put where it has no conflicts, the others are as they were.
  have hput : ∀ (r' : Register α) key x, (∀ a, x = some a → r.conflicts clash key a = ∅) →
      r'.entry key = x → (∀ k ≠ key, r'.entry k = r.entry k) → r'.Apart clash := by
    intro r' key x hfree hkey hothers k k' a b hne ha hb i
    by_cases hk : k = key
    · subst hk
      rw [hothers k' (Ne.symm hne)] at hb
      exact (not_clash_of_free hsymm (hfree a (hkey.symm.trans ha)) (Ne.symm hne) hb i).1
    · rw [hothers k hk] at ha
      by_cases hk' : k' = key
      · subst hk'
        exact (not_clash_of_free hsymm (hfree b (hkey.symm.trans hb)) hne ha i).2
      · rw [hothers k' hk'] at hb
        exact h k k' a b hne ha hb i
  rcases step_cases clash fits r operation with hs | ⟨a, hfree, hs⟩ | ⟨k, x, -, -, hfree, hs⟩
  · rw [hs]
    exact h
  · rw [hs]
    refine hput _ r.next (some a) ?_ add_self fun _ hk => add_of_ne hk
    rintro _ ⟨⟩
    exact hfree
  · rw [hs]
    exact hput _ k x hfree put_self fun _ hk => put_of_ne hk

/-- An entry changes under the operations that name its key only. -/
theorem entry_step (hkey : key < r.next) (h : operation.Spares key) :
    (r.step clash fits operation).2.entry key = r.entry key := by
  rcases step_cases clash fits r operation with hs | ⟨a, -, hs⟩ | ⟨k, x, hk, -, -, hs⟩
  · rw [hs]
  · rw [hs, add_of_ne hkey.ne]
  · have hne : key ≠ k := by
      rintro rfl
      exact hk h
    rw [hs, put_of_ne hne]

/-- What an operation found is there. -/
theorem entry_of_found (h : (r.step clash fits operation).1 = .found key a) :
    (r.step clash fits operation).2.entry key = some a := by
  cases operation with
  | lookup k =>
    cases hentry : r.entry k with
    | none => simp [Register.step, hentry] at h
    | some b =>
      simp only [Register.step, hentry, Answer.found.injEq] at h ⊢
      obtain ⟨rfl, rfl⟩ := h
      exact hentry
  | enter b =>
    by_cases hfree : r.conflicts clash r.next b = ∅
    · by_cases hfits : fits b
      · simp only [Register.step, hfree, hfits, if_true, Answer.found.injEq] at h ⊢
        obtain ⟨rfl, rfl⟩ := h
        exact add_self
      · simp [Register.step, hfree, hfits] at h
    · simp [Register.step, hfree] at h
  | replace k b =>
    by_cases hentry : r.entry k = none
    · simp [Register.step, hentry] at h
    · by_cases hfree : r.conflicts clash k b = ∅
      · by_cases hfits : fits b
        · simp only [Register.step, hentry, hfree, hfits, if_false, if_true,
            Answer.found.injEq] at h ⊢
          obtain ⟨rfl, rfl⟩ := h
          exact put_self
        · simp [Register.step, hentry, hfree, hfits] at h
      · simp [Register.step, hentry, hfree] at h
  | remove k =>
    by_cases hentry : r.entry k = none
    · simp [Register.step, hentry] at h
    · simp [Register.step, hentry] at h

end Step

/-! ## Commands in sequence -/

section Run

variable {clash fits} {r : Register α} {key : ℕ} {operations : List (Option (Operation α))}

theorem Tidy.run (h : r.Tidy) : (run clash fits operations r).2.Tidy := by
  induction operations generalizing r with
  | nil => exact h
  | cons operation operations ih =>
    cases operation with
    | none => exact ih h
    | some operation => exact ih h.step

theorem Apart.run (hsymm : ∀ i a b, clash i a b → clash i b a) (h : r.Apart clash) :
    (run clash fits operations r).2.Apart clash := by
  induction operations generalizing r with
  | nil => exact h
  | cons operation operations ih =>
    cases operation with
    | none => exact ih h
    | some operation => exact ih (h.step hsymm)

theorem entry_run (hkey : key < r.next) (h : ∀ operation, some operation ∈ operations →
    operation.Spares key) : (run clash fits operations r).2.entry key = r.entry key := by
  induction operations generalizing r with
  | nil => rfl
  | cons operation operations ih =>
    have htail : ∀ operation, some operation ∈ operations → operation.Spares key :=
      fun c hc => h c (List.mem_cons_of_mem _ hc)
    cases operation with
    | none => exact ih hkey htail
    | some operation =>
      exact (ih (hkey.trans_le next_le_step) htail).trans
        (entry_step hkey (h operation List.mem_cons_self))

end Run

/-! ## Commits -/

/-- What is done to a register at once: entries under the next keys, the first of which is named
where there is one only, or something in the place of an entry. -/
inductive Commit (α : Type) where
  | enter (key : ℕ) (a : α)
  | enterAll (as : List α)
  | put (key : ℕ) (x : Option α)
deriving DecidableEq

/-- Nothing is put under a key that has no entry. -/
def commit (r : Register α) : Commit α → Register α
  | .enter key a => (⟨key, r.entry⟩ : Register α).add a
  | .enterAll as => as.foldl add r
  | .put key x => if (r.entry key).isSome then r.put key x else r

/-- What an operation commits, where the key that it gives is this one. -/
def Operation.commits (key : ℕ) : Operation α → List (Commit α)
  | .lookup _ => []
  | .enter a => [.enter key a]
  | .replace k a => [.put k (some a)]
  | .remove k => [.put k none]

/-- The operation is about the entry under this key. -/
def Operation.At (key : ℕ) : Operation α → Prop
  | .enter _ => True
  | .lookup k | .replace k _ | .remove k => k = key

theorem put_none_eq_self {r : Register α} {key : ℕ} (h : r.entry key = none) :
    r.put key none = r := by
  obtain ⟨next, entry⟩ := r
  simp only [put, Register.mk.injEq, true_and]
  exact Function.update_eq_self_iff.mpr h.symm

end Register
