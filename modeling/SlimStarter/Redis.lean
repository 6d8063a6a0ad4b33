import Mathlib.Logic.Function.Basic
import SlimStarter.Exceptions
import SlimStarter.Php

/-!
# Redis

The commands the cache issues, on a store of string values with optional expiry. `INCR` reads its
value the way Redis does: the canonical text of a 64-bit integer, or an error.

`Counts` says that a key holds a counter that only `INCR` has written; `Counts.incr` is the step
that keeps it.
-/

namespace SlimStarter

namespace Redis

structure Entry where
  value : Bytes
  expiresAt : Option Int
deriving DecidableEq, Repr

abbrev Store := Bytes → Option Entry

/-- Nothing is stored. -/
def empty : Store := fun _ => none

def Entry.expired (e : Entry) (now : Int) : Bool := e.expiresAt.any (· ≤ now)

variable (s : Store) (now : Int)

/-- The entry under a key, unless it has expired. -/
def entry (key : Bytes) : Option Entry := (s key).filter fun e => !e.expired now

def get (key : Bytes) : Option Bytes := (entry s now key).map (·.value)

def setex (key : Bytes) (ttl : Int) (value : Bytes) : Except Failure Unit × Store :=
  if ttl ≤ 0 then (.error (.runtime "ERR invalid expire time in 'setex' command"), s)
  else (.ok (), Function.update s key (some ⟨value, some (now + ttl)⟩))

/-- The integer that a value denotes to `INCR`. -/
def integer? (value : Bytes) : Option Int :=
  let n : Int := match value with
    | 45 :: digits => -digitsValue digits
    | digits => digitsValue digits
  if intString n = value ∧ -2 ^ 63 ≤ n ∧ n < 2 ^ 63 then some n else none

def incr (key : Bytes) : Except Failure Int × Store :=
  match entry s now key with
  | none => (.ok 1, Function.update s key (some ⟨ascii "1", none⟩))
  | some e =>
    match integer? e.value with
    | none => (.error (.runtime "ERR value is not an integer or out of range"), s)
    | some n =>
      if n = intMax then (.error (.runtime "ERR increment or decrement would overflow"), s)
      else (.ok (n + 1), Function.update s key (some ⟨intString (n + 1), e.expiresAt⟩))

def del (key : Bytes) : ℕ × Store :=
  (if (entry s now key).isSome then 1 else 0, Function.update s key none)

variable {s now}

theorem setex_of_ne {key key' value : Bytes} {ttl : Int} (h : key' ≠ key) :
    (setex s now key ttl value).2 key' = s key' := by
  unfold setex
  split_ifs
  · rfl
  · exact Function.update_of_ne h _ _

theorem incr_of_ne {key key' : Bytes} (h : key' ≠ key) : (incr s now key).2 key' = s key' := by
  unfold incr
  split
  · exact Function.update_of_ne h _ _
  · split
    · rfl
    · split_ifs
      · rfl
      · exact Function.update_of_ne h _ _

theorem del_of_ne {key key' : Bytes} (h : key' ≠ key) : (del s now key).2 key' = s key' :=
  Function.update_of_ne h _ _

theorem get_eq_some {key value : Bytes} (h : get s now key = some value) :
    ∃ e, s key = some e ∧ e.value = value := by
  obtain ⟨e, he, hv⟩ := Option.map_eq_some_iff.mp h
  exact ⟨e, (Option.filter_eq_some_iff.mp he).1, hv⟩

/-! ## Counters -/

/-- The key holds a counter that was incremented `n` times. -/
def Counts (s : Store) (key : Bytes) (n : ℕ) : Prop :=
  s key = if n = 0 then none else some ⟨natString n, none⟩

theorem counts_zero {key : Bytes} (h : s key = none) : Counts s key 0 := h

theorem Counts.congr {s' : Store} {key : Bytes} {n : ℕ} (h : Counts s key n)
    (heq : s' key = s key) : Counts s' key n :=
  heq.trans h

theorem Counts.get {key : Bytes} {n : ℕ} (h : Counts s key n) :
    get s now key = if n = 0 then none else some (natString n) := by
  unfold Redis.get entry
  rw [show s key = _ from h]
  split_ifs <;> simp [Entry.expired]

theorem integer?_natString {n : ℕ} (h : n ≤ intMax) : integer? (natString n) = some (n : Int) := by
  have hcase : (match natString n with
      | 45 :: digits => -(digitsValue digits : Int)
      | digits => digitsValue digits) = (n : Int) := by
    split
    · rename_i digits heq
      exact absurd (isDigit_natString (n := n) (b := 45) (by simp [heq])) (by decide)
    · rw [digitsValue_natString]
  unfold integer?
  rw [hcase]
  unfold intMax at h
  exact if_pos ⟨rfl, by omega, by omega⟩

/-- An increment of a counter counts on, unless it overflows. -/
theorem Counts.incr {key : Bytes} {n : ℕ} (h : Counts s key n) (hn : n ≤ intMax) (now : Int) :
    ((incr s now key).1 = .ok (n + 1 : Int) ∧ Counts (incr s now key).2 key (n + 1)
        ∧ n + 1 ≤ intMax)
      ∨ ((incr s now key).1.isOk = false ∧ (incr s now key).2 = s) := by
  have hkey : s key = _ := h
  by_cases h0 : n = 0
  · subst h0
    have hnone : entry s now key = none := by simp [entry, hkey]
    refine .inl ?_
    simp only [Redis.incr, hnone, Counts, Function.update_self]
    exact ⟨rfl, rfl, by decide⟩
  · have hsome : entry s now key = some ⟨natString n, none⟩ := by
      simp [entry, hkey, h0, Entry.expired]
    simp only [Redis.incr, hsome, integer?_natString hn]
    split_ifs with hmax
    · exact .inr ⟨rfl, rfl⟩
    · refine .inl ⟨rfl, ?_, by omega⟩
      simp only [Counts, Function.update_self]
      rfl

end Redis

end SlimStarter
