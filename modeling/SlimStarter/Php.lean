import Mathlib.Data.List.DropRight
import Mathlib.Data.Nat.Digits.Lemmas
import Mathlib.Tactic
import SlimStarter.Lib.Digits

/-!
# The PHP the code is written in

PHP strings are byte strings, and the functions here are PHP's own on bytes: `trim`, `strtolower`,
which folds the ASCII letters only, the texts of integers, and the parts of a file name. A stored
`datetime` is a reading of the local clock; `Zone` carries the offsets that `date` and `strtotime`
go through.
-/

namespace SlimStarter

open Digits (joined leading digits_joined digits_leading)

abbrev Bytes := List UInt8

-- What `decide` needs to test whether a text is one of a list.
instance : LawfulBEq Bytes := inferInstance

/-- The bytes of an ASCII literal. -/
def ascii (s : String) : Bytes := s.toList.map fun c => UInt8.ofNat c.toNat

/-- The bytes `trim` strips: space, tab, line feed, carriage return, NUL and vertical tab. -/
def isTrimByte (b : UInt8) : Bool := b = 32 || b = 9 || b = 10 || b = 13 || b = 0 || b = 11

def trim (s : Bytes) : Bytes := (s.dropWhile isTrimByte).rdropWhile isTrimByte

def strtolower (s : Bytes) : Bytes := s.map fun b => if 65 ≤ b ∧ b ≤ 90 then b + 32 else b

/-- `implode($separator, $pieces)`. -/
def implode (separator : Bytes) (pieces : List Bytes) : Bytes := separator.intercalate pieces

/-- `explode($separator, $s)` at a single byte. -/
def explode (separator : UInt8) (s : Bytes) : List Bytes := s.splitOn separator

theorem forall_byte {P : UInt8 → Prop} (h : ∀ n : Fin 256, P (UInt8.ofNat n)) (b : UInt8) :
    P b := by
  simpa only [UInt8.ofNat_toNat] using h ⟨b.toNat, b.toNat_lt⟩

theorem isTrimByte_lower :
    (isTrimByte ∘ fun b : UInt8 => if 65 ≤ b ∧ b ≤ 90 then b + 32 else b) = isTrimByte :=
  funext (forall_byte (by decide +kernel))

@[simp] theorem trim_strtolower (s : Bytes) : trim (strtolower s) = strtolower (trim s) := by
  unfold trim strtolower
  rw [List.dropWhile_map, isTrimByte_lower]
  simp only [List.rdropWhile, ← List.map_reverse, List.dropWhile_map, isTrimByte_lower]

@[simp] theorem strtolower_strtolower (s : Bytes) : strtolower (strtolower s) = strtolower s := by
  unfold strtolower
  rw [List.map_map]
  exact List.map_congr_left fun b _ => forall_byte (P := fun b =>
    ((fun b : UInt8 => if 65 ≤ b ∧ b ≤ 90 then b + 32 else b) ∘
      fun b : UInt8 => if 65 ≤ b ∧ b ≤ 90 then b + 32 else b) b
        = if 65 ≤ b ∧ b ≤ 90 then b + 32 else b) (by decide +kernel) b

@[simp] theorem trim_trim (s : Bytes) : trim (trim s) = trim s := by
  have hhead : (trim s).dropWhile isTrimByte = trim s := by
    rw [List.dropWhile_eq_self_iff]
    intro hpos
    have hpre : trim s <+: s.dropWhile isTrimByte := List.rdropWhile_prefix _ _
    have hpos' : 0 < (s.dropWhile isTrimByte).length := lt_of_lt_of_le hpos hpre.length_le
    rw [hpre.getElem hpos]
    exact List.dropWhile_get_zero_not _ _ hpos'
  unfold trim at hhead ⊢
  rw [hhead, List.rdropWhile_idempotent]

/-- The width in bytes of the UTF-8 character that starts with this byte. -/
def mbWidth (b : UInt8) : ℕ :=
  if 0xC2 ≤ b ∧ b ≤ 0xDF then 2
  else if 0xE0 ≤ b ∧ b ≤ 0xEF then 3
  else if 0xF0 ≤ b ∧ b ≤ 0xF4 then 4
  else 1

/-- The characters of a text whose first bytes, `skip` of them, belong to the character before. -/
def mbStrlenFrom : ℕ → Bytes → ℕ
  | _, [] => 0
  | 0, b :: s => mbStrlenFrom (mbWidth b - 1) s + 1
  | skip + 1, _ :: s => mbStrlenFrom skip s

/-- `mb_strlen($s)`. -/
def mbStrlen (s : Bytes) : ℕ := mbStrlenFrom 0 s

theorem mbWidth_le (b : UInt8) : mbWidth b ≤ 4 := by
  unfold mbWidth
  split_ifs <;> omega

theorem length_le_mbStrlenFrom {skip : ℕ} (h : skip ≤ 3) (s : Bytes) :
    s.length ≤ skip + 4 * mbStrlenFrom skip s := by
  induction s generalizing skip with
  | nil => simp
  | cons b s ih =>
    cases skip with
    | zero =>
      have hw := mbWidth_le b
      have hs := ih (show mbWidth b - 1 ≤ 3 by omega)
      simp only [mbStrlenFrom, List.length_cons]
      omega
    | succ skip =>
      have hs := ih (show skip ≤ 3 by omega)
      simp only [mbStrlenFrom, List.length_cons]
      omega

theorem length_le_mbStrlen (s : Bytes) : s.length ≤ 4 * mbStrlen s := by
  simpa [mbStrlen] using length_le_mbStrlenFrom (Nat.zero_le 3) s

/-! ## Integers as text -/

/-- `PHP_INT_MAX`. -/
def intMax : ℕ := 2 ^ 63 - 1

def isDigit (b : UInt8) : Bool := 48 ≤ b && b ≤ 57

/-- `(string) $n` of a natural number. -/
def natString (n : ℕ) : Bytes :=
  if n = 0 then [48] else (Nat.digits 10 n).reverse.map fun d => UInt8.ofNat (48 + d)

/-- `(string) $n`. -/
def intString : Int → Bytes
  | .ofNat n => natString n
  | .negSucc n => 45 :: natString (n + 1)

/-- The number that a text of digits denotes. -/
def digitsValue (s : Bytes) : ℕ := Nat.ofDigits 10 (s.reverse.map fun b => b.toNat - 48)

/-- `ctype_digit($s)`. -/
def ctypeDigit (s : Bytes) : Bool := !s.isEmpty && s.all isDigit

/-- `(int) $s` of a text of digits, which saturates. -/
def intval (s : Bytes) : ℕ := min (digitsValue s) intMax

theorem toNat_digit {d : ℕ} (h : d < 10) : (UInt8.ofNat (48 + d)).toNat = 48 + d := by
  simp only [UInt8.toNat_ofNat']
  omega

theorem isDigit_natString {n : ℕ} {b : UInt8} (h : b ∈ natString n) : isDigit b = true := by
  unfold natString at h
  split_ifs at h
  · simp only [List.mem_singleton] at h
    subst h
    rfl
  · simp only [List.mem_map, List.mem_reverse] at h
    obtain ⟨d, hd, rfl⟩ := h
    have hlt := Nat.digits_lt_base (by norm_num) hd
    simp only [isDigit, UInt8.le_iff_toNat_le, toNat_digit hlt, Bool.and_eq_true, decide_eq_true_eq]
    exact ⟨by simp, by simp; omega⟩

@[simp] theorem digitsValue_natString (n : ℕ) : digitsValue (natString n) = n := by
  unfold natString
  split_ifs with h
  · rw [h]
    rfl
  · have hdigits : ((Nat.digits 10 n).map fun d => (UInt8.ofNat (48 + d)).toNat - 48)
        = Nat.digits 10 n := by
      conv_rhs => rw [← List.map_id (Nat.digits 10 n)]
      refine List.map_congr_left fun d hd => ?_
      rw [toNat_digit (Nat.digits_lt_base (by norm_num) hd), Nat.add_sub_cancel_left, id]
    simp only [digitsValue, ← List.map_reverse, List.reverse_reverse, List.map_map,
      Function.comp_def, hdigits, Nat.ofDigits_digits]

theorem natString_injective : Function.Injective natString :=
  Function.LeftInverse.injective digitsValue_natString

theorem natString_ne_nil (n : ℕ) : natString n ≠ [] := by
  unfold natString
  split_ifs with h
  · simp
  · simpa [Nat.digits_ne_nil_iff_ne_zero] using h

@[simp] theorem ctypeDigit_natString (n : ℕ) : ctypeDigit (natString n) = true := by
  simp only [ctypeDigit, Bool.and_eq_true, Bool.not_eq_true', List.isEmpty_eq_false_iff,
    List.all_eq_true]
  exact ⟨natString_ne_nil n, fun b hb => isDigit_natString hb⟩

/-- A byte that is neither a digit nor the minus sign is none of an integer's. -/
theorem notMem_intString {b : UInt8} (hdigit : isDigit b = false) (hsign : b ≠ 45) (n : Int) :
    b ∉ intString n := by
  have hdigits : ∀ m : ℕ, b ∉ natString m := by
    intro m hm
    rw [isDigit_natString hm] at hdigit
    cases hdigit
  cases n with
  | ofNat n => exact hdigits n
  | negSucc n => simpa [intString, hsign] using hdigits (n + 1)

theorem intString_injective : Function.Injective intString := by
  have hsign : ∀ {m n : ℕ}, natString m ≠ 45 :: natString n := by
    intro m n heq
    have hdigit := isDigit_natString (n := m) (b := 45) (by simp [heq])
    exact absurd hdigit (by decide)
  intro m n heq
  cases m with
  | ofNat m =>
    cases n with
    | ofNat n => exact congrArg Int.ofNat (natString_injective heq)
    | negSucc n => exact absurd heq hsign
  | negSucc m =>
    cases n with
    | ofNat n => exact absurd heq.symm hsign
    | negSucc n =>
      have hsucc := natString_injective (List.cons_eq_cons.mp heq).2
      exact congrArg Int.negSucc (Nat.succ_injective hsucc)

theorem natString_of_pos {n : ℕ} (h : 0 < n) :
    natString n = (Nat.digits 10 n).reverse.map fun d => UInt8.ofNat (48 + d) :=
  if_neg h.ne'

/-- Two numerals one after the other are the one of the joined number. -/
theorem natString_append {m n : ℕ} (hm : 0 < m) (hn : 0 < n) :
    natString m ++ natString n = natString (joined 10 m n) := by
  have hjoined : 0 < joined 10 m n := Nat.add_pos_left hn _
  rw [natString_of_pos hm, natString_of_pos hn, natString_of_pos hjoined,
    digits_joined (by decide), List.reverse_append, List.map_append]

theorem take_natString {n k : ℕ} (hn : 0 < n) (hk : 0 < k) :
    (natString n).take k = natString (leading 10 k n) := by
  have hdigits := digits_leading (b := 10) (by decide) k n
  have hleading : 0 < leading 10 k n := by
    refine Nat.pos_of_ne_zero fun hzero => ?_
    rw [hzero, Nat.digits_zero, List.reverse_nil] at hdigits
    have hne : Nat.digits 10 n ≠ [] := Nat.digits_ne_nil_iff_ne_zero.mpr hn.ne'
    simp [hk.ne', hne] at hdigits
  rw [natString_of_pos hn, natString_of_pos hleading, hdigits, List.map_take]

/-- `basename($path)`: what follows the last separator, but for trailing separators. -/
def basename (path : Bytes) : Bytes := (path.rdropWhile (· = 47)).rtakeWhile (· ≠ 47)

/-- `pathinfo($path, PATHINFO_EXTENSION)`, empty where the name has no dot. -/
def pathinfoExtension (path : Bytes) : Bytes :=
  if 46 ∈ basename path then (basename path).rtakeWhile (· ≠ 46) else []

/-! ## Local time -/

/-- A reading of the local clock, written `Y-m-d H:i:s` where it is stored. The texts of two
readings are ordered as the readings are. -/
structure LocalTime where
  clock : Int
deriving DecidableEq, Repr

instance : LT LocalTime := ⟨fun a b => a.clock < b.clock⟩

instance (a b : LocalTime) : Decidable (a < b) := inferInstanceAs (Decidable (a.clock < b.clock))

/-- A timezone: the offset of the local clock before the first change, and the changes in
chronological order, each with its instant and the offset from then on. -/
structure Zone where
  base : Int
  changes : List (Int × Int)
deriving DecidableEq, Repr

namespace Zone

variable (z : Zone)

def offset (i : Int) : Int := ((z.changes.filter (·.1 ≤ i)).getLast?.map (·.2)).getD z.base

def offsets : List Int := z.base :: z.changes.map (·.2)

/-- `date(DateFormat::DATETIME, i)`. -/
def date (i : Int) : LocalTime := ⟨i + z.offset i⟩

/-- `strtotime` of a stored reading: the earlier instant where the clock shows it twice, and the
offset from before the gap where the clock skips it. -/
def strtotime (l : LocalTime) : Option Int :=
  match ((z.offsets.map (l.clock - ·)).filter (fun i => z.date i = l)).min? with
  | some i => some i
  | none => some (l.clock - z.offset (l.clock - (z.offsets.max?.getD z.base)))

/-- A zone whose clock is never changed. -/
def Fixed : Prop := z.changes = []

variable {z}

theorem Fixed.date (h : z.Fixed) (i : Int) : z.date i = ⟨i + z.base⟩ := by
  simp only [Zone.date, offset, show z.changes = [] from h]
  rfl

theorem Fixed.strtotime (h : z.Fixed) (i : Int) : z.strtotime (z.date i) = some i := by
  have ho : z.offsets = [z.base] := by simp [offsets, show z.changes = [] from h]
  simp [Zone.strtotime, ho, h.date]

theorem Fixed.date_lt (h : z.Fixed) {i j : Int} : z.date i < z.date j ↔ i < j := by
  rw [h.date, h.date]
  exact Int.add_lt_add_iff_right _

end Zone

end SlimStarter
