import Mathlib.Data.Nat.Digits.Lemmas

/-!
# Numerals without a separator

`joined b m n` is the number whose digits in base `b` are those of `m` with those of `n` behind
them (`digits_joined`), and `leading b k n` the number of the first `k` digits of `n`
(`digits_leading`).
-/

namespace Digits

def joined (b m n : ℕ) : ℕ := n + b ^ (Nat.digits b n).length * m

def leading (b k n : ℕ) : ℕ := n / b ^ ((Nat.digits b n).length - k)

variable {b : ℕ}

theorem digits_joined (hb : 1 < b) (m n : ℕ) :
    Nat.digits b (joined b m n) = Nat.digits b n ++ Nat.digits b m :=
  (Nat.digits_append_digits (Nat.zero_lt_of_lt hb)).symm

theorem digits_div (hb : 1 < b) (n : ℕ) : Nat.digits b (n / b) = (Nat.digits b n).tail := by
  rcases Nat.eq_zero_or_pos n with rfl | hn
  · simp
  · rw [Nat.digits_def' hb hn, List.tail_cons]

theorem digits_div_pow (hb : 1 < b) (n i : ℕ) :
    Nat.digits b (n / b ^ i) = (Nat.digits b n).drop i := by
  induction i with
  | zero => simp
  | succ i ih =>
    rw [pow_succ, ← Nat.div_div_eq_div_mul, digits_div hb, ih, List.tail_drop]

theorem digits_leading (hb : 1 < b) (k n : ℕ) :
    (Nat.digits b (leading b k n)).reverse = (Nat.digits b n).reverse.take k := by
  rw [leading, digits_div_pow hb, List.take_reverse]

end Digits
