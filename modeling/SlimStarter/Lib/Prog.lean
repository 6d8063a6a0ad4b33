import Mathlib.Control.Basic
import Mathlib.Tactic.Cases

/-!
# Programs that issue statements

A `Prog` is a piece of code that computes between statements to a store: it returns, throws, reads
the clock, or issues a statement and goes on with the reply. The reply of a statement is a value or
the failure it raised.

`run` executes a program alone on a store; `run_bind` cuts a run at a bind. `settle` reads the
clock as often as the program does before its next statement, so that a settled program stands at a
statement or has ended.
-/

/-- Code over the statements `Op`, whose replies have the types `Res`. -/
inductive Prog (Op : Type) (Res : Op → Type) (τ ε α : Type) : Type where
  | ret (a : α)
  | throw (e : ε)
  | clock (k : τ → Prog Op Res τ ε α)
  | call (op : Op) (k : Except ε (Res op) → Prog Op Res τ ε α)

namespace Prog

variable {Op : Type} {Res : Op → Type} {τ ε σ α β : Type}

/-- Go on with `f` where the program returns. -/
def bind : Prog Op Res τ ε α → (α → Prog Op Res τ ε β) → Prog Op Res τ ε β
  | ret a, f => f a
  | throw e, _ => throw e
  | clock k, f => clock fun t => (k t).bind f
  | call op k, f => call op fun r => (k r).bind f

instance : Monad (Prog Op Res τ ε) where
  pure := ret
  bind := bind

@[simp] theorem pure_eq (a : α) : (pure a : Prog Op Res τ ε α) = ret a := rfl

@[simp] theorem ret_bind (a : α) (f : α → Prog Op Res τ ε β) : ret a >>= f = f a := rfl

@[simp] theorem throw_bind (e : ε) (f : α → Prog Op Res τ ε β) :
    (throw e : Prog Op Res τ ε α) >>= f = throw e := rfl

@[simp] theorem clock_bind (k : τ → Prog Op Res τ ε α) (f : α → Prog Op Res τ ε β) :
    clock k >>= f = clock fun t => k t >>= f := rfl

@[simp] theorem call_bind (op : Op) (k : Except ε (Res op) → Prog Op Res τ ε α)
    (f : α → Prog Op Res τ ε β) : call op k >>= f = call op fun r => k r >>= f := rfl

theorem bind_ret (p : Prog Op Res τ ε α) : p >>= ret = p := by
  induction p with
  | ret a => rfl
  | throw e => rfl
  | clock k ih => simp [ih]
  | call op k ih => simp [ih]

theorem bind_assoc {γ : Type} (p : Prog Op Res τ ε α) (f : α → Prog Op Res τ ε β)
    (g : β → Prog Op Res τ ε γ) : p >>= f >>= g = p >>= fun a => f a >>= g := by
  induction p with
  | ret a => rfl
  | throw e => rfl
  | clock k ih => simp [ih]
  | call op k ih => simp [ih]

instance : LawfulMonad (Prog Op Res τ ε) :=
  LawfulMonad.mk' _ bind_ret (fun _ _ => rfl) bind_assoc

/-- Where the program throws, go on with the handler. -/
def tryCatch : Prog Op Res τ ε α → (ε → Prog Op Res τ ε α) → Prog Op Res τ ε α
  | ret a, _ => ret a
  | throw e, h => h e
  | clock k, h => clock fun t => (k t).tryCatch h
  | call op k, h => call op fun r => (k r).tryCatch h

/-- Run `q` where the program ends, then return or throw as it did. -/
def tryFinally (q : Prog Op Res τ ε Unit) : Prog Op Res τ ε α → Prog Op Res τ ε α
  | ret a => q >>= fun _ => ret a
  | throw e => q >>= fun _ => throw e
  | clock k => clock fun t => tryFinally q (k t)
  | call op k => call op fun r => tryFinally q (k r)

/-- Go on with `f` after a reply, rethrowing the failure of a statement that failed. -/
def resume {op : Op} (f : Res op → Prog Op Res τ ε α) : Except ε (Res op) → Prog Op Res τ ε α
  | .ok r => f r
  | .error e => throw e

@[simp] theorem resume_ok {op : Op} (f : Res op → Prog Op Res τ ε α) (r : Res op) :
    resume f (.ok r) = f r := rfl

@[simp] theorem resume_error {op : Op} (f : Res op → Prog Op Res τ ε α) (e : ε) :
    resume f (.error e) = throw e := rfl

/-- Issue one statement and return its reply. -/
def stmt (op : Op) : Prog Op Res τ ε (Res op) := call op (resume ret)

/-- Read the clock. -/
def time : Prog Op Res τ ε τ := clock ret

@[simp] theorem stmt_bind (op : Op) (f : Res op → Prog Op Res τ ε α) :
    stmt op >>= f = call op (resume f) := by
  simp only [stmt, call_bind]
  congr 1
  funext r
  cases r <;> rfl

@[simp] theorem time_bind (f : τ → Prog Op Res τ ε α) : time >>= f = clock f := rfl

@[simp] theorem stmt_map (op : Op) (f : Res op → α) :
    f <$> (stmt op : Prog Op Res τ ε _) = call op (resume fun r => ret (f r)) := by
  rw [← bind_pure_comp, stmt_bind]
  rfl

@[simp] theorem map_ret (f : α → β) (a : α) : f <$> (ret a : Prog Op Res τ ε α) = ret (f a) := rfl

@[simp] theorem map_throw (f : α → β) (e : ε) :
    f <$> (throw e : Prog Op Res τ ε α) = throw e := rfl

@[simp] theorem map_clock (f : α → β) (k : τ → Prog Op Res τ ε α) :
    f <$> clock k = clock fun t => f <$> k t := rfl

@[simp] theorem map_call_resume (f : α → β) (op : Op) (k : Res op → Prog Op Res τ ε α) :
    f <$> call op (resume k) = call op (resume fun r => f <$> k r) := by
  rw [← bind_pure_comp, call_bind]
  congr 1
  funext r
  cases r <;> rfl

@[simp] theorem bind_call_resume (op : Op) (k : Res op → Prog Op Res τ ε α)
    (f : α → Prog Op Res τ ε β) :
    call op (resume k) >>= f = call op (resume fun r => k r >>= f) := by
  rw [call_bind]
  congr 1
  funext r
  cases r <;> rfl

/-! ## Running alone -/

/-- A store: what a statement replies at an instant, and the store after it. -/
abbrev Handler (Op : Type) (Res : Op → Type) (τ ε σ : Type) : Type :=
  (op : Op) → τ → σ → Except ε (Res op) × σ

variable (exec : Handler Op Res τ ε σ) (now : τ)

/-- Execute the program alone, every clock reading being `now`. -/
def run : Prog Op Res τ ε α → σ → Except ε α × σ
  | ret a, s => (.ok a, s)
  | throw e, s => (.error e, s)
  | clock k, s => run (k now) s
  | call op k, s => run (k (exec op now s).1) (exec op now s).2

@[simp] theorem run_ret (a : α) (s : σ) : run exec now (ret a) s = (.ok a, s) := rfl

@[simp] theorem run_throw (e : ε) (s : σ) :
    run exec now (throw e : Prog Op Res τ ε α) s = (.error e, s) := rfl

@[simp] theorem run_clock (k : τ → Prog Op Res τ ε α) (s : σ) :
    run exec now (clock k) s = run exec now (k now) s := rfl

@[simp] theorem run_call (op : Op) (k : Except ε (Res op) → Prog Op Res τ ε α) (s : σ) :
    run exec now (call op k) s = run exec now (k (exec op now s).1) (exec op now s).2 := rfl

theorem run_stmt (op : Op) (s : σ) :
    run exec now (stmt op : Prog Op Res τ ε _) s = exec op now s := by
  rw [stmt, run_call]
  rcases exec op now s with ⟨_ | _, s'⟩ <;> rfl

/-- A run of a bind is a run of the first part and, where it returned, one of the rest. -/
theorem run_bind (p : Prog Op Res τ ε α) (f : α → Prog Op Res τ ε β) (s : σ) :
    run exec now (p >>= f) s =
      match run exec now p s with
      | (.ok a, s') => run exec now (f a) s'
      | (.error e, s') => (.error e, s') := by
  induction p generalizing s with
  | ret a => rfl
  | throw e => rfl
  | clock k ih => exact ih now s
  | call op k ih => exact ih _ _

theorem run_map (f : α → β) (p : Prog Op Res τ ε α) (s : σ) :
    run exec now (f <$> p) s = ((run exec now p s).1.map f, (run exec now p s).2) := by
  rw [← bind_pure_comp, run_bind]
  rcases run exec now p s with ⟨_ | a, s'⟩ <;> rfl

/-- The part a `try` guards runs first, and where it throws the handler goes on. -/
theorem run_tryCatch (p : Prog Op Res τ ε α) (f : ε → Prog Op Res τ ε α) (s : σ) :
    run exec now (tryCatch p f) s =
      match run exec now p s with
      | (.ok a, s') => (.ok a, s')
      | (.error e, s') => run exec now (f e) s' := by
  induction p generalizing s with
  | ret a => rfl
  | throw e => rfl
  | clock k ih => exact ih now s
  | call op k ih => exact ih _ _

/-- The part a `finally` guards runs first, and its outcome survives a clean-up that returns. -/
theorem run_tryFinally (q : Prog Op Res τ ε Unit) (p : Prog Op Res τ ε α) (s : σ) :
    run exec now (tryFinally q p) s =
      match run exec now q (run exec now p s).2 with
      | (.ok _, s') => ((run exec now p s).1, s')
      | (.error e, s') => (.error e, s') := by
  induction p generalizing s with
  | ret a =>
    simp only [tryFinally, run_bind, run_ret]
    rcases run exec now q s with ⟨_ | _, _⟩ <;> rfl
  | throw e =>
    simp only [tryFinally, run_bind, run_throw]
    rcases run exec now q s with ⟨_ | _, _⟩ <;> rfl
  | clock k ih => exact ih now s
  | call op k ih => exact ih _ _

/-- Read the clock until the next statement or the end. -/
def settle : Prog Op Res τ ε α → Prog Op Res τ ε α
  | clock k => settle (k now)
  | ret a => ret a
  | throw e => throw e
  | call op k => call op k

@[simp] theorem settle_ret (a : α) :
    settle now (ret a : Prog Op Res τ ε α) = ret a := rfl

@[simp] theorem settle_throw (e : ε) :
    settle now (throw e : Prog Op Res τ ε α) = throw e := rfl

@[simp] theorem settle_clock (k : τ → Prog Op Res τ ε α) :
    settle now (clock k) = settle now (k now) := rfl

@[simp] theorem settle_call (op : Op) (k : Except ε (Res op) → Prog Op Res τ ε α) :
    settle now (call op k) = call op k := rfl

/-- The statement a settled program stands at. -/
def statement? : Prog Op Res τ ε α → Option Op
  | call op _ => some op
  | _ => none

theorem statement?_eq_some {p : Prog Op Res τ ε α} {op : Op} :
    p.statement? = some op ↔ ∃ k, p = call op k := by
  constructor
  · intro h
    cases p with
    | call op' k =>
      obtain rfl := Option.some.inj h
      exact ⟨k, rfl⟩
    | _ => simp [statement?] at h
  · rintro ⟨k, rfl⟩
    rfl

/-- The program has returned or thrown. -/
def ended : Prog Op Res τ ε α → Bool
  | ret _ | throw _ => true
  | _ => false

/-! ## What a program can issue -/

/-- Whatever the replies, every statement satisfies `Q` and every result `A`. -/
def Only (Q : Op → Prop) (A : α → Prop) : Prog Op Res τ ε α → Prop
  | ret a => A a
  | throw _ => True
  | clock k => ∀ t, Only Q A (k t)
  | call op k => Q op ∧ ∀ r, Only Q A (k r)

/-- Whatever the replies, every statement satisfies `Q`, but for at most one that satisfies `P`. -/
def Once (P Q : Op → Prop) : Prog Op Res τ ε α → Prop
  | ret _ => True
  | throw _ => True
  | clock k => ∀ t, Once P Q (k t)
  | call op k => (Q op ∧ ∀ r, Once P Q (k r)) ∨ (P op ∧ ∀ r, Only Q (fun _ => True) (k r))

section Issue

variable {P Q : Op → Prop} {A : α → Prop}

@[simp] theorem only_ret {a : α} : Only Q A (ret a : Prog Op Res τ ε α) ↔ A a := Iff.rfl

@[simp] theorem only_throw {e : ε} : Only Q A (throw e : Prog Op Res τ ε α) := trivial

@[simp] theorem only_clock {k : τ → Prog Op Res τ ε α} :
    Only Q A (clock k) ↔ ∀ t, Only Q A (k t) := Iff.rfl

@[simp] theorem only_call_resume {op : Op} {f : Res op → Prog Op Res τ ε α} :
    Only Q A (call op (resume f)) ↔ Q op ∧ ∀ a, Only Q A (f a) := by
  refine and_congr_right fun _ => ⟨fun h a => h (.ok a), fun h r => ?_⟩
  cases r with
  | ok a => exact h a
  | error e => exact only_throw

theorem only_bind {B : β → Prop} {p : Prog Op Res τ ε α} {f : α → Prog Op Res τ ε β} :
    Only Q B (p >>= f) ↔ Only Q (fun a => Only Q B (f a)) p := by
  induction p with
  | ret a => rfl
  | throw e => rfl
  | clock k ih => exact forall_congr' fun t => ih t
  | call op k ih => exact and_congr_right fun _ => forall_congr' fun r => ih r

theorem only_map {B : β → Prop} {p : Prog Op Res τ ε α} {f : α → β} :
    Only Q B (f <$> p) ↔ Only Q (fun a => B (f a)) p := by
  rw [← bind_pure_comp, only_bind]
  rfl

theorem only_stmt {op : Op} {A : Res op → Prop} :
    Only Q A (stmt op : Prog Op Res τ ε _) ↔ Q op ∧ ∀ a, A a := only_call_resume

theorem only_time {A : τ → Prop} : Only Q A (time : Prog Op Res τ ε τ) ↔ ∀ t, A t := Iff.rfl

theorem Only.mono {B : α → Prop} {p : Prog Op Res τ ε α} (h : Only Q A p) (hA : ∀ a, A a → B a) :
    Only Q B p := by
  induction p with
  | ret a => exact hA a h
  | throw e => trivial
  | clock k ih => exact fun t => ih t (h t)
  | call op k ih => exact ⟨h.1, fun r => ih r (h.2 r)⟩

theorem Only.imp {Q' : Op → Prop} {p : Prog Op Res τ ε α} (h : Only Q A p)
    (hQ : ∀ op, Q op → Q' op) : Only Q' A p := by
  induction p with
  | ret a => exact h
  | throw e => trivial
  | clock k ih => exact fun t => ih t (h t)
  | call op k ih => exact ⟨hQ op h.1, fun r => ih r (h.2 r)⟩

/-- Handlers that agree on the statements of a program run it alike. -/
theorem Only.run_congr {σ : Type} {exec exec' : Handler Op Res τ ε σ} {now : τ}
    {p : Prog Op Res τ ε α} (h : Only Q A p) (hexec : ∀ op s, Q op → exec op now s = exec' op now s)
    (s : σ) : run exec now p s = run exec' now p s := by
  induction p generalizing s with
  | ret a => rfl
  | throw e => rfl
  | clock k ih => exact ih now (h now) s
  | call op k ih =>
    simp only [run, hexec op s h.1]
    exact ih _ (h.2 _) _

theorem Only.tryCatch {p : Prog Op Res τ ε α} {f : ε → Prog Op Res τ ε α} (h : Only Q A p)
    (hf : ∀ e, Only Q A (f e)) : Only Q A (tryCatch p f) := by
  induction p with
  | ret a => exact h
  | throw e => exact hf e
  | clock k ih => exact fun t => ih t (h t)
  | call op k ih => exact ⟨h.1, fun r => ih r (h.2 r)⟩

theorem Only.tryFinally {q : Prog Op Res τ ε Unit} {p : Prog Op Res τ ε α} (h : Only Q A p)
    (hq : Only Q (fun _ => True) q) : Only Q A (tryFinally q p) := by
  induction p with
  | ret a => exact only_bind.mpr (hq.mono fun _ _ => h)
  | throw e => exact only_bind.mpr (hq.mono fun _ _ => trivial)
  | clock k ih => exact fun t => ih t (h t)
  | call op k ih => exact ⟨h.1, fun r => ih r (h.2 r)⟩

@[simp] theorem once_ret {a : α} : Once P Q (ret a : Prog Op Res τ ε α) := trivial

@[simp] theorem once_throw {e : ε} : Once P Q (throw e : Prog Op Res τ ε α) := trivial

@[simp] theorem once_clock {k : τ → Prog Op Res τ ε α} :
    Once P Q (clock k) ↔ ∀ t, Once P Q (k t) := Iff.rfl

@[simp] theorem once_call_resume {op : Op} {f : Res op → Prog Op Res τ ε α} :
    Once P Q (call op (resume f)) ↔
      (Q op ∧ ∀ a, Once P Q (f a)) ∨ (P op ∧ ∀ a, Only Q (fun _ => True) (f a)) := by
  refine or_congr (and_congr_right fun _ => ⟨fun h a => h (.ok a), fun h r => ?_⟩)
    (and_congr_right fun _ => ⟨fun h a => h (.ok a), fun h r => ?_⟩)
  · cases r with
    | ok a => exact h a
    | error e => exact once_throw
  · cases r with
    | ok a => exact h a
    | error e => exact only_throw

theorem Only.settle {p : Prog Op Res τ ε α} (h : Only Q A p) : Only Q A (settle now p) := by
  induction p with
  | ret a => exact h
  | throw e => exact h
  | clock k ih => exact ih now (h now)
  | call op k ih => exact h

theorem only_settle_map {p : Prog Op Res τ ε α} {f : α → β}
    (h : Only Q (fun _ => True) (settle now p)) :
    Only Q (fun _ => True) (settle now (f <$> p)) := by
  induction p with
  | ret a => trivial
  | throw e => trivial
  | clock k ih => exact ih now h
  | call op k ih =>
    show Only Q (fun _ => True) (f <$> call op k)
    exact only_map.mpr h

theorem Once.settle {p : Prog Op Res τ ε α} (h : Once P Q p) : Once P Q (settle now p) := by
  induction p with
  | ret a => exact h
  | throw e => exact h
  | clock k ih => exact ih now (h now)
  | call op k ih => exact h

end Issue

end Prog
