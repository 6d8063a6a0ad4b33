import SlimStarter.Lib.Rely

/-!
# What a program throws

`FailsWith N` is said of the replies of a store whose statements fail with exceptions of `N` only,
and `Throws N P` of a program that then throws exceptions of `P` only.
-/

namespace Prog

variable {Op Op' : Type} {Res : Op → Type} {Res' : Op' → Type} {τ ε α β : Type}

def FailsWith (N : ε → Prop) (op : Op) (r : Except ε (Res op)) : Prop := ∀ e, r = .error e → N e

/-- The outcome is no exception but one of `P`. -/
def ThrowsOnly (P : ε → Prop) : Except ε α → Prop
  | .ok _ => True
  | .error e => P e

/-- While statements fail with exceptions of `N`, the program throws exceptions of `P`. -/
abbrev Throws (N P : ε → Prop) (p : Prog Op Res τ ε α) : Prop :=
  Meets (FailsWith N) (fun _ => True) (ThrowsOnly P) p

variable {N P : ε → Prop} {A B : Except ε α → Prop} {p : Prog Op Res τ ε α}

theorem meets_true {R : (op : Op) → Except ε (Res op) → Prop} (p : Prog Op Res τ ε α) :
    Meets R (fun _ => True) (fun _ => True) p := by
  induction p with
  | ret a => trivial
  | throw e => trivial
  | clock k ih => exact fun t => ih t
  | call op k ih => exact ⟨trivial, fun r _ => ih r⟩

/-- A statement fails with an exception of `N`, or the program goes on. -/
theorem meets_call_resume {op : Op} {f : Res op → Prog Op Res τ ε α}
    (hfail : ∀ e, N e → A (.error e)) (h : ∀ a, Meets (FailsWith N) (fun _ => True) A (f a)) :
    Meets (FailsWith N) (fun _ => True) A (call op (resume f)) := by
  refine ⟨trivial, fun r hr => ?_⟩
  cases r with
  | ok a => exact h a
  | error e => exact hfail e (hr e rfl)

/-- What an embedded program comes to. -/
theorem Meets.translate {f : Op → Op'} {g : (op : Op) → Res' (f op) → Res op}
    (h : Meets (FailsWith N) (fun _ => True) A p) :
    Meets (FailsWith N) (fun _ => True) A (p.translate f g) := by
  induction p with
  | ret a => exact h
  | throw e => exact h
  | clock k ih => exact fun t => ih t (h t)
  | call op k ih =>
    refine ⟨trivial, fun r hr => ih _ (h.2 _ fun e he => ?_)⟩
    cases r with
    | ok a => cases he
    | error e' =>
      obtain rfl := Except.error.inj he
      exact hr e' rfl

theorem Throws.mono {P' : ε → Prop} (h : Throws N P p) (hP : ∀ e, P e → P' e) :
    Throws N P' p := by
  refine Meets.mono h fun r hr => ?_
  cases r with
  | ok a => trivial
  | error e => exact hP e hr

theorem throws_ret (a : α) : Throws N P (ret a : Prog Op Res τ ε α) := trivial

section Sequence

variable (hN : ∀ e, N e → P e)

include hN

theorem throws_call_resume {op : Op} {f : Res op → Prog Op Res τ ε α}
    (h : ∀ a, Throws N P (f a)) : Throws N P (call op (resume f)) :=
  meets_call_resume hN h

theorem throws_stmt (op : Op) : Throws N P (stmt op : Prog Op Res τ ε (Res op)) :=
  throws_call_resume hN fun _ => trivial

end Sequence

/-- What the first part throws, and then the rest. -/
theorem Throws.meets_bind {B : Except ε β → Prop} {f : α → Prog Op Res τ ε β}
    (hp : Throws N P p) (hB : ∀ e, P e → B (.error e))
    (hf : ∀ a, Meets (FailsWith N) (fun _ => True) B (f a)) :
    Meets (FailsWith N) (fun _ => True) B (p >>= f) := by
  refine Prog.meets_bind.mpr (Meets.mono hp fun r hr => ?_)
  cases r with
  | ok a => exact hf a
  | error e => exact hB e hr

theorem Throws.bind {f : α → Prog Op Res τ ε β} (hp : Throws N P p) (hf : ∀ a, Throws N P (f a)) :
    Throws N P (p >>= f) :=
  hp.meets_bind (fun _ he => he) hf

theorem Throws.map {f : α → β} (hp : Throws N P p) : Throws N P (f <$> p) := by
  rw [← bind_pure_comp]
  exact hp.bind fun _ => trivial

/-- A guarded part throws nothing: what the handler throws is thrown. -/
theorem throws_tryCatch {f : ε → Prog Op Res τ ε α} (hf : ∀ e, Throws N P (f e)) :
    Throws N P (tryCatch p f) := by
  refine meets_tryCatch.mpr (Meets.mono (meets_true p) fun r _ => ?_)
  cases r with
  | ok a => trivial
  | error e => exact hf e

end Prog
