import SlimStarter.Lib.Prog

/-!
# Properties that go with composition

A property of programs is `Composed` if it holds of every program that ends at once, and of what is
put together of programs that have it. To have it, a program needs it of the parts it calls only;
that every statement is of one kind is such a property (`composed_only`).
-/

namespace Prog

variable {Op : Type} {Res : Op → Type} {τ ε : Type}

structure Composed (P : (α : Type) → Prog Op Res τ ε α → Prop) : Prop where
  ret : ∀ {α : Type} (a : α), P α (.ret a)
  throw : ∀ {α : Type} (e : ε), P α (.throw e)
  clock : ∀ {α : Type} {k : τ → Prog Op Res τ ε α}, (∀ t, P α (k t)) → P α (.clock k)
  bind : ∀ {α β : Type} {p : Prog Op Res τ ε α} {f : α → Prog Op Res τ ε β},
    P α p → (∀ a, P β (f a)) → P β (p >>= f)
  tryCatch : ∀ {α : Type} {p : Prog Op Res τ ε α} {f : ε → Prog Op Res τ ε α},
    P α p → (∀ e, P α (f e)) → P α (tryCatch p f)

variable {P : (α : Type) → Prog Op Res τ ε α → Prop} {α β : Type}

theorem Composed.map (h : Composed P) {p : Prog Op Res τ ε α} (hp : P α p) (f : α → β) :
    P β (f <$> p) := by
  rw [← bind_pure_comp]
  exact h.bind hp fun a => h.ret (f a)

theorem composed_only (Q : Op → Prop) :
    Composed fun α (p : Prog Op Res τ ε α) => Only Q (fun _ => True) p where
  ret _ := trivial
  throw _ := trivial
  clock h := h
  bind hp hf := only_bind.mpr (hp.mono fun a _ => hf a)
  tryCatch hp hf := hp.tryCatch hf

end Prog
