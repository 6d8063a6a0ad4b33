import SlimStarter.Lib.Prog

/-!
# The statements that a run issues

`issued exec now p s` lists the statements that `p` issues when it runs alone from the store `s`, in
order. It comes apart where the run does: at a bind (`issued_bind`) and at a `finally`
(`issued_tryFinally`).
-/

namespace Prog

variable {Op : Type} {Res : Op → Type} {τ ε σ α β : Type}
variable (exec : Handler Op Res τ ε σ) (now : τ)

/-- The statements of a run, in order. -/
def issued : Prog Op Res τ ε α → σ → List Op
  | ret _, _ => []
  | throw _, _ => []
  | clock k, s => issued (k now) s
  | call op k, s => op :: issued (k (exec op now s).1) (exec op now s).2

@[simp] theorem issued_ret (a : α) (s : σ) :
    issued exec now (ret a : Prog Op Res τ ε α) s = [] := rfl

@[simp] theorem issued_throw (e : ε) (s : σ) :
    issued exec now (throw e : Prog Op Res τ ε α) s = [] := rfl

@[simp] theorem issued_clock (k : τ → Prog Op Res τ ε α) (s : σ) :
    issued exec now (clock k) s = issued exec now (k now) s := rfl

@[simp] theorem issued_call (op : Op) (k : Except ε (Res op) → Prog Op Res τ ε α) (s : σ) :
    issued exec now (call op k) s =
      op :: issued exec now (k (exec op now s).1) (exec op now s).2 := rfl

theorem issued_stmt (op : Op) (s : σ) :
    issued exec now (stmt op : Prog Op Res τ ε (Res op)) s = [op] := by
  simp only [stmt, issued_call]
  cases (exec op now s).1 <;> rfl

variable {exec now}

/-- A bind issues what its first part does and, where that returned, what the rest does. -/
theorem issued_bind {p : Prog Op Res τ ε α} {f : α → Prog Op Res τ ε β} {s s' : σ} {a : α}
    (h : run exec now p s = (.ok a, s')) :
    issued exec now (p >>= f) s = issued exec now p s ++ issued exec now (f a) s' := by
  induction p generalizing s with
  | ret b =>
    obtain ⟨rfl, rfl⟩ : b = a ∧ s = s' := by simpa using h
    rfl
  | throw e => simp at h
  | clock k ih => exact ih now h
  | call op k ih => exact congrArg (op :: ·) (ih _ h)

theorem issued_bind_of_nil {f : α → Prog Op Res τ ε β}
    (hf : ∀ a s, issued exec now (f a) s = []) (p : Prog Op Res τ ε α) (s : σ) :
    issued exec now (p >>= f) s = issued exec now p s := by
  induction p generalizing s with
  | ret a => exact hf a s
  | throw e => rfl
  | clock k ih => exact ih now s
  | call op k ih => exact congrArg (op :: ·) (ih _ _)

theorem issued_map (f : α → β) (p : Prog Op Res τ ε α) (s : σ) :
    issued exec now (f <$> p) s = issued exec now p s := by
  rw [← bind_pure_comp]
  exact issued_bind_of_nil (fun _ _ => rfl) p s

/-- The clean-up comes last. -/
theorem issued_tryFinally (q : Prog Op Res τ ε Unit) (p : Prog Op Res τ ε α) (s : σ) :
    issued exec now (tryFinally q p) s =
      issued exec now p s ++ issued exec now q (run exec now p s).2 := by
  induction p generalizing s with
  | ret a => exact issued_bind_of_nil (fun _ _ => rfl) q s
  | throw e => exact issued_bind_of_nil (fun _ _ => rfl) q s
  | clock k ih => exact ih now s
  | call op k ih => exact congrArg (op :: ·) (ih _ _)

/-- Of the statements of a run, a program issues no others than it can. -/
theorem Only.issued {Q : Op → Prop} {A : α → Prop} {p : Prog Op Res τ ε α} (h : Only Q A p)
    (s : σ) : ∀ op ∈ p.issued exec now s, Q op := by
  induction p generalizing s with
  | ret a => simp
  | throw e => simp
  | clock k ih => exact ih now (h now) s
  | call op k ih => exact List.forall_mem_cons.mpr ⟨h.1, ih _ (h.2 _) _⟩

end Prog
