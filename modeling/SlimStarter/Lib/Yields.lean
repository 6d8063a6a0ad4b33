import SlimStarter.Lib.Prog

/-!
# Total correctness of a program that runs alone

`Yields exec now p s Q` says that `p`, run from the store `s`, returns, and that what it returns and
the store it leaves satisfy `Q`. The rules follow the program: a bind yields in sequence
(`yields_bind`), and a statement under a `catch` yields whether it succeeds or not
(`yields_tryCatch_stmt`). `capture` turns an exception into a value.
-/

namespace Prog

variable {Op : Type} {Res : Op → Type} {τ ε σ α β : Type}
variable (exec : Handler Op Res τ ε σ) (now : τ)

/-- The program returns, with `Q` of its value and of the store. -/
def Yields (p : Prog Op Res τ ε α) (s : σ) (Q : α → σ → Prop) : Prop :=
  match run exec now p s with
  | (.ok a, s') => Q a s'
  | (.error _, _) => False

/-- The outcome of a program as a value. -/
def capture (p : Prog Op Res τ ε α) : Prog Op Res τ ε (Except ε α) :=
  tryCatch (.ok <$> p) fun e => ret (.error e)

variable {exec now} {p : Prog Op Res τ ε α} {s : σ} {Q : α → σ → Prop}

theorem yields_iff : Yields exec now p s Q ↔ ∃ a s', run exec now p s = (.ok a, s') ∧ Q a s' := by
  unfold Yields
  rcases run exec now p s with ⟨_ | a, s'⟩
  · simp
  · simp [and_assoc]

@[simp] theorem yields_ret {a : α} :
    Yields exec now (ret a : Prog Op Res τ ε α) s Q ↔ Q a s := Iff.rfl

theorem yields_bind {f : α → Prog Op Res τ ε β} {Q : β → σ → Prop} :
    Yields exec now (p >>= f) s Q ↔ Yields exec now p s fun a s' => Yields exec now (f a) s' Q := by
  unfold Yields
  rw [run_bind]
  rcases run exec now p s with ⟨_ | a, s'⟩ <;> rfl

theorem yields_map {f : α → β} {Q : β → σ → Prop} :
    Yields exec now (f <$> p) s Q ↔ Yields exec now p s fun a => Q (f a) := by
  unfold Yields
  rw [run_map]
  rcases run exec now p s with ⟨_ | a, s'⟩ <;> rfl

theorem Yields.mono {Q' : α → σ → Prop} (h : Yields exec now p s Q)
    (hQ : ∀ a s', Q a s' → Q' a s') : Yields exec now p s Q' := by
  obtain ⟨a, s', hrun, ha⟩ := yields_iff.mp h
  exact yields_iff.mpr ⟨a, s', hrun, hQ a s' ha⟩

/-- A statement whose failure is caught, with a value either way. -/
theorem yields_tryCatch_stmt {op : Op} {f : Res op → α} {g : ε → α} :
    Yields exec now (tryCatch (stmt op >>= fun r => ret (f r)) fun e => ret (g e)) s Q ↔
      match (exec op now s).1 with
      | .ok r => Q (f r) (exec op now s).2
      | .error e => Q (g e) (exec op now s).2 := by
  unfold Yields
  rw [stmt_bind]
  simp only [tryCatch, run_call]
  cases (exec op now s).1 <;> rfl

/-! ## Outcomes as values -/

theorem run_capture : run exec now (capture p) s =
    (.ok (run exec now p s).1, (run exec now p s).2) := by
  rw [capture, run_tryCatch, run_map]
  rcases run exec now p s with ⟨_ | a, s'⟩ <;> rfl

@[simp] theorem yields_capture {Q : Except ε α → σ → Prop} :
    Yields exec now (capture p) s Q ↔ Q (run exec now p s).1 (run exec now p s).2 := by
  unfold Yields
  rw [run_capture]

theorem capture_bind {f : Except ε α → Prog Op Res τ ε β} (hf : ∀ e, f (.error e) = throw e) :
    capture p >>= f = p >>= fun a => f (.ok a) := by
  unfold capture
  induction p with
  | ret a => rfl
  | throw e => exact hf e
  | clock k ih => exact congrArg clock (funext ih)
  | call op k ih => exact congrArg (call op) (funext ih)

end Prog
