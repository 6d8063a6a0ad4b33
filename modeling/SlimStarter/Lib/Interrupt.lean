import Mathlib.Data.Nat.Notation
import SlimStarter.Lib.Prog

/-!
# Interrupted runs

`steps n` runs the first `n` statements of a program and says what is left of it, so that the next
one can fail (`failed`). `StandsAt` says the same without the number, and comes apart at a bind
(`StandsAt.bind`) and at a `finally` (`StandsAt.tryFinally`). A program that `Rethrows` hands on the
failure of a statement and does nothing more.

`Always I p s` says that `I` holds of the store wherever a run of `p` from `s` is cut
(`Always.steps`); it is put together at a bind (`Always.bind`). On the store that `counted` gives,
`I` can speak of how many statements of a kind have succeeded so far.
-/

namespace Prog

variable {Op : Type} {Res : Op → Type} {τ ε σ α β : Type}
variable (exec : Handler Op Res τ ε σ) (now : τ)

/-- What is left of a program after its first `n` statements, and the store. -/
def steps : ℕ → Prog Op Res τ ε α → σ → Prog Op Res τ ε α × σ
  | 0, p, s => (p.settle now, s)
  | n + 1, p, s =>
    match p.settle now with
    | call op k => steps n (k (exec op now s).1) (exec op now s).2
    | q => (q, s)

/-- The program after the statement it stands at has failed. -/
def failed (e : ε) : Prog Op Res τ ε α → Prog Op Res τ ε α
  | call _ k => k (.error e)
  | p => p

/-- A run from the store `s` comes to stand at the statement `op`, with `k` to go on with, and the
store is `s'` then. -/
inductive StandsAt : Prog Op Res τ ε α → σ → (op : Op) →
    (Except ε (Res op) → Prog Op Res τ ε α) → σ → Prop where
  | here {op : Op} {k : Except ε (Res op) → Prog Op Res τ ε α} {s : σ} :
      StandsAt (.call op k) s op k s
  | clock {c : τ → Prog Op Res τ ε α} {s s' : σ} {op : Op}
      {k : Except ε (Res op) → Prog Op Res τ ε α} (h : StandsAt (c now) s op k s') :
      StandsAt (.clock c) s op k s'
  | call {op' op : Op} {c : Except ε (Res op') → Prog Op Res τ ε α} {s s' : σ}
      {k : Except ε (Res op) → Prog Op Res τ ε α}
      (h : StandsAt (c (exec op' now s).1) (exec op' now s).2 op k s') :
      StandsAt (.call op' c) s op k s'

variable {exec now} {p : Prog Op Res τ ε α} {s s' : σ} {op : Op}

section Steps

variable {n : ℕ} {k : Except ε (Res op) → Prog Op Res τ ε α}

@[simp] theorem steps_ret (n : ℕ) (a : α) :
    steps exec now n (ret a : Prog Op Res τ ε α) s = (ret a, s) := by
  cases n <;> rfl

@[simp] theorem steps_throw (n : ℕ) (e : ε) :
    steps exec now n (throw e : Prog Op Res τ ε α) s = (throw e, s) := by
  cases n <;> rfl

@[simp] theorem steps_clock (n : ℕ) (c : τ → Prog Op Res τ ε α) :
    steps exec now n (clock c) s = steps exec now n (c now) s := by
  cases n <;> rfl

@[simp] theorem steps_zero_call : steps exec now 0 (call op k) s = (call op k, s) := rfl

@[simp] theorem steps_succ_call : steps exec now (n + 1) (call op k) s =
    steps exec now n (k (exec op now s).1) (exec op now s).2 := rfl

/-- A run goes on from where it was cut. -/
theorem run_steps (n : ℕ) (p : Prog Op Res τ ε α) (s : σ) :
    run exec now (steps exec now n p s).1 (steps exec now n p s).2 = run exec now p s := by
  induction p generalizing n s with
  | ret a => rw [steps_ret]
  | throw e => rw [steps_throw]
  | clock c ih =>
    rw [steps_clock]
    exact ih now n s
  | call op k ih =>
    cases n with
    | zero => rfl
    | succ n => exact ih (exec op now s).1 n (exec op now s).2

theorem steps_map (f : α → β) (n : ℕ) (p : Prog Op Res τ ε α) (s : σ) :
    steps exec now n (f <$> p) s =
      (f <$> (steps exec now n p s).1, (steps exec now n p s).2) := by
  have hcall : ∀ (op : Op) (k : Except ε (Res op) → Prog Op Res τ ε α),
      f <$> call op k = call op fun r => f <$> k r := fun op k => by
    simp only [← bind_pure_comp, call_bind]
  induction p generalizing n s with
  | ret a => simp
  | throw e => simp
  | clock c ih => simpa using ih now n s
  | call op k ih =>
    rw [hcall]
    cases n with
    | zero => simp [hcall]
    | succ n => simpa using ih _ n _

theorem statement?_map (f : α → β) (p : Prog Op Res τ ε α) :
    (f <$> p).statement? = p.statement? := by
  cases p <;> rfl

end Steps

namespace StandsAt

theorem of_settle {k : Except ε (Res op) → Prog Op Res τ ε α}
    (h : StandsAt exec now (p.settle now) s op k s') : StandsAt exec now p s op k s' := by
  induction p with
  | ret a => exact h
  | throw e => exact h
  | clock c ih => exact .clock (ih now h)
  | call op' c => exact h

theorem of_steps {n : ℕ} {k : Except ε (Res op) → Prog Op Res τ ε α}
    (h : steps exec now n p s = (.call op k, s')) : StandsAt exec now p s op k s' := by
  induction n generalizing p s with
  | zero =>
    refine of_settle ?_
    obtain ⟨hp, rfl⟩ := Prod.mk.inj h
    rw [hp]
    exact .here
  | succ n ih =>
    refine of_settle ?_
    unfold steps at h
    split at h
    · rename_i op' c hp
      rw [hp]
      exact .call (ih h)
    · rename_i q hq
      obtain ⟨hp, -⟩ := Prod.mk.inj h
      exact absurd hp (hq _ _)

theorem stmt {op' : Op} {k : Except ε (Res op) → Prog Op Res τ ε (Res op')}
    (h : StandsAt exec now (Prog.stmt op') s op k s') : op = op' ∧ s' = s := by
  cases h with
  | here => exact ⟨rfl, rfl⟩
  | call h =>
    cases hr : (exec op' now s).1 with
    | ok a =>
      rw [hr] at h
      cases h
    | error e =>
      rw [hr] at h
      cases h

/-- A bind stands at a statement of its first part, or of the rest after that has returned. -/
theorem bind {f : α → Prog Op Res τ ε β} {k : Except ε (Res op) → Prog Op Res τ ε β}
    (h : StandsAt exec now (p >>= f) s op k s') :
    (∃ k', StandsAt exec now p s op k' s' ∧ k = fun r => k' r >>= f)
      ∨ ∃ a s₁, p.run exec now s = (.ok a, s₁) ∧ StandsAt exec now (f a) s₁ op k s' := by
  induction p generalizing s with
  | ret a => exact .inr ⟨a, s, rfl, h⟩
  | throw e => cases h
  | clock c ih =>
    cases h with
    | clock h =>
      rcases ih now h with ⟨k', h', hk⟩ | hrest
      · exact .inl ⟨k', .clock h', hk⟩
      · exact .inr hrest
  | call op' c ih =>
    cases h with
    | here => exact .inl ⟨c, .here, rfl⟩
    | call h =>
      rcases ih _ h with ⟨k', h', hk⟩ | hrest
      · exact .inl ⟨k', .call h', hk⟩
      · exact .inr hrest

theorem map {f : α → β} {k : Except ε (Res op) → Prog Op Res τ ε β}
    (h : StandsAt exec now (f <$> p) s op k s') : ∃ k', StandsAt exec now p s op k' s' := by
  rw [← bind_pure_comp] at h
  rcases h.bind with ⟨k', h', -⟩ | ⟨_, _, -, h'⟩
  · exact ⟨k', h'⟩
  · cases h'

/-- A guarded program stands at a statement of its own, or at one of the clean-up. -/
theorem tryFinally {q : Prog Op Res τ ε Unit} {k : Except ε (Res op) → Prog Op Res τ ε α}
    (h : StandsAt exec now (Prog.tryFinally q p) s op k s') :
    (∃ k', StandsAt exec now p s op k' s' ∧ k = fun r => Prog.tryFinally q (k' r))
      ∨ ∃ k', StandsAt exec now q (p.run exec now s).2 op k' s' := by
  induction p generalizing s with
  | ret a =>
    rcases h.bind with ⟨k', h', -⟩ | ⟨_, _, -, h'⟩
    · exact .inr ⟨k', h'⟩
    · cases h'
  | throw e =>
    rcases h.bind with ⟨k', h', -⟩ | ⟨_, _, -, h'⟩
    · exact .inr ⟨k', h'⟩
    · cases h'
  | clock c ih =>
    cases h with
    | clock h =>
      rcases ih now h with ⟨k', h', hk⟩ | hrest
      · exact .inl ⟨k', .clock h', hk⟩
      · exact .inr hrest
  | call op' c ih =>
    cases h with
    | here => exact .inl ⟨c, .here, rfl⟩
    | call h =>
      rcases ih _ h with ⟨k', h', hk⟩ | hrest
      · exact .inl ⟨k', .call h', hk⟩
      · exact .inr hrest

theorem only {Q : Op → Prop} {A : α → Prop} {k : Except ε (Res op) → Prog Op Res τ ε α}
    (h : StandsAt exec now p s op k s') (hp : Only Q A p) : Q op := by
  induction h with
  | here => exact hp.1
  | clock _ ih => exact ih (hp _)
  | call _ ih => exact ih (hp.2 _)

end StandsAt

/-- The failure of a statement ends the program. -/
def Rethrows : Prog Op Res τ ε α → Prop
  | ret _ => True
  | throw _ => True
  | clock c => ∀ t, Rethrows (c t)
  | call _ k => (∀ e, k (.error e) = throw e) ∧ ∀ a, Rethrows (k (.ok a))

theorem Rethrows.bind {f : α → Prog Op Res τ ε β} (hp : Rethrows p) (hf : ∀ a, Rethrows (f a)) :
    Rethrows (p >>= f) := by
  induction p with
  | ret a => exact hf a
  | throw e => trivial
  | clock c ih => exact fun t => ih t (hp t)
  | call op c ih =>
    refine ⟨fun e => ?_, fun a => ih _ (hp.2 a)⟩
    change c (.error e) >>= f = .throw e
    rw [hp.1 e]
    rfl

theorem rethrows_stmt : Rethrows (stmt op : Prog Op Res τ ε _) := ⟨fun _ => rfl, fun _ => trivial⟩

theorem rethrows_time : Rethrows (time : Prog Op Res τ ε τ) := fun _ => trivial

theorem Rethrows.map {f : α → β} (hp : Rethrows p) : Rethrows (f <$> p) := by
  rw [← bind_pure_comp]
  exact hp.bind fun _ => trivial

theorem StandsAt.error {k : Except ε (Res op) → Prog Op Res τ ε α}
    (h : StandsAt exec now p s op k s') (hp : Rethrows p) (e : ε) : k (.error e) = .throw e := by
  induction h with
  | here => exact hp.1 e
  | clock _ ih => exact ih (hp _)
  | @call op' op c s _ k h ih =>
    cases hr : (exec op' now s).1 with
    | ok a =>
      rw [hr] at h ih
      exact ih (hp.2 a)
    | error e' =>
      rw [hr, hp.1 e'] at h
      cases h

theorem Rethrows.failed (hp : Rethrows p) {n : ℕ}
    (hat : (steps exec now n p s).1.statement? = some op)
    (e : ε) : (steps exec now n p s).1.failed e = .throw e := by
  obtain ⟨k, hk⟩ := statement?_eq_some.mp hat
  have hstands : StandsAt exec now p s op k (steps exec now n p s).2 := .of_steps (by rw [← hk])
  rw [hk]
  exact hstands.error hp e

/-! ## Wherever a run is cut -/

/-- `I` holds of the store before and after every statement of the run. -/
def Always (exec : Handler Op Res τ ε σ) (now : τ) (I : σ → Prop) : Prog Op Res τ ε α → σ → Prop
  | ret _, s => I s
  | throw _, s => I s
  | clock c, s => Always exec now I (c now) s
  | call op k, s => I s ∧ Always exec now I (k (exec op now s).1) (exec op now s).2

namespace Always

variable {I : σ → Prop}

theorem start (h : Always exec now I p s) : I s := by
  induction p with
  | ret a => exact h
  | throw e => exact h
  | clock c ih => exact ih now h
  | call op k ih => exact h.1

theorem final (h : Always exec now I p s) : I (p.run exec now s).2 := by
  induction p generalizing s with
  | ret a => exact h
  | throw e => exact h
  | clock c ih => exact ih now h
  | call op k ih => exact ih _ h.2

theorem steps (h : Always exec now I p s) (n : ℕ) : I (p.steps exec now n s).2 := by
  induction p generalizing n s with
  | ret a =>
    rw [steps_ret]
    exact h
  | throw e =>
    rw [steps_throw]
    exact h
  | clock c ih =>
    rw [steps_clock]
    exact ih now h n
  | call op k ih =>
    cases n with
    | zero => exact h.1
    | succ n => exact ih _ h.2 n

theorem bind {f : α → Prog Op Res τ ε β} (hp : Always exec now I p s)
    (hf : ∀ a s', p.run exec now s = (.ok a, s') → Always exec now I (f a) s') :
    Always exec now I (p >>= f) s := by
  induction p generalizing s with
  | ret a => exact hf a s rfl
  | throw e => exact hp
  | clock c ih => exact ih now hp hf
  | call op k ih => exact ⟨hp.1, ih _ hp.2 hf⟩

theorem map {f : α → β} (hp : Always exec now I p s) : Always exec now I (f <$> p) s := by
  rw [← bind_pure_comp]
  refine hp.bind fun a s' hrun => ?_
  have hfinal := hp.final
  rw [hrun] at hfinal
  exact hfinal

theorem tryFinally {q : Prog Op Res τ ε Unit} (hp : Always exec now I p s)
    (hq : Always exec now I q (p.run exec now s).2) :
    Always exec now I (Prog.tryFinally q p) s := by
  have hend : ∀ {r : Unit → Prog Op Res τ ε α} {s : σ}, (∀ u s, I s → Always exec now I (r u) s) →
      Always exec now I q s → Always exec now I (q >>= r) s := by
    intro r s hr h
    refine h.bind fun u s' hrun => hr u s' ?_
    have hfinal := h.final
    rw [hrun] at hfinal
    exact hfinal
  induction p generalizing s with
  | ret a => exact hend (fun _ _ h => h) hq
  | throw e => exact hend (fun _ _ h => h) hq
  | clock c ih => exact ih now hp hq
  | call op k ih => exact ⟨hp.1, ih _ hp.2 hq⟩

/-- What every statement of a program keeps. -/
theorem of_only {Q : Op → Prop} {A : α → Prop} (hp : Only Q A p)
    (hQ : ∀ op s, Q op → I s → I (exec op now s).2) (h : I s) : Always exec now I p s := by
  induction p generalizing s with
  | ret a => exact h
  | throw e => exact h
  | clock c ih => exact ih now (hp now) h
  | call op k ih => exact ⟨h, ih _ (hp.2 _) (hQ op s hp.1 h)⟩

/-- What every statement keeps. -/
theorem of_exec (hexec : ∀ op s, I s → I (exec op now s).2) (h : I s) (p : Prog Op Res τ ε α) :
    Always exec now I p s := by
  induction p generalizing s with
  | ret a => exact h
  | throw e => exact h
  | clock c ih => exact ih now h
  | call op k ih => exact ⟨h, ih _ (hexec op s h)⟩

end Always

/-! ## Counting statements -/

/-- The store with the number of its statements of a kind that have succeeded. -/
def counted (P : Op → Bool) (exec : Handler Op Res τ ε σ) : Handler Op Res τ ε (σ × ℕ) :=
  fun op t s => ((exec op t s.1).1, (exec op t s.1).2,
    if P op ∧ (exec op t s.1).1.isOk then s.2 + 1 else s.2)

section Counted

variable {P : Op → Bool} {k : ℕ}

/-- Counting does not change what a program does. -/
theorem steps_counted (n : ℕ) : ∃ k', p.steps (counted P exec) now n (s, k) =
    ((p.steps exec now n s).1, (p.steps exec now n s).2, k') := by
  induction p generalizing n s k with
  | ret a => exact ⟨k, by simp⟩
  | throw e => exact ⟨k, by simp⟩
  | clock c ih => simpa using ih now n
  | call op c ih =>
    cases n with
    | zero => exact ⟨k, rfl⟩
    | succ n => exact ih _ n

theorem run_counted {A : α → Prop} (hp : Only (P · = false) A p) :
    p.run (counted P exec) now (s, k) = ((p.run exec now s).1, (p.run exec now s).2, k) := by
  induction p generalizing s k with
  | ret a => rfl
  | throw e => rfl
  | clock c ih => exact ih now (hp now)
  | call op c ih =>
    have hcount : (counted P exec op now (s, k)).2.2 = k := by simp [counted, hp.1]
    have hpair : (counted P exec op now (s, k)).2 = ((exec op now s).2, k) :=
      Prod.ext rfl hcount
    rw [run_call, hpair]
    exact ih _ (hp.2 _)

end Counted

end Prog
