import SlimStarter.Lib.Monitor
import SlimStarter.Lib.Outcome

/-!
# What calls come to, by their statements

`Ending` says of a pool that each call ends so that its outcome is right for what a monitor has seen
of its statements. `Steps.ending` has it from the calls alone.
-/

namespace Pool

open Monitor

variable {κ σ Op : Type} {Res : Op → Type} {τ ε α Φ : Type}

/-- The program issues what the monitor allows, and its outcome fits the phase it ends in. -/
abbrev EndsIn (m : Monitor Op Res ε Φ) (Q : Φ → Except ε α → Prop) (φ : Φ)
    (p : Prog Op Res τ ε α) : Prop :=
  m.Keeps (fun φ a => Q φ (.ok a)) (fun φ e => Q φ (.error e)) φ p

theorem EndsIn.settle_map {β : Type} {m : Monitor Op Res ε Φ} {Q : Φ → Except ε β → Prop} {φ : Φ}
    {now : τ} {p : Prog Op Res τ ε α} {f : α → β}
    (h : EndsIn m (fun φ r => Q φ (r.map f)) φ (p.settle now)) :
    EndsIn m Q φ ((f <$> p).settle now) := by
  induction p with
  | ret a => exact h
  | throw e => exact h
  | clock k ih => exact ih now h
  | call op k ih =>
    show EndsIn m Q φ (f <$> Prog.call op k)
    exact keeps_map.mpr (Keeps.mono h (fun _ _ hq => hq) fun _ _ hq => hq)

/-- Every call is on its way to an outcome that is right for what it has issued. -/
structure Ending (m : Monitor Op Res ε Φ) (φ₀ : Φ) (Q : κ → Φ → Except ε α → Prop)
    (s : Pool κ σ Op Res τ ε α) : Prop where
  keeps : ∀ (i : ℕ) (p : Proc κ Op Res τ ε α), s.procs[i]? = some p →
    EndsIn m (Q p.call) (m.phase φ₀ i s.log) p.rest
  pid : ∀ e ∈ s.log, e.pid < s.procs.length

variable {m : Monitor Op Res ε Φ} {φ₀ : Φ} {Q : κ → Φ → Except ε α → Prop}
variable {exec : Prog.Handler Op Res τ ε σ} {start : κ → Prog Op Res τ ε α}
variable {G : Pool κ σ Op Res τ ε α → Act κ τ ε → Prop} {s s' : Pool κ σ Op Res τ ε α}

theorem ending_idle {db : σ} {now : τ} :
    Ending m φ₀ Q (⟨db, now, [], []⟩ : Pool κ σ Op Res τ ε α) where
  keeps := by simp
  pid := by simp

theorem Ending.outcome (h : Ending m φ₀ Q s) {i : ℕ} {p : Proc κ Op Res τ ε α}
    (hp : s.procs[i]? = some p) {r : Except ε α} (hr : p.rest.outcome? = some r) :
    Q p.call (m.phase φ₀ i s.log) r := by
  have hkeeps := h.keeps i p hp
  rcases p with ⟨c, a | e | k | ⟨op, k⟩⟩
  · obtain rfl := Option.some.inj hr
    exact hkeeps
  · obtain rfl := Option.some.inj hr
    exact hkeeps
  · cases hr
  · cases hr

theorem Ending.spawn (h : Ending m φ₀ Q s) {c : κ} {q : Prog Op Res τ ε α}
    (hc : EndsIn m (Q c) φ₀ q) : Ending m φ₀ Q { s with procs := s.procs ++ [⟨c, q⟩] } where
  keeps := by
    intro i p hp
    rcases spawn_procs hp with ⟨rfl, rfl⟩ | ⟨-, hp⟩
    · rw [phase_of_forall_ne fun e he => (h.pid e he).ne]
      exact hc
    · exact h.keeps i p hp
  pid := by
    intro e he
    have hlt := h.pid e he
    simp only [List.length_append, List.length_singleton]
    omega

theorem Ending.advance (h : Ending m φ₀ Q s) {i : ℕ} {c : κ} {op : Op}
    {k : Except ε (Res op) → Prog Op Res τ ε α} (hi : s.procs[i]? = some ⟨c, .call op k⟩)
    (r : Except ε (Res op)) (db : σ) : Ending m φ₀ Q (s.advance i c op r db k) where
  keeps := by
    intro j p hp
    rcases advance_procs hp with ⟨rfl, rfl⟩ | ⟨hne, hp⟩
    · rw [advance_log, phase_cons_self (e := ⟨s.log.length, j, op, r⟩) rfl]
      exact ((h.keeps j _ hi).2 r).settle s.now
    · rw [advance_log, phase_cons_of_ne (Ne.symm hne)]
      exact h.keeps j p hp
  pid := by
    intro e he
    rw [advance_log] at he
    simp only [Pool.advance, List.length_set]
    rcases List.mem_cons.mp he with rfl | he
    · exact (List.getElem?_eq_some_iff.mp hi).1
    · exact h.pid e he

/-- Where every call ends rightly, all calls of a run do. -/
theorem Steps.ending (run : Steps exec start G s s')
    (hspawn : ∀ s c, G s (.spawn c) → EndsIn m (Q c) φ₀ ((start c).settle s.now))
    (h : Ending m φ₀ Q s) : Ending m φ₀ Q s' := by
  refine run.inv (I := Ending m φ₀ Q) (fun s₁ s₂ a h hG ha => ?_) h
  obtain ⟨c, rfl, rfl⟩ | ⟨t, rfl, rfl⟩ | ⟨i, c, op, k, rfl, hi, rfl⟩ |
    ⟨i, e, c, op, k, rfl, hi, rfl⟩ := act_cases ha
  · exact h.spawn (hspawn s₁ c hG)
  · exact ⟨h.keeps, h.pid⟩
  · exact h.advance hi _ _
  · exact h.advance hi _ _

/-- What the allowed statements keep of the phase holds of every call that is on its way. -/
theorem Steps.phases_of_allowed {I : Φ → Prop} (run : Steps exec start G s s')
    (hspawn : ∀ s c, G s (.spawn c) → EndsIn m (Q c) φ₀ ((start c).settle s.now))
    (hnext : ∀ φ op r, m.allowed φ op → I φ → I (m.next φ op r)) (h : Ending m φ₀ Q s)
    (hI : ∀ i, I (m.phase φ₀ i s.log)) (i : ℕ) : I (m.phase φ₀ i s'.log) := by
  have hadvance : ∀ {s : Pool κ σ Op Res τ ε α} {j c op k r db}, Ending m φ₀ Q s →
      (∀ i, I (m.phase φ₀ i s.log)) → s.procs[j]? = some ⟨c, .call op k⟩ →
      ∀ i, I (m.phase φ₀ i (s.advance j c op r db k).log) := by
    intro s j c op k r db h hI hj i
    rw [advance_log]
    by_cases hij : j = i
    · subst hij
      rw [phase_cons_self (e := ⟨s.log.length, j, op, r⟩) rfl]
      exact hnext _ _ _ (h.keeps j _ hj).1 (hI j)
    · rw [phase_cons_of_ne hij]
      exact hI i
  have hboth : Ending m φ₀ Q s' ∧ ∀ i, I (m.phase φ₀ i s'.log) := by
    refine run.inv (I := fun s => Ending m φ₀ Q s ∧ ∀ i, I (m.phase φ₀ i s.log))
      (fun s₁ s₂ a h hG ha => ?_) ⟨h, hI⟩
    obtain ⟨c, rfl, rfl⟩ | ⟨t, rfl, rfl⟩ | ⟨i, c, op, k, rfl, hi, rfl⟩ |
      ⟨i, e, c, op, k, rfl, hi, rfl⟩ := act_cases ha
    · exact ⟨h.1.spawn (hspawn s₁ c hG), h.2⟩
    · exact ⟨⟨h.1.keeps, h.1.pid⟩, h.2⟩
    · exact ⟨h.1.advance hi _ _, hadvance h.1 h.2 hi⟩
    · exact ⟨h.1.advance hi _ _, hadvance h.1 h.2 hi⟩
  exact hboth.2 i

end Pool
