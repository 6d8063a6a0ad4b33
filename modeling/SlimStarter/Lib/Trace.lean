import SlimStarter.Lib.Monitor

/-!
# Traces

`Reaches p rs q` says that the program `p`, given the replies `rs` to the statements it issues, in
this order, comes to stand at `q`; where `q` is a return, `p` computes its result from these
replies.
`Reaches.bind_call` and `Reaches.bind_ret` cut a trace at a bind, and `Only.reaches` says what the
statements of a trace are.

In a pool the replies of a call are read off the log: `Steps.traced` says that they lead from the
start of its program to where it stands, and up to each of its events to the statement of that
event.
-/

/-- A statement with its reply. -/
structure Reply (Op : Type) (Res : Op → Type) (ε : Type) where
  op : Op
  reply : Except ε (Res op)

/-- What an event of a log says was asked and answered. -/
def Event.answer {Op : Type} {Res : Op → Type} {ε : Type} (e : Event Op Res ε) : Reply Op Res ε :=
  ⟨e.op, e.reply⟩

namespace Prog

variable {Op : Type} {Res : Op → Type} {τ ε α β : Type}

inductive Reaches : Prog Op Res τ ε α → List (Reply Op Res ε) → Prog Op Res τ ε α → Prop where
  | refl (p : Prog Op Res τ ε α) : Reaches p [] p
  | clock {k : τ → Prog Op Res τ ε α} {t : τ} {rs : List (Reply Op Res ε)} {q : Prog Op Res τ ε α}
      (h : Reaches (k t) rs q) : Reaches (.clock k) rs q
  | call {op : Op} {k : Except ε (Res op) → Prog Op Res τ ε α} {r : Except ε (Res op)}
      {rs : List (Reply Op Res ε)} {q : Prog Op Res τ ε α} (h : Reaches (k r) rs q) :
      Reaches (.call op k) (⟨op, r⟩ :: rs) q

variable {p q : Prog Op Res τ ε α} {rs : List (Reply Op Res ε)} {op : Op}

namespace Reaches

theorem trans {q' : Prog Op Res τ ε α} {rs' : List (Reply Op Res ε)} (h : Reaches p rs q)
    (h' : Reaches q rs' q') : Reaches p (rs ++ rs') q' := by
  induction h with
  | refl p => exact h'
  | clock _ ih => exact .clock (ih h')
  | call _ ih => exact .call (ih h')

theorem settle_self (now : τ) : ∀ q : Prog Op Res τ ε α, Reaches q [] (q.settle now)
  | .ret _ => .refl _
  | .throw _ => .refl _
  | .clock k => .clock (settle_self now (k now))
  | .call _ _ => .refl _

/-- The next reply takes a program on from the statement it stands at. -/
theorem snoc {k : Except ε (Res op) → Prog Op Res τ ε α} (h : Reaches p rs (.call op k))
    (r : Except ε (Res op)) (now : τ) : Reaches p (rs ++ [⟨op, r⟩]) ((k r).settle now) :=
  h.trans (.call (settle_self now (k r)))

/-- From a statement a program comes to stand at it still, has thrown its failure, or has gone on
with its reply. -/
theorem of_resume {f : Res op → Prog Op Res τ ε α} (h : Reaches (.call op (Prog.resume f)) rs q) :
    (rs = [] ∧ q = .call op (Prog.resume f)) ∨ (∃ e, rs = [⟨op, .error e⟩] ∧ q = .throw e)
      ∨ ∃ a rs', rs = ⟨op, .ok a⟩ :: rs' ∧ Reaches (f a) rs' q := by
  cases h with
  | refl => exact .inl ⟨rfl, rfl⟩
  | @call _ _ r rs _ h =>
    cases r with
    | ok a => exact .inr (.inr ⟨a, rs, rfl, h⟩)
    | error e =>
      cases h with
      | refl => exact .inr (.inl ⟨e, rfl, rfl⟩)

theorem resume_ret {f : Res op → Prog Op Res τ ε α} {b : α}
    (h : Reaches (.call op (Prog.resume f)) rs (.ret b)) :
    ∃ a rs', rs = ⟨op, .ok a⟩ :: rs' ∧ Reaches (f a) rs' (.ret b) := by
  rcases h.of_resume with ⟨-, hq⟩ | ⟨e, -, hq⟩ | h
  · cases hq
  · cases hq
  · exact h

/-- A program that stands at a statement stands at its first one, or has got a reply to that. -/
theorem resume_call {f : Res op → Prog Op Res τ ε α} {op' : Op}
    {k : Except ε (Res op') → Prog Op Res τ ε α}
    (h : Reaches (.call op (Prog.resume f)) rs (.call op' k)) :
    (rs = [] ∧ op' = op)
      ∨ ∃ a rs', rs = ⟨op, .ok a⟩ :: rs' ∧ Reaches (f a) rs' (.call op' k) := by
  rcases h.of_resume with ⟨hrs, hq⟩ | ⟨e, -, hq⟩ | h
  · cases hq
    exact .inl ⟨hrs, rfl⟩
  · cases hq
  · exact .inr h

/-- Where a bind stands at a statement, its first part does or has returned. -/
theorem bind_call {f : α → Prog Op Res τ ε β} {k : Except ε (Res op) → Prog Op Res τ ε β} :
    ∀ {p : Prog Op Res τ ε α} {rs : List (Reply Op Res ε)}, Reaches (p >>= f) rs (.call op k) →
      (∃ k', Reaches p rs (.call op k'))
        ∨ ∃ a rs₁ rs₂, rs = rs₁ ++ rs₂ ∧ Reaches p rs₁ (.ret a) ∧ Reaches (f a) rs₂ (.call op k)
  | .ret a, rs, h => .inr ⟨a, [], rs, rfl, .refl _, h⟩
  | .throw e, rs, h => by cases h
  | .clock c, rs, h => by
    cases h with
    | clock h =>
      rcases bind_call h with ⟨k', h'⟩ | ⟨a, rs₁, rs₂, hrs, h₁, h₂⟩
      · exact .inl ⟨k', .clock h'⟩
      · exact .inr ⟨a, rs₁, rs₂, hrs, .clock h₁, h₂⟩
  | .call op' c, rs, h => by
    cases h with
    | refl => exact .inl ⟨c, .refl _⟩
    | call h =>
      rcases bind_call h with ⟨k', h'⟩ | ⟨a, rs₁, rs₂, rfl, h₁, h₂⟩
      · exact .inl ⟨k', .call h'⟩
      · exact .inr ⟨a, _ :: rs₁, rs₂, rfl, .call h₁, h₂⟩

theorem bind_ret {f : α → Prog Op Res τ ε β} {b : β} :
    ∀ {p : Prog Op Res τ ε α} {rs : List (Reply Op Res ε)}, Reaches (p >>= f) rs (.ret b) →
      ∃ a rs₁ rs₂, rs = rs₁ ++ rs₂ ∧ Reaches p rs₁ (.ret a) ∧ Reaches (f a) rs₂ (.ret b)
  | .ret a, rs, h => ⟨a, [], rs, rfl, .refl _, h⟩
  | .throw e, rs, h => by cases h
  | .clock c, rs, h => by
    cases h with
    | clock h =>
      obtain ⟨a, rs₁, rs₂, hrs, h₁, h₂⟩ := bind_ret h
      exact ⟨a, rs₁, rs₂, hrs, .clock h₁, h₂⟩
  | .call op' c, rs, h => by
    cases h with
    | call h =>
      obtain ⟨a, rs₁, rs₂, rfl, h₁, h₂⟩ := bind_ret h
      exact ⟨a, _ :: rs₁, rs₂, rfl, .call h₁, h₂⟩

/-- A mapped program is at a statement where the program itself is. -/
theorem map_call {f : α → β} {p : Prog Op Res τ ε α} {rs : List (Reply Op Res ε)}
    {k : Except ε (Res op) → Prog Op Res τ ε β} (h : Reaches (f <$> p) rs (.call op k)) :
    ∃ k', Reaches p rs (.call op k') := by
  rw [← bind_pure_comp] at h
  rcases h.bind_call with h | ⟨a, rs₁, rs₂, -, -, h₂⟩
  · exact h
  · cases h₂

theorem map_ret {f : α → β} {b : β} {p : Prog Op Res τ ε α} {rs : List (Reply Op Res ε)}
    (h : Reaches (f <$> p) rs (.ret b)) : ∃ a, f a = b ∧ Reaches p rs (.ret a) := by
  rw [← bind_pure_comp] at h
  obtain ⟨a, rs₁, rs₂, rfl, h₁, h₂⟩ := h.bind_ret
  cases h₂
  exact ⟨a, rfl, by rwa [List.append_nil]⟩

end Reaches

/-- What a program can issue, it issues along a trace. -/
theorem Only.reaches {Q : Op → Prop} {A : α → Prop} (h : Only Q A p) (hr : Reaches p rs q) :
    (∀ r ∈ rs, Q r.op) ∧ Only Q A q := by
  induction hr with
  | refl p => exact ⟨by simp, h⟩
  | clock _ ih => exact ih (h _)
  | call _ ih =>
    obtain ⟨hrs, hq⟩ := ih (h.2 _)
    exact ⟨by simpa [h.1] using hrs, hq⟩

end Prog

/-! ## Traces in a pool -/

namespace Pool

variable {κ σ Op : Type} {Res : Op → Type} {τ ε α : Type}

/-- The replies that call `i` has got, oldest first. -/
def replies (i : ℕ) : List (Event Op Res ε) → List (Reply Op Res ε)
  | [] => []
  | e :: log => if e.pid = i then replies i log ++ [⟨e.op, e.reply⟩] else replies i log

theorem replies_cons_self {i : ℕ} {e : Event Op Res ε} {log : List (Event Op Res ε)}
    (h : e.pid = i) : replies i (e :: log) = replies i log ++ [⟨e.op, e.reply⟩] := if_pos h

theorem replies_cons_of_ne {i : ℕ} {e : Event Op Res ε} {log : List (Event Op Res ε)}
    (h : e.pid ≠ i) : replies i (e :: log) = replies i log := if_neg h

theorem replies_of_forall_ne {i : ℕ} {log : List (Event Op Res ε)} (h : ∀ e ∈ log, e.pid ≠ i) :
    replies i log = [] := by
  induction log with
  | nil => rfl
  | cons e log ih =>
    rw [replies_cons_of_ne (h e (by simp)), ih fun d hd => h d (by simp [hd])]

theorem mem_replies {i : ℕ} {log : List (Event Op Res ε)} {r : Reply Op Res ε}
    (h : r ∈ replies i log) : ∃ e ∈ log, e.pid = i ∧ r = ⟨e.op, e.reply⟩ := by
  induction log with
  | nil => simp [replies] at h
  | cons e log ih =>
    by_cases hi : e.pid = i
    · rw [replies_cons_self hi] at h
      rcases List.mem_append.mp h with h | h
      · obtain ⟨d, hd, hdi, rfl⟩ := ih h
        exact ⟨d, by simp [hd], hdi, rfl⟩
      · exact ⟨e, by simp, hi, by simpa using h⟩
    · rw [replies_cons_of_ne hi] at h
      obtain ⟨d, hd, hdi, rfl⟩ := ih h
      exact ⟨d, by simp [hd], hdi, rfl⟩

theorem replies_of_mem {i : ℕ} {log : List (Event Op Res ε)} {e : Event Op Res ε} (he : e ∈ log)
    (hi : e.pid = i) : ⟨e.op, e.reply⟩ ∈ replies i log := by
  induction log with
  | nil => simp at he
  | cons d log ih =>
    rcases List.mem_cons.mp he with rfl | he
    · rw [replies_cons_self hi]
      exact List.mem_append_right _ List.mem_cons_self
    · by_cases hd : d.pid = i
      · rw [replies_cons_self hd]
        exact List.mem_append_left _ (ih he)
      · rw [replies_cons_of_ne hd]
        exact ih he

variable (start : κ → Prog Op Res τ ε α)

structure Traced (s : Pool κ σ Op Res τ ε α) : Prop where
  rest : ∀ (i : ℕ) (p : Proc κ Op Res τ ε α), s.procs[i]? = some p →
    Prog.Reaches (start p.call) (replies i s.log) p.rest
  event : ∀ l e l', s.log = l ++ e :: l' → ∃ (p : Proc κ Op Res τ ε α) (k : _),
    s.procs[e.pid]? = some p ∧ Prog.Reaches (start p.call) (replies e.pid l') (.call e.op k)

variable {start} {exec : Prog.Handler Op Res τ ε σ}
variable {G : Pool κ σ Op Res τ ε α → Act κ τ ε → Prop} {s s' : Pool κ σ Op Res τ ε α}

theorem traced_idle {db : σ} {now : τ} :
    Traced start (⟨db, now, [], []⟩ : Pool κ σ Op Res τ ε α) where
  rest := by simp
  event := by simp

theorem Traced.spawn (h : Traced start s) (c : κ) :
    Traced start { s with procs := s.procs ++ [⟨c, (start c).settle s.now⟩] } where
  rest := by
    intro i p hp
    rcases spawn_procs hp with ⟨rfl, rfl⟩ | ⟨-, hp⟩
    · have hnone : replies s.procs.length s.log = [] := by
        refine replies_of_forall_ne fun e he heq => ?_
        obtain ⟨l, l', hlog⟩ := List.append_of_mem he
        obtain ⟨q, k, hq, -⟩ := h.event l e l' hlog
        simp [heq] at hq
      rw [hnone]
      exact .settle_self s.now (start c)
    · exact h.rest i p hp
  event := by
    intro l e l' hlog
    obtain ⟨p, k, hp, hr⟩ := h.event l e l' hlog
    obtain ⟨hlt, -⟩ := List.getElem?_eq_some_iff.mp hp
    exact ⟨p, k, by rwa [List.getElem?_append_left hlt], hr⟩

theorem Traced.advance (h : Traced start s) {i : ℕ} {c : κ} {op : Op}
    {k : Except ε (Res op) → Prog Op Res τ ε α} (hi : s.procs[i]? = some ⟨c, .call op k⟩)
    (r : Except ε (Res op)) (db : σ) : Traced start (s.advance i c op r db k) where
  rest := by
    intro j p hp
    rcases advance_procs hp with ⟨rfl, rfl⟩ | ⟨hne, hp⟩
    · rw [advance_log, replies_cons_self (e := ⟨s.log.length, j, op, r⟩) rfl]
      exact (h.rest j _ hi).snoc r s.now
    · rw [advance_log, replies_cons_of_ne (Ne.symm hne)]
      exact h.rest j p hp
  event := by
    intro l e l' hlog
    rw [advance_log] at hlog
    rcases l with _ | ⟨d, l⟩
    · obtain ⟨rfl, rfl⟩ := List.cons_eq_cons.mp hlog
      exact ⟨_, k, advance_procs_self hi, h.rest i _ hi⟩
    · obtain ⟨-, hlog⟩ := List.cons_eq_cons.mp hlog
      obtain ⟨p, k', hp, hr⟩ := h.event l e l' hlog
      rcases eq_or_ne e.pid i with heq | hne
      · rw [heq] at hp hr ⊢
        rw [hi] at hp
        obtain rfl := Option.some.inj hp
        exact ⟨_, k', advance_procs_self hi, hr⟩
      · exact ⟨p, k', by rw [advance_procs_of_ne hne]; exact hp, hr⟩

/-- Along every run, the replies of a call lead to where it stands. -/
theorem Steps.traced (run : Steps exec start G s s') (h : Traced start s) : Traced start s' := by
  refine Steps.inv (I := Traced start) run (fun s a s' hI _ ha => ?_) h
  rcases act_cases ha with ⟨c, rfl, rfl⟩ | ⟨t, rfl, rfl⟩ | ⟨i, c, op, k, rfl, hi, rfl⟩ |
    ⟨i, e, c, op, k, rfl, hi, rfl⟩
  · exact hI.spawn c
  · exact ⟨hI.rest, hI.event⟩
  · exact hI.advance hi _ _
  · exact hI.advance hi _ _

/-- What an act adds to the log is one event, if any. -/
theorem act_log_cases {a : Act κ τ ε} (ha : act exec start s a = some s') :
    s'.log = s.log ∨ ∃ e, s'.log = e :: s.log := by
  rcases act_cases ha with ⟨c, rfl, rfl⟩ | ⟨t, rfl, rfl⟩ | ⟨i, c, op, k, rfl, hi, rfl⟩ |
    ⟨i, e, c, op, k, rfl, hi, rfl⟩
  · exact .inl rfl
  · exact .inl rfl
  · exact .inr ⟨_, rfl⟩
  · exact .inr ⟨_, rfl⟩

/-- Every event of a run was logged by one of its acts. -/
theorem Steps.moment (run : Steps exec start G s s') {e : Event Op Res ε} (he : e ∈ s'.log)
    (hs : e ∉ s.log) : ∃ s₁ a s₂, Steps exec start G s s₁ ∧ G s₁ a
      ∧ act exec start s₁ a = some s₂ ∧ Steps exec start G s₂ s' ∧ s₂.log = e :: s₁.log := by
  induction run with
  | refl => exact absurd he hs
  | @tail s₁ s₂ hrun hstep ih =>
    by_cases hbefore : e ∈ s₁.log
    · obtain ⟨t₁, a, t₂, h₁, hG, ha, h₂, hlog⟩ := ih hbefore
      exact ⟨t₁, a, t₂, h₁, hG, ha, h₂.tail hstep, hlog⟩
    · obtain ⟨a, hG, ha⟩ := hstep
      rcases act_log_cases ha with hlog | ⟨d, hlog⟩
      · exact absurd (hlog ▸ he) hbefore
      · obtain rfl : e = d := (List.mem_cons.mp (hlog ▸ he)).resolve_right hbefore
        exact ⟨s₁, a, s₂, hrun, hG, ha, .refl, hlog⟩

/-- What a call was replied, other than a failure, the store replied at a moment of the run. -/
theorem Steps.replied (run : Steps exec start G s s') {n i : ℕ} {op : Op} {r : Res op}
    (he : (⟨n, i, op, .ok r⟩ : Event Op Res ε) ∈ s'.log)
    (hs : (⟨n, i, op, .ok r⟩ : Event Op Res ε) ∉ s.log) :
    ∃ s₁ s₂ c k, Steps exec start G s s₁ ∧ s₁.procs[i]? = some ⟨c, .call op k⟩
      ∧ act exec start s₁ (.step i) = some s₂ ∧ Steps exec start G s₂ s'
      ∧ (exec op s₁.now s₁.db).1 = .ok r := by
  obtain ⟨s₁, a, s₂, hbefore, -, ha, hafter, hlog⟩ := run.moment he hs
  have hlength : ∀ {t : Pool κ σ Op Res τ ε α}, t.log = s₁.log →
      (⟨n, i, op, .ok r⟩ : Event Op Res ε) :: s₁.log ≠ t.log := by
    intro t ht heq
    simpa [ht] using congrArg List.length heq
  rcases act_cases ha with ⟨c, rfl, rfl⟩ | ⟨t, rfl, rfl⟩ | ⟨j, c, op', k, rfl, hj, rfl⟩ |
    ⟨j, e, c, op', k, rfl, hj, rfl⟩
  · exact absurd hlog.symm (hlength rfl)
  · exact absurd hlog.symm (hlength rfl)
  · rw [advance_log] at hlog
    have heq := (List.cons_eq_cons.mp hlog).1
    simp only [Event.mk.injEq] at heq
    obtain ⟨-, rfl, rfl, hreply⟩ := heq
    exact ⟨s₁, _, c, k, hbefore, hj, ha, hafter, eq_of_heq hreply⟩
  · rw [advance_log] at hlog
    have heq := (List.cons_eq_cons.mp hlog).1
    simp only [Event.mk.injEq] at heq
    obtain ⟨-, rfl, rfl, hreply⟩ := heq
    cases hreply

end Pool
