import SlimStarter.Lib.Pool

/-!
# Monitors

A `Monitor` follows the statements of one program: a phase that each statement and its reply move,
and the statements a phase allows. `Keeps` says that a program issues allowed statements only,
whatever the replies, and ends as required; `keeps_bind` and `keeps_tryFinally` take it apart.

In a pool, the phase of a call is read off the log. `Steps.follows` carries `Follows` along a run
whose calls all keep the monitor: each logged statement was allowed in the phase its call was in.
-/

structure Monitor (Op : Type) (Res : Op → Type) (ε Φ : Type) where
  next : Φ → (op : Op) → Except ε (Res op) → Φ
  allowed : Φ → Op → Prop

namespace Monitor

variable {Op : Type} {Res : Op → Type} {τ ε Φ α β : Type} (m : Monitor Op Res ε Φ)

/-- Every statement is allowed in the phase it is issued in, and the program returns with `Q` or
throws with `T`. -/
def Keeps (Q : Φ → α → Prop) (T : Φ → ε → Prop) : Φ → Prog Op Res τ ε α → Prop
  | φ, .ret a => Q φ a
  | φ, .throw e => T φ e
  | φ, .clock k => ∀ t, Keeps Q T φ (k t)
  | φ, .call op k => m.allowed φ op ∧ ∀ r, Keeps Q T (m.next φ op r) (k r)

section Keeps

variable {m} {Q Q' : Φ → α → Prop} {T T' : Φ → ε → Prop} {φ : Φ}

@[simp] theorem keeps_ret {a : α} :
    m.Keeps Q T φ (.ret a : Prog Op Res τ ε α) ↔ Q φ a := Iff.rfl

@[simp] theorem keeps_throw {e : ε} :
    m.Keeps Q T φ (.throw e : Prog Op Res τ ε α) ↔ T φ e := Iff.rfl

@[simp] theorem keeps_clock {k : τ → Prog Op Res τ ε α} :
    m.Keeps Q T φ (.clock k) ↔ ∀ t, m.Keeps Q T φ (k t) := Iff.rfl

@[simp] theorem keeps_call_resume {op : Op} {f : Res op → Prog Op Res τ ε α} :
    m.Keeps Q T φ (.call op (Prog.resume f)) ↔
      m.allowed φ op ∧ (∀ e, T (m.next φ op (.error e)) e)
        ∧ ∀ a, m.Keeps Q T (m.next φ op (.ok a)) (f a) := by
  refine and_congr_right fun _ => ⟨fun h => ⟨fun e => h (.error e), fun a => h (.ok a)⟩, ?_⟩
  rintro ⟨he, hok⟩ (e | a)
  · exact he e
  · exact hok a

theorem keeps_stmt {op : Op} {Q : Φ → Res op → Prop} :
    m.Keeps Q T φ (Prog.stmt op : Prog Op Res τ ε _) ↔
      m.allowed φ op ∧ (∀ e, T (m.next φ op (.error e)) e) ∧ ∀ a, Q (m.next φ op (.ok a)) a :=
  keeps_call_resume

theorem keeps_bind {p : Prog Op Res τ ε α} {f : α → Prog Op Res τ ε β} {Q : Φ → β → Prop} :
    m.Keeps Q T φ (p >>= f) ↔ m.Keeps (fun φ a => m.Keeps Q T φ (f a)) T φ p := by
  induction p generalizing φ with
  | ret a => rfl
  | throw e => rfl
  | clock k ih => exact forall_congr' fun t => ih t
  | call op k ih => exact and_congr_right fun _ => forall_congr' fun r => ih r

theorem keeps_map {p : Prog Op Res τ ε α} {f : α → β} {Q : Φ → β → Prop} :
    m.Keeps Q T φ (f <$> p) ↔ m.Keeps (fun φ a => Q φ (f a)) T φ p := by
  rw [← bind_pure_comp, keeps_bind]
  rfl

theorem keeps_tryFinally {q : Prog Op Res τ ε Unit} {p : Prog Op Res τ ε α} :
    m.Keeps Q T φ (Prog.tryFinally q p) ↔
      m.Keeps (fun φ a => m.Keeps (fun φ _ => Q φ a) T φ q)
        (fun φ e => m.Keeps (fun φ _ => T φ e) T φ q) φ p := by
  induction p generalizing φ with
  | ret a => exact keeps_bind
  | throw e => exact keeps_bind
  | clock k ih => exact forall_congr' fun t => ih t
  | call op k ih => exact and_congr_right fun _ => forall_congr' fun r => ih r

theorem keeps_tryCatch {p : Prog Op Res τ ε α} {f : ε → Prog Op Res τ ε α} :
    m.Keeps Q T φ (Prog.tryCatch p f) ↔ m.Keeps Q (fun φ e => m.Keeps Q T φ (f e)) φ p := by
  induction p generalizing φ with
  | ret a => rfl
  | throw e => rfl
  | clock k ih => exact forall_congr' fun t => ih t
  | call op k ih => exact and_congr_right fun _ => forall_congr' fun r => ih r

theorem Keeps.mono {p : Prog Op Res τ ε α} (h : m.Keeps Q T φ p) (hQ : ∀ φ a, Q φ a → Q' φ a)
    (hT : ∀ φ e, T φ e → T' φ e) : m.Keeps Q' T' φ p := by
  induction p generalizing φ with
  | ret a => exact hQ φ a h
  | throw e => exact hT φ e h
  | clock k ih => exact fun t => ih t (h t)
  | call op k ih => exact ⟨h.1, fun r => ih r (h.2 r)⟩

theorem Keeps.settle {p : Prog Op Res τ ε α} (now : τ) (h : m.Keeps Q T φ p) :
    m.Keeps Q T φ (p.settle now) := by
  induction p with
  | ret a => exact h
  | throw e => exact h
  | clock k ih => exact ih now (h now)
  | call op k ih => exact h

/-- A program whose statements are allowed in a phase and do not leave it stays in the phase. -/
theorem Keeps.of_only {P : Op → Prop} {A : α → Prop} (hnext : ∀ op r, P op → m.next φ op r = φ)
    (hall : ∀ op, P op → m.allowed φ op) {p : Prog Op Res τ ε α} (h : Prog.Only P A p) :
    m.Keeps (fun ψ a => ψ = φ ∧ A a) (fun ψ _ => ψ = φ) φ p := by
  induction p with
  | ret a => exact ⟨rfl, h⟩
  | throw e => rfl
  | clock k ih => exact fun t => ih t (h t)
  | call op k ih => exact ⟨hall op h.1, fun r => by rw [hnext op r h.1]; exact ih r (h.2 r)⟩

/-- What holds of the phase and is kept by the statements of a program holds after it. -/
theorem Keeps.of_inv {P : Op → Prop} {A : α → Prop} {I : Φ → Prop}
    (hnext : ∀ φ op r, P op → I φ → I (m.next φ op r)) (hall : ∀ φ op, P op → m.allowed φ op)
    {p : Prog Op Res τ ε α} (h : Prog.Only P A p) (hI : I φ) :
    m.Keeps (fun ψ a => I ψ ∧ A a) (fun ψ _ => I ψ) φ p := by
  induction p generalizing φ with
  | ret a => exact ⟨hI, h⟩
  | throw e => exact hI
  | clock k ih => exact fun t => ih t (h t) hI
  | call op k ih => exact ⟨hall φ op h.1, fun r => ih r (h.2 r) (hnext φ op r h.1 hI)⟩

/-- A program whose statements every phase allows keeps the monitor. -/
theorem Keeps.of_allowed {P : Op → Prop} {A : α → Prop} (hall : ∀ φ op, P op → m.allowed φ op)
    {p : Prog Op Res τ ε α} (h : Prog.Only P A p) :
    m.Keeps (fun _ a => A a) (fun _ _ => True) φ p := by
  induction p generalizing φ with
  | ret a => exact h
  | throw e => trivial
  | clock k ih => exact fun t => ih t (h t)
  | call op k ih => exact ⟨hall φ op h.1, fun r => ih r (h.2 r)⟩

end Keeps

/-- The program keeps the monitor and ends in a final phase. -/
abbrev Safe (final : Φ → Prop) (φ : Φ) (p : Prog Op Res τ ε α) : Prop :=
  m.Keeps (fun φ _ => final φ) (fun φ _ => final φ) φ p

theorem Safe.final {m : Monitor Op Res ε Φ} {final : Φ → Prop} {φ : Φ} {p : Prog Op Res τ ε α}
    (h : m.Safe final φ p) (hp : p.ended = true) : final φ := by
  cases p with
  | ret a => exact h
  | throw e => exact h
  | clock k => simp [Prog.ended] at hp
  | call op k => simp [Prog.ended] at hp

/-- The phase of call `i` after the statements of a log. -/
def phase (φ₀ : Φ) (i : ℕ) : List (Event Op Res ε) → Φ
  | [] => φ₀
  | e :: log => if e.pid = i then m.next (phase φ₀ i log) e.op e.reply else phase φ₀ i log

variable {m} {φ₀ : Φ} {i : ℕ} {e : Event Op Res ε} {log : List (Event Op Res ε)}

@[simp] theorem phase_nil : m.phase φ₀ i [] = φ₀ := rfl

theorem phase_cons_self (h : e.pid = i) :
    m.phase φ₀ i (e :: log) = m.next (m.phase φ₀ i log) e.op e.reply := if_pos h

theorem phase_cons_of_ne (h : e.pid ≠ i) : m.phase φ₀ i (e :: log) = m.phase φ₀ i log := if_neg h

theorem phase_of_forall_ne (h : ∀ e ∈ log, e.pid ≠ i) : m.phase φ₀ i log = φ₀ := by
  induction log with
  | nil => rfl
  | cons e log ih =>
    rw [phase_cons_of_ne (h e (by simp)), ih fun d hd => h d (by simp [hd])]

/-- What holds of the first phase and is kept by every statement holds of the phase. -/
theorem phase_induction {P : Φ → Prop} (h₀ : P φ₀) (hnext : ∀ φ op r, P φ → P (m.next φ op r))
    (i : ℕ) (log : List (Event Op Res ε)) : P (m.phase φ₀ i log) := by
  induction log with
  | nil => exact h₀
  | cons e log ih =>
    by_cases hi : e.pid = i
    · rw [phase_cons_self hi]
      exact hnext _ _ _ ih
    · rw [phase_cons_of_ne hi]
      exact ih

theorem phase_append {φ : Φ} (hnext : ∀ op r, m.next φ op r = φ) {l l' : List (Event Op Res ε)}
    (h : m.phase φ₀ i l' = φ) : m.phase φ₀ i (l ++ l') = φ := by
  induction l with
  | nil => exact h
  | cons e l ih =>
    rw [List.cons_append]
    by_cases hi : e.pid = i
    · rw [phase_cons_self hi, ih, hnext]
    · rw [phase_cons_of_ne hi, ih]

end Monitor

namespace Pool

variable {κ σ Op : Type} {Res : Op → Type} {τ ε α Φ : Type}

/-- The stamp of an event is its place in the log. -/
def Stamped : List (Event Op Res ε) → Prop
  | [] => True
  | e :: log => e.stamp = log.length ∧ Stamped log

theorem Stamped.lt {log : List (Event Op Res ε)} (h : Stamped log) :
    ∀ e ∈ log, e.stamp < log.length := by
  induction log with
  | nil => simp
  | cons d log ih =>
    intro e he
    rcases List.mem_cons.mp he with rfl | he
    · simp [h.1]
    · have := ih h.2 e he
      simp only [List.length_cons]
      omega

theorem Stamped.of_append {l l' : List (Event Op Res ε)} (h : Stamped (l ++ l')) : Stamped l' := by
  induction l with
  | nil => exact h
  | cons d l ih => exact ih h.2

theorem Stamped.ge {l l' : List (Event Op Res ε)} (h : Stamped (l ++ l')) :
    ∀ e ∈ l, l'.length ≤ e.stamp := by
  induction l with
  | nil => simp
  | cons d l ih =>
    intro e he
    rcases List.mem_cons.mp he with rfl | he
    · rw [h.1]
      simp
    · exact ih h.2 e he

/-- Of an event in a log, the events with a smaller stamp are those before it. -/
theorem Stamped.split {log : List (Event Op Res ε)} (h : Stamped log) {e : Event Op Res ε}
    (he : e ∈ log) : ∃ l l', log = l ++ e :: l' ∧ e.stamp = l'.length ∧ Stamped l'
      ∧ (∀ d ∈ l', d.stamp < e.stamp) ∧ ∀ d ∈ l, e.stamp < d.stamp := by
  obtain ⟨l, l', rfl⟩ := List.append_of_mem he
  have hsplit : Stamped (e :: l') := h.of_append
  refine ⟨l, l', rfl, hsplit.1, hsplit.2, fun d hd => hsplit.1 ▸ hsplit.2.lt d hd, fun d hd => ?_⟩
  have := h.ge d hd
  simp only [List.length_cons] at this
  have := hsplit.1
  omega

theorem Stamped.filter_lt {l l' : List (Event Op Res ε)} {e : Event Op Res ε}
    (h : Stamped (l ++ e :: l')) : (l ++ e :: l').filter (·.stamp < e.stamp) = l' := by
  have hsplit : Stamped (e :: l') := h.of_append
  have hl : l.filter (·.stamp < e.stamp) = [] := by
    refine List.filter_eq_nil_iff.mpr fun d hd => ?_
    have := h.ge d hd
    have := hsplit.1
    simp only [List.length_cons] at *
    simp
    omega
  have hl' : l'.filter (·.stamp < e.stamp) = l' :=
    List.filter_eq_self.mpr fun d hd => by simpa [hsplit.1] using hsplit.2.lt d hd
  simp [hl, hl']

/-! ## Runs that follow a monitor -/

variable (m : Monitor Op Res ε Φ) (final : Φ → Prop) (φ₀ : κ → Φ)

structure Follows (s : Pool κ σ Op Res τ ε α) : Prop where
  stamped : Stamped s.log
  keeps : ∀ (i : ℕ) (p : Proc κ Op Res τ ε α), s.procs[i]? = some p →
    m.Safe final (m.phase (φ₀ p.call) i s.log) p.rest
  allowed : ∀ l e l', s.log = l ++ e :: l' → ∃ p : Proc κ Op Res τ ε α,
    s.procs[e.pid]? = some p ∧ m.allowed (m.phase (φ₀ p.call) e.pid l') e.op

variable {m final φ₀}
variable {exec : Prog.Handler Op Res τ ε σ} {start : κ → Prog Op Res τ ε α}
variable {G : Pool κ σ Op Res τ ε α → Act κ τ ε → Prop} {s s' : Pool κ σ Op Res τ ε α}

theorem Follows.pid (h : Follows m final φ₀ s) {e : Event Op Res ε} (he : e ∈ s.log) :
    ∃ p : Proc κ Op Res τ ε α, s.procs[e.pid]? = some p := by
  obtain ⟨l, l', hlog⟩ := List.append_of_mem he
  obtain ⟨p, hp, -⟩ := h.allowed l e l' hlog
  exact ⟨p, hp⟩

theorem follows_idle {db : σ} {now : τ} :
    Follows m final φ₀ (⟨db, now, [], []⟩ : Pool κ σ Op Res τ ε α) where
  stamped := trivial
  keeps := by simp
  allowed := by simp

theorem Follows.spawn (h : Follows m final φ₀ s) {c : κ}
    (hc : m.Safe final (φ₀ c) (start c)) :
    Follows m final φ₀ { s with procs := s.procs ++ [⟨c, (start c).settle s.now⟩] } where
  stamped := h.stamped
  keeps := by
    intro i p hp
    rcases spawn_procs hp with ⟨rfl, rfl⟩ | ⟨-, hp⟩
    · rw [Monitor.phase_of_forall_ne]
      · exact hc.settle s.now
      · intro e he heq
        obtain ⟨q, hq⟩ := h.pid he
        simp [heq] at hq
    · exact h.keeps i p hp
  allowed := by
    intro l e l' hlog
    obtain ⟨p, hp, hall⟩ := h.allowed l e l' hlog
    obtain ⟨hlt, -⟩ := List.getElem?_eq_some_iff.mp hp
    exact ⟨p, by rwa [List.getElem?_append_left hlt], hall⟩

theorem Follows.advance (h : Follows m final φ₀ s) {i : ℕ} {c : κ} {op : Op}
    {k : Except ε (Res op) → Prog Op Res τ ε α} (hi : s.procs[i]? = some ⟨c, .call op k⟩)
    (r : Except ε (Res op)) (db : σ) : Follows m final φ₀ (s.advance i c op r db k) where
  stamped := ⟨rfl, h.stamped⟩
  keeps := by
    intro j p hp
    rcases advance_procs hp with ⟨rfl, rfl⟩ | ⟨hne, hp⟩
    · rw [advance_log, Monitor.phase_cons_self (e := ⟨s.log.length, j, op, r⟩) rfl]
      exact ((h.keeps j _ hi).2 r).settle s.now
    · rw [advance_log, Monitor.phase_cons_of_ne (Ne.symm hne)]
      exact h.keeps j p hp
  allowed := by
    intro l e l' hlog
    rw [advance_log] at hlog
    rcases l with _ | ⟨d, l⟩
    · obtain ⟨rfl, rfl⟩ := List.cons_eq_cons.mp hlog
      exact ⟨_, advance_procs_self hi, (h.keeps i _ hi).1⟩
    · obtain ⟨-, hlog⟩ := List.cons_eq_cons.mp hlog
      obtain ⟨p, hp, hall⟩ := h.allowed l e l' hlog
      rcases eq_or_ne e.pid i with heq | hne
      · rw [heq] at hp hall ⊢
        rw [hi] at hp
        obtain rfl := Option.some.inj hp
        exact ⟨_, advance_procs_self hi, hall⟩
      · exact ⟨p, by rw [advance_procs_of_ne hne]; exact hp, hall⟩

/-- One act keeps the monitor followed, where a call that it starts keeps it. -/
theorem Follows.act (h : Follows m final φ₀ s) {a : Act κ τ ε}
    (hspawn : ∀ c, a = .spawn c → m.Safe final (φ₀ c) (start c))
    (ha : act exec start s a = some s') : Follows m final φ₀ s' := by
  rcases act_cases ha with ⟨c, rfl, rfl⟩ | ⟨t, rfl, rfl⟩ | ⟨i, c, op, k, rfl, hi, rfl⟩ |
    ⟨i, e, c, op, k, rfl, hi, rfl⟩
  · exact h.spawn (hspawn c rfl)
  · exact ⟨h.stamped, h.keeps, h.allowed⟩
  · exact h.advance hi _ _
  · exact h.advance hi _ _

/-! ## The phases of all calls -/

variable (m φ₀) in
/-- The phase that each call is in, and `φ` where there is no call. -/
def phases (φ : Φ) (s : Pool κ σ Op Res τ ε α) (i : ℕ) : Φ :=
  match s.procs[i]? with
  | some p => m.phase (φ₀ p.call) i s.log
  | none => φ

theorem phases_of_getElem? {φ : Φ} {i : ℕ} {p : Proc κ Op Res τ ε α} (hi : s.procs[i]? = some p) :
    phases m φ₀ φ s i = m.phase (φ₀ p.call) i s.log := by
  simp only [phases, hi]

theorem phases_advance {φ : Φ} {i : ℕ} {c : κ} {op : Op}
    {k : Except ε (Res op) → Prog Op Res τ ε α} (hi : s.procs[i]? = some ⟨c, .call op k⟩)
    (r : Except ε (Res op)) (db : σ) : phases m φ₀ φ (s.advance i c op r db k) =
      Function.update (phases m φ₀ φ s) i (m.next (phases m φ₀ φ s i) op r) := by
  funext j
  by_cases hij : j = i
  · subst hij
    rw [Function.update_self, phases_of_getElem? (advance_procs_self hi), phases_of_getElem? hi]
    exact Monitor.phase_cons_self (e := ⟨s.log.length, j, op, r⟩) rfl
  · rw [Function.update_of_ne hij]
    unfold phases
    rw [advance_procs_of_ne hij]
    cases s.procs[j]? with
    | none => rfl
    | some p => exact Monitor.phase_cons_of_ne (Ne.symm hij)

theorem Follows.phases_spawn (h : Follows m final φ₀ s) {φ : Φ} (c : κ)
    (rest : Prog Op Res τ ε α) : phases m φ₀ φ { s with procs := s.procs ++ [⟨c, rest⟩] } =
      Function.update (phases m φ₀ φ s) s.procs.length (φ₀ c) := by
  funext j
  by_cases hj : j = s.procs.length
  · subst hj
    have hnew : (s.procs ++ [⟨c, rest⟩])[s.procs.length]? = some ⟨c, rest⟩ := by simp
    rw [Function.update_self, phases_of_getElem? hnew, Monitor.phase_of_forall_ne]
    intro e he heq
    obtain ⟨q, hq⟩ := h.pid he
    simp [heq] at hq
  · rw [Function.update_of_ne hj]
    unfold phases
    have hsame : (s.procs ++ [⟨c, rest⟩])[j]? = s.procs[j]? := by
      rcases Nat.lt_or_ge j s.procs.length with hlt | hge
      · rw [List.getElem?_append_left hlt]
      · rw [List.getElem?_eq_none (by simp; omega), List.getElem?_eq_none hge]
    simp only [hsame]

/-- What an act does to the store and to the phases. -/
theorem Follows.act_cases (h : Follows m final φ₀ s) (φ : Φ) {a : Act κ τ ε}
    (ha : Pool.act exec start s a = some s') :
    (∃ c, a = .spawn c ∧ s'.db = s.db ∧ phases m φ₀ φ s' =
        Function.update (phases m φ₀ φ s) s.procs.length (φ₀ c))
    ∨ (∃ t, a = .tick t ∧ s'.db = s.db ∧ phases m φ₀ φ s' = phases m φ₀ φ s)
    ∨ (∃ i op, a = .step i ∧ m.allowed (phases m φ₀ φ s i) op
        ∧ s'.db = (exec op s.now s.db).2 ∧ phases m φ₀ φ s' = Function.update (phases m φ₀ φ s) i
          (m.next (phases m φ₀ φ s i) op (exec op s.now s.db).1))
    ∨ (∃ i e op, a = .fail i e ∧ m.allowed (phases m φ₀ φ s i) op ∧ s'.db = s.db
        ∧ phases m φ₀ φ s' = Function.update (phases m φ₀ φ s) i
          (m.next (phases m φ₀ φ s i) op (.error e))) := by
  have hallowed : ∀ {i c op k}, s.procs[i]? = some ⟨c, .call op k⟩ →
      m.allowed (phases m φ₀ φ s i) op := by
    intro i c op k hi
    rw [phases_of_getElem? hi]
    exact (h.keeps i _ hi).1
  rcases Pool.act_cases ha with ⟨c, rfl, rfl⟩ | ⟨t, rfl, rfl⟩ | ⟨i, c, op, k, rfl, hi, rfl⟩ |
    ⟨i, e, c, op, k, rfl, hi, rfl⟩
  · exact .inl ⟨c, rfl, rfl, h.phases_spawn c _⟩
  · exact .inr (.inl ⟨t, rfl, rfl, rfl⟩)
  · exact .inr (.inr (.inl ⟨i, op, rfl, hallowed hi, rfl, phases_advance hi _ _⟩))
  · exact .inr (.inr (.inr ⟨i, e, op, rfl, hallowed hi, rfl, phases_advance hi _ _⟩))

/-- Along a run whose calls all keep the monitor, it is followed. -/
theorem Steps.follows (run : Steps exec start G s s')
    (hspawn : ∀ s c, G s (.spawn c) → m.Safe final (φ₀ c) (start c))
    (h : Follows m final φ₀ s) : Follows m final φ₀ s' :=
  Steps.inv (I := Follows m final φ₀) run
    (fun s _ _ hI hG ha => hI.act (fun c hc => hspawn s c (hc ▸ hG)) ha) h

end Pool
