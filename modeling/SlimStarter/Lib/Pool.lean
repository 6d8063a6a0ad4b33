import Mathlib.Logic.Relation
import Mathlib.Tactic
import SlimStarter.Lib.Prog

/-!
# Pools of programs that share a store

A `Pool` is a store, a clock, the calls made so far with what is left of each one's program, and
the log of the statements executed. One act starts a call, lets one call execute the statement it
stands at, makes that statement fail, or moves the clock; every interleaving at the granularity of
single statements is a sequence of acts, and a call that is never scheduled again has died.

`act_cases` says once what an act can do. `Steps.inv` is the induction over a run, and
`solo` lets a call of a pool run to its end alone, as `Prog.run` does.
-/

/-- A statement as it was executed: its place in the log, the call that issued it, and the reply. -/
structure Event (Op : Type) (Res : Op → Type) (ε : Type) where
  stamp : ℕ
  pid : ℕ
  op : Op
  reply : Except ε (Res op)

/-- A call and what is left of its program. -/
structure Proc (κ Op : Type) (Res : Op → Type) (τ ε α : Type) where
  call : κ
  rest : Prog Op Res τ ε α

structure Pool (κ σ Op : Type) (Res : Op → Type) (τ ε α : Type) where
  db : σ
  now : τ
  procs : List (Proc κ Op Res τ ε α)
  log : List (Event Op Res ε)

inductive Act (κ τ ε : Type) where
  | spawn (c : κ)
  | step (i : ℕ)
  | fail (i : ℕ) (e : ε)
  | tick (t : τ)
deriving DecidableEq

namespace Pool

variable {κ σ Op : Type} {Res : Op → Type} {τ ε α : Type}
variable (exec : Prog.Handler Op Res τ ε σ) (start : κ → Prog Op Res τ ε α)

/-- Call `i`, of descriptor `c`, got the reply `r` to `op`; the store is `db` after it. -/
def advance (s : Pool κ σ Op Res τ ε α) (i : ℕ) (c : κ) (op : Op) (r : Except ε (Res op)) (db : σ)
    (k : Except ε (Res op) → Prog Op Res τ ε α) : Pool κ σ Op Res τ ε α where
  db := db
  now := s.now
  procs := s.procs.set i ⟨c, (k r).settle s.now⟩
  log := ⟨s.log.length, i, op, r⟩ :: s.log

/-- What an act does, `none` where it is not possible. -/
def act (s : Pool κ σ Op Res τ ε α) : Act κ τ ε → Option (Pool κ σ Op Res τ ε α)
  | .spawn c => some { s with procs := s.procs ++ [⟨c, (start c).settle s.now⟩] }
  | .step i =>
    match s.procs[i]? with
    | some ⟨c, .call op k⟩ =>
      some (s.advance i c op (exec op s.now s.db).1 (exec op s.now s.db).2 k)
    | _ => none
  | .fail i e =>
    match s.procs[i]? with
    | some ⟨c, .call op k⟩ => some (s.advance i c op (.error e) s.db k)
    | _ => none
  | .tick t => some { s with now := t }

variable {exec start}

theorem act_step {s : Pool κ σ Op Res τ ε α} {i : ℕ} {c : κ} {op : Op}
    {k : Except ε (Res op) → Prog Op Res τ ε α} (h : s.procs[i]? = some ⟨c, .call op k⟩) :
    act exec start s (.step i) =
      some (s.advance i c op (exec op s.now s.db).1 (exec op s.now s.db).2 k) := by
  simp only [act, h]

/-- An act starts a call, moves the clock, or gives one call a reply: the store's own, or a failure
that leaves the store as it was. -/
theorem act_cases {s s' : Pool κ σ Op Res τ ε α} {a : Act κ τ ε}
    (h : act exec start s a = some s') :
    (∃ c, a = .spawn c ∧ s' = { s with procs := s.procs ++ [⟨c, (start c).settle s.now⟩] })
    ∨ (∃ t, a = .tick t ∧ s' = { s with now := t })
    ∨ (∃ i c op k, a = .step i ∧ s.procs[i]? = some ⟨c, .call op k⟩ ∧
        s' = s.advance i c op (exec op s.now s.db).1 (exec op s.now s.db).2 k)
    ∨ (∃ i e c op k, a = .fail i e ∧ s.procs[i]? = some ⟨c, .call op k⟩ ∧
        s' = s.advance i c op (.error e) s.db k) := by
  cases a with
  | spawn c => exact .inl ⟨c, rfl, by simpa [act] using h.symm⟩
  | tick t => exact .inr (.inl ⟨t, rfl, by simpa [act] using h.symm⟩)
  | step i =>
    simp only [act] at h
    split at h
    · rename_i c op k hi
      exact .inr (.inr (.inl ⟨i, c, op, k, rfl, hi, by simpa using h.symm⟩))
    · simp at h
  | fail i e =>
    simp only [act] at h
    split at h
    · rename_i c op k hi
      exact .inr (.inr (.inr ⟨i, e, c, op, k, rfl, hi, by simpa using h.symm⟩))
    · simp at h

/-! ## Runs -/

variable (exec start)

/-- One act that the guard admits. -/
def Step (G : Pool κ σ Op Res τ ε α → Act κ τ ε → Prop) (s s' : Pool κ σ Op Res τ ε α) : Prop :=
  ∃ a, G s a ∧ act exec start s a = some s'

/-- Any number of acts that the guard admits. -/
abbrev Steps (G : Pool κ σ Op Res τ ε α → Act κ τ ε → Prop) :
    Pool κ σ Op Res τ ε α → Pool κ σ Op Res τ ε α → Prop :=
  Relation.ReflTransGen (Step exec start G)

variable {exec start}
variable {G G' : Pool κ σ Op Res τ ε α → Act κ τ ε → Prop}

/-- What one admitted act preserves, a run preserves. -/
theorem Steps.inv {I : Pool κ σ Op Res τ ε α → Prop} {s s' : Pool κ σ Op Res τ ε α}
    (run : Steps exec start G s s')
    (step : ∀ s a s', I s → G s a → act exec start s a = some s' → I s') (h : I s) : I s' := by
  induction run with
  | refl => exact h
  | tail _ hstep ih =>
    obtain ⟨a, hG, ha⟩ := hstep
    exact step _ a _ ih hG ha

theorem Steps.mono (hG : ∀ s a, G s a → G' s a) {s s' : Pool κ σ Op Res τ ε α}
    (run : Steps exec start G s s') : Steps exec start G' s s' :=
  Relation.ReflTransGen.mono (fun _ _ ⟨a, h, ha⟩ => ⟨a, hG _ a h, ha⟩) _ _ run

variable (exec start) in
/-- Execute a schedule, `none` where an act is not admitted or not possible. -/
def acts (G : Pool κ σ Op Res τ ε α → Act κ τ ε → Prop) [∀ s a, Decidable (G s a)] :
    List (Act κ τ ε) → Pool κ σ Op Res τ ε α → Option (Pool κ σ Op Res τ ε α)
  | [], s => some s
  | a :: as, s => if G s a then (act exec start s a).bind (acts G as) else none

theorem steps_of_acts [∀ s a, Decidable (G s a)] :
    ∀ {as : List (Act κ τ ε)} {s s' : Pool κ σ Op Res τ ε α},
      acts exec start G as s = some s' → Steps exec start G s s'
  | [], s, s', h => by
    simp only [acts, Option.some.injEq] at h
    exact h ▸ .refl
  | a :: as, s, s', h => by
    simp only [acts] at h
    split_ifs at h with hG
    obtain ⟨s₁, h₁, h₂⟩ := Option.bind_eq_some_iff.mp h
    exact .head ⟨a, hG, h₁⟩ (steps_of_acts h₂)

/-! ## What the other calls keep -/

@[simp] theorem advance_db (s : Pool κ σ Op Res τ ε α) (i : ℕ) (c : κ) (op : Op)
    (r : Except ε (Res op)) (db : σ) (k : Except ε (Res op) → Prog Op Res τ ε α) :
    (s.advance i c op r db k).db = db := rfl

@[simp] theorem advance_now (s : Pool κ σ Op Res τ ε α) (i : ℕ) (c : κ) (op : Op)
    (r : Except ε (Res op)) (db : σ) (k : Except ε (Res op) → Prog Op Res τ ε α) :
    (s.advance i c op r db k).now = s.now := rfl

@[simp] theorem advance_log (s : Pool κ σ Op Res τ ε α) (i : ℕ) (c : κ) (op : Op)
    (r : Except ε (Res op)) (db : σ) (k : Except ε (Res op) → Prog Op Res τ ε α) :
    (s.advance i c op r db k).log = ⟨s.log.length, i, op, r⟩ :: s.log := rfl

/-- After an advance of call `i`, a call is `i` with its new rest or the same as before. -/
theorem advance_procs {s : Pool κ σ Op Res τ ε α} {i : ℕ} {c : κ} {op : Op}
    {r : Except ε (Res op)} {db : σ} {k : Except ε (Res op) → Prog Op Res τ ε α} {j : ℕ}
    {p : Proc κ Op Res τ ε α} (h : (s.advance i c op r db k).procs[j]? = some p) :
    (j = i ∧ p = ⟨c, (k r).settle s.now⟩) ∨ (j ≠ i ∧ s.procs[j]? = some p) := by
  simp only [advance, List.getElem?_set] at h
  split_ifs at h with hij hlt
  · exact .inl ⟨hij.symm, by simpa using h.symm⟩
  · exact .inr ⟨fun he => hij he.symm, h⟩

theorem advance_procs_self {s : Pool κ σ Op Res τ ε α} {i : ℕ} {c : κ} {op : Op}
    {r : Except ε (Res op)} {db : σ} {k : Except ε (Res op) → Prog Op Res τ ε α}
    {p : Proc κ Op Res τ ε α} (h : s.procs[i]? = some p) :
    (s.advance i c op r db k).procs[i]? = some ⟨c, (k r).settle s.now⟩ := by
  obtain ⟨hlt, -⟩ := List.getElem?_eq_some_iff.mp h
  simp [advance, hlt]

theorem advance_procs_of_ne {s : Pool κ σ Op Res τ ε α} {i j : ℕ} {c : κ} {op : Op}
    {r : Except ε (Res op)} {db : σ} {k : Except ε (Res op) → Prog Op Res τ ε α} (h : j ≠ i) :
    (s.advance i c op r db k).procs[j]? = s.procs[j]? := by
  simp [advance, Ne.symm h]

theorem advance_call {s : Pool κ σ Op Res τ ε α} {i j : ℕ} {c : κ} {op : Op}
    {r : Except ε (Res op)} {db : σ} {k : Except ε (Res op) → Prog Op Res τ ε α}
    {p : Proc κ Op Res τ ε α} (hi : s.procs[i]? = some ⟨c, .call op k⟩)
    (h : (s.advance i c op r db k).procs[j]? = some p) :
    ∃ q : Proc κ Op Res τ ε α, s.procs[j]? = some q ∧ q.call = p.call := by
  rcases advance_procs h with ⟨rfl, rfl⟩ | ⟨-, hp⟩
  · exact ⟨_, hi, rfl⟩
  · exact ⟨p, hp, rfl⟩

theorem spawn_procs {s : Pool κ σ Op Res τ ε α} {p q : Proc κ Op Res τ ε α} {j : ℕ}
    (h : (s.procs ++ [q])[j]? = some p) :
    (j = s.procs.length ∧ p = q) ∨ (j < s.procs.length ∧ s.procs[j]? = some p) := by
  rcases lt_trichotomy j s.procs.length with hj | rfl | hj
  · exact .inr ⟨hj, by rwa [List.getElem?_append_left hj] at h⟩
  · exact .inl ⟨rfl, by simpa using h.symm⟩
  · rw [List.getElem?_eq_none (by simp; omega)] at h
    simp at h

/-- An act leaves every call where it is in the list. -/
theorem act_procs {s s' : Pool κ σ Op Res τ ε α} {a : Act κ τ ε}
    (ha : act exec start s a = some s') {i : ℕ} {p : Proc κ Op Res τ ε α}
    (hp : s.procs[i]? = some p) : ∃ p', s'.procs[i]? = some p' ∧ p'.call = p.call := by
  have hadvance : ∀ {j c op k r db}, s.procs[j]? = some ⟨c, .call op k⟩ →
      ∃ p', (s.advance j c op r db k).procs[i]? = some p' ∧ p'.call = p.call := by
    intro j c op k r db hj
    by_cases hij : i = j
    · subst hij
      obtain rfl := Option.some.inj (hp.symm.trans hj)
      exact ⟨_, advance_procs_self hj, rfl⟩
    · exact ⟨p, (advance_procs_of_ne hij).trans hp, rfl⟩
  obtain ⟨c, rfl, rfl⟩ | ⟨t, rfl, rfl⟩ | ⟨j, c, op, k, rfl, hj, rfl⟩ |
    ⟨j, e, c, op, k, rfl, hj, rfl⟩ := act_cases ha
  · obtain ⟨hlt, -⟩ := List.getElem?_eq_some_iff.mp hp
    exact ⟨p, by rwa [List.getElem?_append_left hlt], rfl⟩
  · exact ⟨p, hp, rfl⟩
  · exact hadvance hj
  · exact hadvance hj

theorem act_calls {s s' : Pool κ σ Op Res τ ε α} {a : Act κ τ ε}
    (ha : act exec start s a = some s') {p : Proc κ Op Res τ ε α}
    (hp : p ∈ s'.procs) : a = .spawn p.call ∨ ∃ p₀ ∈ s.procs, p₀.call = p.call := by
  have hadvance : ∀ {j c op k r db}, s.procs[j]? = some ⟨c, .call op k⟩ →
      p ∈ (s.advance j c op r db k).procs → ∃ p₀ ∈ s.procs, p₀.call = p.call := by
    intro j c op k r db hj hp
    rcases List.mem_or_eq_of_mem_set hp with hp | rfl
    · exact ⟨p, hp, rfl⟩
    · exact ⟨_, List.mem_of_getElem? hj, rfl⟩
  obtain ⟨c, rfl, rfl⟩ | ⟨t, rfl, rfl⟩ | ⟨j, c, op, k, rfl, hj, rfl⟩ |
    ⟨j, e, c, op, k, rfl, hj, rfl⟩ := act_cases ha
  · rcases List.mem_append.mp hp with hp | hp
    · exact .inr ⟨p, hp, rfl⟩
    · rw [List.mem_singleton.mp hp]
      exact .inl rfl
  · exact .inr ⟨p, hp, rfl⟩
  · exact .inr (hadvance hj hp)
  · exact .inr (hadvance hj hp)

theorem act_log {s s' : Pool κ σ Op Res τ ε α} {a : Act κ τ ε}
    (ha : act exec start s a = some s') {ev : Event Op Res ε} (hev : ev ∈ s.log) :
    ev ∈ s'.log := by
  obtain ⟨c, rfl, rfl⟩ | ⟨t, rfl, rfl⟩ | ⟨j, c, op, k, rfl, hj, rfl⟩ |
    ⟨j, e, c, op, k, rfl, hj, rfl⟩ := act_cases ha
  · exact hev
  · exact hev
  · exact List.mem_cons_of_mem _ hev
  · exact List.mem_cons_of_mem _ hev

variable (exec start) in
/-- From any pool, a call that stands at a statement can run to its end alone, and leaves the
store and the outcome that `Prog.run` computes. -/
theorem solo (hG : ∀ s i, G s (.step i)) (p : Prog Op Res τ ε α) :
    ∀ (s : Pool κ σ Op Res τ ε α) (i : ℕ) (c : κ),
      s.procs[i]? = some ⟨c, p.settle s.now⟩ →
      ∃ s', Steps exec start G s s' ∧ s'.db = (p.run exec s.now s.db).2 ∧ s'.now = s.now
        ∧ s'.procs = s.procs.set i ⟨c, match (p.run exec s.now s.db).1 with
            | .ok a => .ret a
            | .error e => .throw e⟩ := by
  induction p with
  | ret a =>
    intro s i c h
    refine ⟨s, .refl, rfl, rfl, ?_⟩
    obtain ⟨hlt, hi⟩ := List.getElem?_eq_some_iff.mp h
    rw [Prog.settle_ret] at hi
    simp only [Prog.run_ret, ← hi, List.set_getElem_self]
  | throw e =>
    intro s i c h
    refine ⟨s, .refl, rfl, rfl, ?_⟩
    obtain ⟨hlt, hi⟩ := List.getElem?_eq_some_iff.mp h
    rw [Prog.settle_throw] at hi
    simp only [Prog.run_throw, ← hi, List.set_getElem_self]
  | clock k ih =>
    intro s i c h
    exact ih s.now s i c h
  | call op k ih =>
    intro s i c h
    rw [Prog.settle_call] at h
    obtain ⟨s', hs, hdb, hnow, hprocs⟩ := ih (exec op s.now s.db).1
      (s.advance i c op (exec op s.now s.db).1 (exec op s.now s.db).2 k) i c (advance_procs_self h)
    refine ⟨s', .head ⟨.step i, hG s i, act_step h⟩ hs, by simpa using hdb, by simpa using hnow, ?_⟩
    rw [hprocs]
    simp [advance]

variable (exec start) in
/-- An admitted call can run to its end alone once it is made. -/
theorem spawn_solo (hG : ∀ s i, G s (.step i)) {s : Pool κ σ Op Res τ ε α} {c : κ}
    (hc : G s (.spawn c)) :
    ∃ s', Steps exec start G s s' ∧ s'.db = ((start c).run exec s.now s.db).2 ∧ s'.now = s.now
      ∧ s'.procs = s.procs ++ [⟨c, match ((start c).run exec s.now s.db).1 with
          | .ok a => .ret a
          | .error e => .throw e⟩] := by
  obtain ⟨s', hs, hdb, hnow, hprocs⟩ := solo exec start hG (start c)
    { s with procs := s.procs ++ [⟨c, (start c).settle s.now⟩] } s.procs.length c (by simp)
  exact ⟨s', .head ⟨.spawn c, hc, rfl⟩ hs, hdb, hnow, by simpa using hprocs⟩

/-- What was logged stays logged throughout a run. -/
theorem Steps.log {s s' : Pool κ σ Op Res τ ε α} (run : Steps exec start G s s')
    {ev : Event Op Res ε} (hev : ev ∈ s.log) : ev ∈ s'.log :=
  run.inv (I := fun s => ev ∈ s.log) (fun _ _ _ h _ ha => act_log ha h) hev

end Pool
