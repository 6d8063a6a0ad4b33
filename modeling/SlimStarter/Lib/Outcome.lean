import SlimStarter.Lib.Pool

/-!
# What a program comes to while the store keeps its word

`Meets R Q A` holds of a program whose statements satisfy `Q` and whose outcome, a result or an
exception, satisfies `A` as long as the replies, failures among them, satisfy `R`. Where every call
of a pool is such a program, and an invariant of the store grants `R` and survives the statements of
`Q`, each call that has ended has come to an outcome of `A` (`Steps.meeting`, `Meeting.outcome`).
-/

namespace Prog

variable {Op : Type} {Res : Op → Type} {τ ε α β : Type}

/-- What a program that has ended came to. -/
def outcome? : Prog Op Res τ ε α → Option (Except ε α)
  | ret a => some (.ok a)
  | throw e => some (.error e)
  | _ => none

/-- While the replies satisfy `R`, every statement satisfies `Q` and the outcome `A`. -/
def Meets (R : (op : Op) → Except ε (Res op) → Prop) (Q : Op → Prop) (A : Except ε α → Prop) :
    Prog Op Res τ ε α → Prop
  | ret a => A (.ok a)
  | throw e => A (.error e)
  | clock k => ∀ t, Meets R Q A (k t)
  | call op k => Q op ∧ ∀ r, R op r → Meets R Q A (k r)

variable {R : (op : Op) → Except ε (Res op) → Prop} {Q : Op → Prop} {A : Except ε α → Prop}

@[simp] theorem meets_ret {a : α} : Meets R Q A (ret a : Prog Op Res τ ε α) ↔ A (.ok a) := Iff.rfl

@[simp] theorem meets_throw {e : ε} :
    Meets R Q A (throw e : Prog Op Res τ ε α) ↔ A (.error e) := Iff.rfl

theorem meets_bind {B : Except ε β → Prop} {p : Prog Op Res τ ε α} {f : α → Prog Op Res τ ε β} :
    Meets R Q B (p >>= f) ↔ Meets R Q (fun
      | .ok a => Meets R Q B (f a)
      | .error e => B (.error e)) p := by
  induction p with
  | ret a => rfl
  | throw e => rfl
  | clock k ih => exact forall_congr' fun t => ih t
  | call op k ih =>
    exact and_congr_right fun _ => forall_congr' fun r => imp_congr_right fun _ => ih r

theorem meets_map {B : Except ε β → Prop} {p : Prog Op Res τ ε α} {f : α → β} :
    Meets R Q B (f <$> p) ↔ Meets R Q (fun r => B (r.map f)) p := by
  rw [← bind_pure_comp, meets_bind]
  have hpost : (fun r : Except ε α => match r with
      | .ok a => Meets R Q B (pure (f a) : Prog Op Res τ ε β)
      | .error e => B (.error e)) = fun r => B (r.map f) := by
    funext r
    cases r <;> rfl
  exact iff_of_eq (congrArg (Meets R Q · p) hpost)

theorem meets_stmt {op : Op} {A : Except ε (Res op) → Prop} :
    Meets R Q A (stmt op : Prog Op Res τ ε (Res op)) ↔ Q op ∧ ∀ r, R op r → A r := by
  refine and_congr_right fun _ => forall_congr' fun r => imp_congr_right fun _ => ?_
  cases r <;> rfl

theorem meets_tryCatch {p : Prog Op Res τ ε α} {f : ε → Prog Op Res τ ε α} :
    Meets R Q A (tryCatch p f) ↔ Meets R Q (fun
      | .ok a => A (.ok a)
      | .error e => Meets R Q A (f e)) p := by
  induction p with
  | ret a => rfl
  | throw e => rfl
  | clock k ih => exact forall_congr' fun t => ih t
  | call op k ih =>
    exact and_congr_right fun _ => forall_congr' fun r => imp_congr_right fun _ => ih r

theorem Meets.mono {B : Except ε α → Prop} {p : Prog Op Res τ ε α} (h : Meets R Q A p)
    (hA : ∀ r, A r → B r) : Meets R Q B p := by
  induction p with
  | ret a => exact hA _ h
  | throw e => exact hA _ h
  | clock k ih => exact fun t => ih t (h t)
  | call op k ih => exact ⟨h.1, fun r hr => ih r (h.2 r hr)⟩

theorem Meets.settle {p : Prog Op Res τ ε α} (now : τ) (h : Meets R Q A p) :
    Meets R Q A (settle now p) := by
  induction p with
  | ret a => exact h
  | throw e => exact h
  | clock k ih => exact ih now (h now)
  | call op k ih => exact h

theorem Meets.outcome {p : Prog Op Res τ ε α} (h : Meets R Q A p) {r : Except ε α}
    (hr : p.outcome? = some r) : A r := by
  cases p with
  | ret a =>
    obtain rfl := Option.some.inj hr
    exact h
  | throw e =>
    obtain rfl := Option.some.inj hr
    exact h
  | _ => cases hr

end Prog

/-! ## Pools -/

namespace Pool

variable {κ σ Op : Type} {Res : Op → Type} {τ ε α : Type}
variable {exec : Prog.Handler Op Res τ ε σ} {start : κ → Prog Op Res τ ε α}
variable {G : Pool κ σ Op Res τ ε α → Act κ τ ε → Prop}

/-- The store keeps `I`, and every call is on the way to an outcome that is right for it. -/
structure Meeting (I : σ → Prop) (R : (op : Op) → Except ε (Res op) → Prop) (Q : Op → Prop)
    (A : κ → Except ε α → Prop) (s : Pool κ σ Op Res τ ε α) : Prop where
  store : I s.db
  rest : ∀ p ∈ s.procs, Prog.Meets R Q (A p.call) p.rest

variable {I : σ → Prop} {R : (op : Op) → Except ε (Res op) → Prop} {Q : Op → Prop}
variable {A : κ → Except ε α → Prop} {s s' : Pool κ σ Op Res τ ε α} {a : Act κ τ ε}

theorem Meeting.outcome (h : Meeting I R Q A s) {p : Proc κ Op Res τ ε α} (hp : p ∈ s.procs)
    {r : Except ε α} (hr : p.rest.outcome? = some r) : A p.call r :=
  (h.rest p hp).outcome hr

section Act

variable (hreply : ∀ op now db, I db → R op (exec op now db).1)
variable (hstore : ∀ op now db, Q op → I db → I (exec op now db).2)
variable (hspawn : ∀ s c, G s (.spawn c) → Prog.Meets R Q (A c) (start c))
variable (hfail : ∀ s i e, G s (.fail i e) → ∀ c op k, s.procs[i]? = some ⟨c, .call op k⟩ →
  R op (.error e))

include hreply hstore in
/-- A call that runs on alone comes to an outcome that is right for it. -/
theorem Meeting.run (h : Meeting I R Q A s) {p : Proc κ Op Res τ ε α} (hp : p ∈ s.procs) :
    A p.call (p.rest.run exec s.now s.db).1 := by
  have hrun : ∀ (q : Prog Op Res τ ε α) (db : σ), Prog.Meets R Q (A p.call) q → I db →
      A p.call (q.run exec s.now db).1 := by
    intro q
    induction q with
    | ret a => exact fun db hq _ => hq
    | throw e => exact fun db hq _ => hq
    | clock k ih => exact fun db hq hdb => ih s.now db (hq s.now) hdb
    | call op k ih =>
      exact fun db hq hdb => ih _ _ (hq.2 _ (hreply op _ _ hdb)) (hstore op _ _ hq.1 hdb)
  exact hrun p.rest s.db (h.rest p hp) h.store

include hreply hstore hspawn hfail

theorem Meeting.act (h : Meeting I R Q A s) (hG : G s a)
    (ha : Pool.act exec start s a = some s') : Meeting I R Q A s' := by
  have hadvance : ∀ {j c op k r db}, s.procs[j]? = some ⟨c, .call op k⟩ → R op r → I db →
      Meeting I R Q A (s.advance j c op r db k) := by
    intro j c op k r db hj hr hdb
    refine ⟨hdb, fun p hp => ?_⟩
    rcases List.mem_or_eq_of_mem_set hp with hp | rfl
    · exact h.rest p hp
    · exact ((h.rest _ (List.mem_of_getElem? hj)).2 r hr).settle s.now
  obtain ⟨c, rfl, rfl⟩ | ⟨t, rfl, rfl⟩ | ⟨j, c, op, k, rfl, hj, rfl⟩ |
    ⟨j, e, c, op, k, rfl, hj, rfl⟩ := act_cases ha
  · refine ⟨h.store, fun p hp => ?_⟩
    rcases List.mem_append.mp hp with hp | hp
    · exact h.rest p hp
    · obtain rfl := List.mem_singleton.mp hp
      exact (hspawn s c hG).settle s.now
  · exact ⟨h.store, h.rest⟩
  · exact hadvance hj (hreply op _ _ h.store)
      (hstore op _ _ (h.rest _ (List.mem_of_getElem? hj)).1 h.store)
  · exact hadvance hj (hfail s j e hG c op k hj) h.store

theorem Steps.meeting (run : Steps exec start G s s') (h : Meeting I R Q A s) :
    Meeting I R Q A s' :=
  run.inv (fun _ _ _ hs hG ha => hs.act hreply hstore hspawn hfail hG ha) h

end Act

end Pool
