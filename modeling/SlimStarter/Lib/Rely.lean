import SlimStarter.Lib.Outcome
import SlimStarter.Lib.Trace

/-!
# What a program issues while the store keeps its word

`Under R Q A` holds of a program whose statements satisfy `Q` and whose results satisfy `A` as long
as the replies satisfy `R`. Where every call of a pool is such a program, with a `Q` of its own, and
an invariant of the store grants `R` and survives the statements that the calls may issue, the
invariant holds throughout a run and every logged statement was one its call may issue (`Kept`).

It is `Meets` where every statement may fail and any exception will do (`under_iff_meets`).

`translate` embeds a program over one set of statements into a larger one.
-/

namespace Prog

variable {Op Op' : Type} {Res : Op → Type} {Res' : Op' → Type} {τ ε α β : Type}

/-- Issue `f op` where the program issues `op`. -/
def translate (f : Op → Op') (g : (op : Op) → Res' (f op) → Res op) :
    Prog Op Res τ ε α → Prog Op' Res' τ ε α
  | ret a => ret a
  | throw e => throw e
  | clock k => clock fun t => (k t).translate f g
  | call op k => call (f op) fun r => (k (r.map (g op))).translate f g

theorem only_translate {f : Op → Op'} {g : (op : Op) → Res' (f op) → Res op} {Q : Op' → Prop}
    (hQ : ∀ op, Q (f op)) (p : Prog Op Res τ ε α) :
    Only Q (fun _ => True) (p.translate f g) := by
  induction p with
  | ret a => trivial
  | throw e => trivial
  | clock k ih => exact fun t => ih t
  | call op k ih => exact ⟨hQ op, fun r => ih _⟩

/-- The replies that an embedded program gets take the program itself along. -/
theorem Reaches.of_translate {f : Op → Op'} {g : (op : Op) → Res' (f op) → Res op}
    {p : Prog Op Res τ ε α} {rs : List (Reply Op' Res' ε)} {q : Prog Op' Res' τ ε α}
    (h : Reaches (p.translate f g) rs q) : ∃ rs' q', q = q'.translate f g ∧ Reaches p rs' q'
      ∧ List.Forall₂ (fun r r' => ∃ a, r = ⟨f r'.op, a⟩ ∧ r'.reply = a.map (g r'.op)) rs rs' := by
  induction p generalizing rs with
  | ret a =>
    cases h
    exact ⟨[], .ret a, rfl, .refl _, .nil⟩
  | throw e =>
    cases h
    exact ⟨[], .throw e, rfl, .refl _, .nil⟩
  | clock k ih =>
    cases h with
    | refl => exact ⟨[], .clock k, rfl, .refl _, .nil⟩
    | clock h =>
      obtain ⟨rs', q', hq, hp, hrs⟩ := ih _ h
      exact ⟨rs', q', hq, .clock hp, hrs⟩
  | call op k ih =>
    cases h with
    | refl => exact ⟨[], .call op k, rfl, .refl _, .nil⟩
    | call h =>
      obtain ⟨rs', q', hq, hp, hrs⟩ := ih _ h
      exact ⟨_, q', hq, .call hp, .cons ⟨_, rfl, rfl⟩ hrs⟩

/-- An embedded program runs on its part of the store, which `get` reads and `set` replaces. -/
theorem run_translate {σ σ' : Type} {f : Op → Op'} {g : (op : Op) → Res' (f op) → Res op}
    {exec : Handler Op Res τ ε σ} {exec' : Handler Op' Res' τ ε σ'} (get : σ' → σ)
    (set : σ' → σ → σ') (hexec : ∀ op now s, (exec' (f op) now s).1.map (g op) =
        (exec op now (get s)).1 ∧ (exec' (f op) now s).2 = set s (exec op now (get s)).2)
    (hself : ∀ s, set s (get s) = s) (hget : ∀ s x, get (set s x) = x)
    (hset : ∀ s x y, set (set s x) y = set s y) {now : τ} (p : Prog Op Res τ ε α) (s : σ') :
    run exec' now (p.translate f g) s =
      ((run exec now p (get s)).1, set s (run exec now p (get s)).2) := by
  induction p generalizing s with
  | ret a => simp [translate, hself]
  | throw e => simp [translate, hself]
  | clock k ih => exact ih now s
  | call op k ih =>
    obtain ⟨hreply, hstore⟩ := hexec op now s
    simp only [translate, run_call]
    rw [hreply, hstore, ih, hget, hset]

/-! ## Rely and guarantee -/

/-- While the replies satisfy `R`, every statement satisfies `Q` and every result `A`. -/
def Under (R : (op : Op) → Res op → Prop) (Q : Op → Prop) (A : α → Prop) :
    Prog Op Res τ ε α → Prop
  | ret a => A a
  | throw _ => True
  | clock k => ∀ t, Under R Q A (k t)
  | call op k => Q op ∧ ∀ r, (∀ a, r = .ok a → R op a) → Under R Q A (k r)

variable {R : (op : Op) → Res op → Prop} {Q : Op → Prop} {A : α → Prop}

@[simp] theorem under_ret {a : α} : Under R Q A (ret a : Prog Op Res τ ε α) ↔ A a := Iff.rfl

@[simp] theorem under_throw {e : ε} : Under R Q A (throw e : Prog Op Res τ ε α) := trivial

@[simp] theorem under_clock {k : τ → Prog Op Res τ ε α} :
    Under R Q A (clock k) ↔ ∀ t, Under R Q A (k t) := Iff.rfl

@[simp] theorem under_call_resume {op : Op} {f : Res op → Prog Op Res τ ε α} :
    Under R Q A (call op (resume f)) ↔ Q op ∧ ∀ a, R op a → Under R Q A (f a) := by
  refine and_congr_right fun _ => ⟨fun h a ha => h (.ok a) ?_, fun h r hr => ?_⟩
  · rintro a' ⟨⟩
    exact ha
  · cases r with
    | ok a => exact h a (hr a rfl)
    | error e => exact under_throw

/-- `Under` is `Meets` where every statement may fail and any exception will do. -/
theorem under_iff_meets {p : Prog Op Res τ ε α} : Under R Q A p ↔
    Meets (fun op r => ∀ a, r = .ok a → R op a) Q (fun r => ∀ a, r = .ok a → A a) p := by
  induction p with
  | ret a => simp
  | throw e => simp
  | clock k ih => exact forall_congr' ih
  | call op k ih =>
    exact and_congr_right fun _ => forall_congr' fun r => imp_congr_right fun _ => ih r

theorem under_bind {B : β → Prop} {p : Prog Op Res τ ε α} {f : α → Prog Op Res τ ε β} :
    Under R Q B (p >>= f) ↔ Under R Q (fun a => Under R Q B (f a)) p := by
  rw [under_iff_meets, meets_bind, under_iff_meets]
  refine iff_of_eq (congrArg (Meets _ Q · p) (funext fun r => ?_))
  cases r <;> simp [under_iff_meets]

theorem under_map {B : β → Prop} {p : Prog Op Res τ ε α} {f : α → β} :
    Under R Q B (f <$> p) ↔ Under R Q (fun a => B (f a)) p := by
  rw [← bind_pure_comp, under_bind]
  rfl

theorem Under.mono {B : α → Prop} {p : Prog Op Res τ ε α} (h : Under R Q A p)
    (hA : ∀ a, A a → B a) : Under R Q B p :=
  under_iff_meets.mpr ((under_iff_meets.mp h).mono fun _ hr a ha => hA a (hr a ha))

theorem Under.imp {Q' : Op → Prop} {p : Prog Op Res τ ε α} (h : Under R Q A p)
    (hQ : ∀ op, Q op → Q' op) : Under R Q' A p := by
  induction p with
  | ret a => exact h
  | throw e => trivial
  | clock k ih => exact fun t => ih t (h t)
  | call op k ih => exact ⟨hQ op h.1, fun r hr => ih r (h.2 r hr)⟩

theorem Only.under {p : Prog Op Res τ ε α} (h : Only Q A p) : Under R Q A p := by
  induction p with
  | ret a => exact h
  | throw e => trivial
  | clock k ih => exact fun t => ih t (h t)
  | call op k ih => exact ⟨h.1, fun r _ => ih r (h.2 r)⟩

/-- A program that may issue anything. -/
theorem under_any (hQ : ∀ op, Q op) (p : Prog Op Res τ ε α) : Under R Q (fun _ => True) p := by
  induction p with
  | ret a => trivial
  | throw e => trivial
  | clock k ih => exact fun t => ih t
  | call op k ih => exact ⟨hQ op, fun r _ => ih r⟩

theorem Under.tryCatch {p : Prog Op Res τ ε α} {f : ε → Prog Op Res τ ε α} (h : Under R Q A p)
    (hf : ∀ e, Under R Q A (f e)) : Under R Q A (tryCatch p f) := by
  refine under_iff_meets.mpr (meets_tryCatch.mpr ((under_iff_meets.mp h).mono fun r hr => ?_))
  cases r with
  | ok a => exact hr
  | error e => exact under_iff_meets.mp (hf e)

theorem Under.settle {p : Prog Op Res τ ε α} (now : τ) (h : Under R Q A p) :
    Under R Q A (settle now p) :=
  under_iff_meets.mpr ((under_iff_meets.mp h).settle now)

theorem Under.settle_tryCatch {now : τ} {p : Prog Op Res τ ε α} {f : ε → Prog Op Res τ ε α}
    (h : Under R Q A (Prog.settle now p)) (hf : ∀ e, Under R Q A (f e)) :
    Under R Q A (Prog.settle now (Prog.tryCatch p f)) := by
  induction p with
  | ret a => exact h
  | throw e => exact (hf e).settle now
  | clock k ih => exact ih now h
  | call op k ih => exact Under.tryCatch h hf

theorem Under.settle_map {B : β → Prop} {now : τ} {p : Prog Op Res τ ε α} {f : α → β}
    (h : Under R Q (fun a => B (f a)) (Prog.settle now p)) :
    Under R Q B (Prog.settle now (f <$> p)) := by
  induction p with
  | ret a => exact h
  | throw e => trivial
  | clock k ih => exact ih now h
  | call op k ih => exact under_map.mpr h

theorem Under.translate {f : Op → Op'} {g : (op : Op) → Res' (f op) → Res op}
    {R' : (op : Op') → Res' op → Prop} {Q' : Op' → Prop} {p : Prog Op Res τ ε α}
    (h : Under R Q A p) (hQ : ∀ op, Q op → Q' (f op)) (hR : ∀ op a, R' (f op) a → R op (g op a)) :
    Under R' Q' A (p.translate f g) := by
  induction p with
  | ret a => exact h
  | throw e => trivial
  | clock k ih => exact fun t => ih t (h t)
  | call op k ih =>
    refine ⟨hQ op h.1, fun r hr => ih _ (h.2 _ fun a ha => ?_)⟩
    cases r with
    | error e => cases ha
    | ok a' =>
      obtain rfl := Except.ok.inj ha
      exact hR op a' (hr a' rfl)

end Prog

/-! ## Pools -/

namespace Pool

variable {κ σ Op : Type} {Res : Op → Type} {τ ε α : Type}
variable {exec : Prog.Handler Op Res τ ε σ} {start : κ → Prog Op Res τ ε α}
variable {G : Pool κ σ Op Res τ ε α → Act κ τ ε → Prop}

/-- The store keeps `I`, every call keeps to the statements `Q` allows it, and has done so. -/
structure Kept (I : σ → Prop) (R : (op : Op) → Res op → Prop) (Q : κ → Op → Prop)
    (s : Pool κ σ Op Res τ ε α) : Prop where
  store : I s.db
  rest : ∀ (i : ℕ) (p : Proc κ Op Res τ ε α), s.procs[i]? = some p →
    Prog.Under R (Q p.call) (fun _ => True) p.rest
  log : ∀ ev ∈ s.log, ∃ p, s.procs[ev.pid]? = some p ∧ Q p.call ev.op

variable {I : σ → Prop} {R : (op : Op) → Res op → Prop} {Q : κ → Op → Prop}
variable {s s' : Pool κ σ Op Res τ ε α} {a : Act κ τ ε}

section Act

variable (hreply : ∀ op now db a, I db → (exec op now db).1 = .ok a → R op a)
variable (hstore : ∀ c op now db, Q c op → I db → I (exec op now db).2)
variable (hspawn : ∀ s c, G s (.spawn c) →
  Prog.Under R (Q c) (fun _ => True) ((start c).settle s.now))

include hreply hstore hspawn

theorem Kept.act (h : Kept I R Q s) (hG : G s a) (ha : Pool.act exec start s a = some s') :
    Kept I R Q s' := by
  have hprocs := fun {i p} => act_procs (i := i) (p := p) ha
  have hadvance : ∀ {j c op k r db}, s.procs[j]? = some ⟨c, .call op k⟩ → I db →
      (∀ a, r = .ok a → R op a) → s' = s.advance j c op r db k → Kept I R Q s' := by
    rintro j c op k r db hj hdb hr rfl
    have hcall := h.rest j _ hj
    refine ⟨hdb, fun i p hp => ?_, fun ev hev => ?_⟩
    · rcases advance_procs hp with ⟨rfl, rfl⟩ | ⟨-, hp'⟩
      · exact (hcall.2 r hr).settle s.now
      · exact h.rest i p hp'
    · rcases List.mem_cons.mp hev with rfl | hev
      · exact ⟨_, advance_procs_self hj, hcall.1⟩
      · obtain ⟨p, hp, hQ⟩ := h.log ev hev
        obtain ⟨p', hp', hcall'⟩ := hprocs hp
        exact ⟨p', hp', hcall' ▸ hQ⟩
  obtain ⟨c, rfl, rfl⟩ | ⟨t, rfl, rfl⟩ | ⟨j, c, op, k, rfl, hj, rfl⟩ |
    ⟨j, e, c, op, k, rfl, hj, rfl⟩ := act_cases ha
  · refine ⟨h.store, fun i p hp => ?_, fun ev hev => ?_⟩
    · rcases spawn_procs hp with ⟨-, rfl⟩ | ⟨-, hp'⟩
      · exact hspawn s c hG
      · exact h.rest i p hp'
    · obtain ⟨p, hp, hQ⟩ := h.log ev hev
      obtain ⟨p', hp', hcall'⟩ := hprocs hp
      exact ⟨p', hp', hcall' ▸ hQ⟩
  · exact ⟨h.store, h.rest, h.log⟩
  · exact hadvance hj (hstore c op _ _ (h.rest j _ hj).1 h.store)
      (fun a ha' => hreply op _ _ a h.store ha') rfl
  · exact hadvance hj h.store (fun a ha' => by cases ha') rfl

theorem Kept.steps (h : Kept I R Q s) (run : Steps exec start G s s') : Kept I R Q s' :=
  run.inv (fun _ _ _ hs hG ha => hs.act hreply hstore hspawn hG ha) h

end Act

end Pool
