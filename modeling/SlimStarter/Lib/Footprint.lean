import Mathlib.Data.Finset.Basic
import SlimStarter.Lib.Rely

/-!
# Footprints

A store has parts, and `view x` reads the part `x` off it. The footprint of a statement is the parts
that its reply and its effect may depend on and the parts that it may change.

A program whose statements keep to a footprint leaves the parts it does not change as they are
(`Sound.frame_run`), and from stores that agree on what it reads it comes to the same result and to
stores that agree wherever they did (`Sound.agree_run`), so that the other parts do not interfere.
In a pool, a part is changed by a call that has it in its footprint (`Sound.changer`).
-/

structure Footprint (ι : Type) where
  reads : Finset ι
  writes : Finset ι
deriving DecidableEq

namespace Footprint

variable {ι : Type}

instance : LE (Footprint ι) := ⟨fun F G => F.reads ⊆ G.reads ∧ F.writes ⊆ G.writes⟩

instance [DecidableEq ι] (F G : Footprint ι) : Decidable (F ≤ G) :=
  inferInstanceAs (Decidable (F.reads ⊆ G.reads ∧ F.writes ⊆ G.writes))

instance : Bot (Footprint ι) := ⟨⟨∅, ∅⟩⟩

theorem le_trans {F G H : Footprint ι} (h : F ≤ G) (h' : G ≤ H) : F ≤ H :=
  ⟨h.1.trans h'.1, h.2.trans h'.2⟩

theorem bot_le (F : Footprint ι) : ⊥ ≤ F := ⟨Finset.empty_subset _, Finset.empty_subset _⟩

variable {Op : Type} {Res : Op → Type} {τ ε σ α β : Type} {View : ι → Type}

/-- The stores agree on these parts. -/
def Agree (view : (x : ι) → σ → View x) (S : Finset ι) (s s' : σ) : Prop :=
  ∀ x ∈ S, view x s = view x s'

/-- The statements keep to their footprints. -/
structure Sound (view : (x : ι) → σ → View x) (exec : Prog.Handler Op Res τ ε σ)
    (foot : Op → Footprint ι) : Prop where
  frame : ∀ op now s x, x ∉ (foot op).writes → view x (exec op now s).2 = view x s
  reply : ∀ op now s s', Agree view (foot op).reads s s' →
    (exec op now s).1 = (exec op now s').1
  effect : ∀ op now s s', Agree view (foot op).reads s s' → ∀ x, view x s = view x s' →
    view x (exec op now s).2 = view x (exec op now s').2

/-- Every statement of the program keeps to the footprint. -/
abbrev Within (foot : Op → Footprint ι) (F : Footprint ι) (p : Prog Op Res τ ε α) : Prop :=
  Prog.Only (fun op => foot op ≤ F) (fun _ => True) p

variable {foot : Op → Footprint ι} {F G : Footprint ι}

theorem within_of_le {p : Prog Op Res τ ε α} (h : Within foot F p) (hF : F ≤ G) :
    Within foot G p :=
  h.imp fun _ hop => le_trans hop hF

theorem within_bind {p : Prog Op Res τ ε α} {f : α → Prog Op Res τ ε β} (hp : Within foot F p)
    (hf : ∀ a, Within foot F (f a)) : Within foot F (p >>= f) :=
  Prog.only_bind.mpr (Prog.Only.mono hp fun a _ => hf a)

theorem within_stmt {op : Op} (h : foot op ≤ F) :
    Within foot F (Prog.stmt op : Prog Op Res τ ε _) :=
  Prog.only_stmt.mpr ⟨h, fun _ => trivial⟩

theorem within_any (h : ∀ op, foot op ≤ F) (p : Prog Op Res τ ε α) : Within foot F p := by
  induction p with
  | ret a => trivial
  | throw e => trivial
  | clock k ih => exact fun t => ih t
  | call op k ih => exact ⟨h op, fun r => ih r⟩

/-- An embedded program keeps to a footprint that holds those of the embedded statements. -/
theorem within_translate {Op' : Type} {Res' : Op' → Type} {f : Op → Op'}
    {g : (op : Op) → Res' (f op) → Res op} {foot' : Op' → Footprint ι} {p : Prog Op Res τ ε α}
    (h : Within foot F p) (hfoot : ∀ op, foot' (f op) = foot op) :
    Within foot' F (p.translate f g) := by
  induction p with
  | ret a => trivial
  | throw e => trivial
  | clock k ih => exact fun t => ih t (h t)
  | call op k ih =>
    have hop : foot' (f op) ≤ F := by
      rw [hfoot op]
      exact h.1
    exact ⟨hop, fun r => ih _ (h.2 _)⟩

theorem within_settle_tryCatch {now : τ} {p : Prog Op Res τ ε α} {f : ε → Prog Op Res τ ε α}
    (h : Within foot F (p.settle now)) (hf : ∀ e, Within foot F (f e)) :
    Within foot F ((Prog.tryCatch p f).settle now) := by
  induction p with
  | ret a => trivial
  | throw e => exact Prog.Only.settle now (hf e)
  | clock k ih => exact ih now h
  | call op k ih => exact Prog.Only.tryCatch h hf

/-- A settled program runs as the program does. -/
theorem run_settle {exec : Prog.Handler Op Res τ ε σ} (p : Prog Op Res τ ε α) (now : τ) (s : σ) :
    (p.settle now).run exec now s = p.run exec now s := by
  induction p with
  | clock k ih => exact ih now
  | _ => rfl

/-! ## Runs -/

variable {view : (x : ι) → σ → View x} {exec : Prog.Handler Op Res τ ε σ}

namespace Sound

variable (h : Sound view exec foot)

include h

/-- A program leaves the parts it does not change as they are. -/
theorem frame_run {p : Prog Op Res τ ε α} (hp : Within foot F p) {x : ι} (hx : x ∉ F.writes)
    (now : τ) (s : σ) : view x (p.run exec now s).2 = view x s := by
  induction p generalizing s with
  | ret a => rfl
  | throw e => rfl
  | clock k ih => exact ih now (hp now) s
  | call op k ih =>
    have hop : view x (exec op now s).2 = view x s :=
      h.frame op now s x fun hmem => hx (hp.1.2 hmem)
    rw [Prog.run_call, ih _ (hp.2 _), hop]

/-- From stores that agree on what a program reads, it comes to the same result, and to stores that
agree on every part they agreed on. -/
theorem agree_run {p : Prog Op Res τ ε α} (hp : Within foot F p) (now : τ) {s s' : σ}
    (hs : Agree view F.reads s s') :
    (p.run exec now s).1 = (p.run exec now s').1
      ∧ ∀ x, view x s = view x s' →
        view x (p.run exec now s).2 = view x (p.run exec now s').2 := by
  induction p generalizing s s' with
  | ret a => exact ⟨rfl, fun x hx => hx⟩
  | throw e => exact ⟨rfl, fun x hx => hx⟩
  | clock k ih => exact ih now (hp now) hs
  | call op k ih =>
    have hop : Agree view (foot op).reads s s' := fun x hx => hs x (hp.1.1 hx)
    have heffect := h.effect op now s s' hop
    obtain ⟨hresult, hstore⟩ := ih (exec op now s).1 (hp.2 _) fun x hx => heffect x (hs x hx)
    rw [Prog.run_call, Prog.run_call, ← h.reply op now s s' hop]
    exact ⟨hresult, fun x hx => hstore x (heffect x hx)⟩

/-! ## Pools -/

variable {κ : Type} {start : κ → Prog Op Res τ ε α}
variable {G : Pool κ σ Op Res τ ε α → Act κ τ ε → Prop} {s s' : Pool κ σ Op Res τ ε α}
variable {a : Act κ τ ε}

/-- Where every call keeps to its footprint, an act that changes a part is a step of a call that has
the part in its own. -/
theorem changer (foots : κ → Footprint ι)
    (hspawn : ∀ s c, G s (.spawn c) → Within foot (foots c) ((start c).settle s.now))
    {db : σ} {now : τ} (run : Pool.Steps exec start G ⟨db, now, [], []⟩ s)
    (ha : Pool.act exec start s a = some s') {x : ι} (hx : view x s'.db ≠ view x s.db) :
    ∃ i p, a = .step i ∧ s.procs[i]? = some p ∧ x ∈ (foots p.call).writes := by
  have hkept : Pool.Kept (fun _ => True) (fun _ _ => True) (fun c op => foot op ≤ foots c) s :=
    Pool.Kept.steps (fun _ _ _ _ _ _ => trivial) (fun _ _ _ _ _ _ => trivial)
      (fun s c hc => (hspawn s c hc).under) ⟨trivial, by simp, by simp⟩ run
  obtain ⟨c, rfl, rfl⟩ | ⟨t, rfl, rfl⟩ | ⟨i, c, op, k, rfl, hi, rfl⟩ |
    ⟨i, e, c, op, k, rfl, hi, rfl⟩ := Pool.act_cases ha
  · exact absurd rfl hx
  · exact absurd rfl hx
  · have hwrites : x ∈ (foot op).writes := by
      by_contra hno
      exact hx (h.frame op s.now s.db x hno)
    exact ⟨i, _, rfl, hi, (hkept.rest i _ hi).1.2 hwrites⟩
  · exact absurd rfl hx

end Sound

end Footprint
