import SlimStarter.Lib.Footprint

/-!
# Purging calls from a run

Some of the calls of a pool keep to a set `L` of the parts of the store and the others change none
of these. Leaving the others out of a run then leaves a run, in which every call that stays stands
where it stood and the parts of `L` are what they were, whatever the rest of the store was at the
start (`Sound.purge`).
-/

namespace List

variable {α : Type} {l : List α} {i : ℕ} {a : α}

theorem exists_append_of_getElem? (h : l[i]? = some a) :
    ∃ l₁ l₂, l = l₁ ++ a :: l₂ ∧ l₁.length = i := by
  obtain ⟨hlt, rfl⟩ := List.getElem?_eq_some_iff.mp h
  refine ⟨l.take i, l.drop (i + 1), ?_, by simp [hlt.le]⟩
  rw [← List.drop_eq_getElem_cons hlt, List.take_append_drop]

variable {p : α → Bool}

/-- The place that an element has among those selected. -/
theorem exists_filter_set (h : l[i]? = some a) (ha : p a = true) : ∃ j, (l.filter p)[j]? = some a
    ∧ ∀ b, p b = true → (l.set i b).filter p = (l.filter p).set j b := by
  obtain ⟨l₁, l₂, rfl, rfl⟩ := exists_append_of_getElem? h
  refine ⟨(l₁.filter p).length, ?_, fun b hb => ?_⟩
  · simp [ha]
  · simp [ha, hb]

theorem filter_set_of_not (h : l[i]? = some a) (ha : p a = false) {b : α} (hb : p b = false) :
    (l.set i b).filter p = l.filter p := by
  obtain ⟨l₁, l₂, rfl, rfl⟩ := exists_append_of_getElem? h
  simp [ha, hb]

end List

namespace Pool

variable {κ σ Op : Type} {Res : Op → Type} {τ ε α : Type}

/-- Only calls that the instant admits start. -/
def Calls (g : τ → κ → Prop) (s : Pool κ σ Op Res τ ε α) (a : Act κ τ ε) : Prop :=
  ∀ c, a = .spawn c → g s.now c

end Pool

namespace Footprint

open Pool (Calls)

variable {ι : Type} {View : ι → Type} {κ σ Op : Type} {Res : Op → Type} {τ ε α : Type}
variable {view : (x : ι) → σ → View x} {exec : Prog.Handler Op Res τ ε σ}
variable {foot : Op → Footprint ι} {start : κ → Prog Op Res τ ε α} {g : τ → κ → Prop}

/-- The second pool is what is left of the first one without the calls that are not `low`. -/
structure Purged (view : (x : ι) → σ → View x) (L : Finset ι) (low : κ → Bool)
    (s s' : Pool κ σ Op Res τ ε α) : Prop where
  store : Agree view L s.db s'.db
  now : s'.now = s.now
  procs : s'.procs = s.procs.filter fun p => low p.call

namespace Sound

variable (h : Sound view exec foot) {L : Finset ι} {low : κ → Bool}
variable {s s' t : Pool κ σ Op Res τ ε α} {a : Act κ τ ε}

include h

variable (start) in
/-- A step of a call that stays is one of what is left, and any other step leaves that as it is. -/
theorem purge_advance {i : ℕ} {c : κ} {op : Op} {k : Except ε (Res op) → Prog Op Res τ ε α}
    (hst : Purged view L low s t) (hi : s.procs[i]? = some ⟨c, .call op k⟩)
    (hlow : low c = true → foot op ≤ ⟨L, L⟩) (hhigh : low c = false → Disjoint (foot op).writes L)
    {r : Except ε (Res op)} {db : σ}
    (hr : r = (exec op s.now s.db).1 ∧ db = (exec op s.now s.db).2
      ∨ ∃ e, r = .error e ∧ db = s.db) :
    ∃ t', (t' = t ∨ ∃ a, Pool.act exec start t a = some t' ∧ ∀ c, a ≠ .spawn c)
      ∧ Purged view L low (s.advance i c op r db k) t' := by
  cases hc : low c with
  | false =>
    refine ⟨t, .inl rfl, fun x hx => ?_, hst.now, ?_⟩
    · rcases hr with ⟨-, rfl⟩ | ⟨e, -, rfl⟩
      · rw [Pool.advance_db, h.frame op s.now s.db x fun hmem =>
          Finset.disjoint_left.mp (hhigh hc) hmem hx]
        exact hst.store x hx
      · exact hst.store x hx
    · rw [hst.procs]
      exact (List.filter_set_of_not hi hc hc).symm
  | true =>
    obtain ⟨j, hj, hset⟩ := List.exists_filter_set (p := fun p => low p.call) hi hc
    have hjt : t.procs[j]? = some ⟨c, .call op k⟩ := by rw [hst.procs, hj]
    have hreads : Agree view (foot op).reads s.db t.db :=
      fun x hx => hst.store x ((hlow hc).1 hx)
    rcases hr with ⟨rfl, rfl⟩ | ⟨e, rfl, rfl⟩
    · refine ⟨_, .inr ⟨.step j, Pool.act_step hjt, by simp⟩, fun x hx => ?_, hst.now, ?_⟩
      · simp only [Pool.advance_db, hst.now]
        exact h.effect op s.now s.db t.db hreads x (hst.store x hx)
      · simp only [Pool.advance, hst.now, hst.procs, ← h.reply op s.now s.db t.db hreads]
        exact (hset _ hc).symm
    · refine ⟨t.advance j c op (.error e) t.db k, .inr ⟨.fail j e, ?_, by simp⟩, hst.store, hst.now,
        ?_⟩
      · simp only [Pool.act, hjt]
      · simp only [Pool.advance, hst.now, hst.procs]
        exact (hset _ hc).symm

/-- What is left of a run without the calls that are not `low` is a run, from any store that agrees
on the parts of the others. -/
theorem purge (foots : κ → Footprint ι) (L : Finset ι) (low : κ → Bool)
    (hspawn : ∀ now c, g now c → Within foot (foots c) ((start c).settle now))
    (hlow : ∀ c, low c = true → foots c ≤ ⟨L, L⟩)
    (hhigh : ∀ c, low c = false → Disjoint (foots c).writes L)
    {db db' : σ} {now : τ} (hdb : Agree view L db db')
    (run : Pool.Steps exec start (Calls g) ⟨db, now, [], []⟩ s) :
    ∃ t, Pool.Steps exec start (Calls fun now c => g now c ∧ low c = true) ⟨db', now, [], []⟩ t
      ∧ Purged view L low s t := by
  have hrest : ∀ s, Pool.Steps exec start (Calls g) ⟨db, now, [], []⟩ s →
      Pool.Kept (fun _ => True) (fun _ _ => True) (fun c op => foot op ≤ foots c) s := fun s run =>
    Pool.Kept.steps (fun _ _ _ _ _ _ => trivial) (fun _ _ _ _ _ _ => trivial)
      (fun s c hc => (hspawn s.now c (hc c rfl)).under) ⟨trivial, by simp, by simp⟩ run
  induction run with
  | refl => exact ⟨_, .refl, hdb, rfl, rfl⟩
  | @tail s s' run step ih =>
    obtain ⟨t, hrun, hst⟩ := ih
    have hkept := hrest s run
    have hadvance : ∀ {i c op k r db}, s.procs[i]? = some ⟨c, .call op k⟩ →
        (r = (exec op s.now s.db).1 ∧ db = (exec op s.now s.db).2 ∨ ∃ e, r = .error e ∧ db = s.db) →
        ∃ t, Pool.Steps exec start (Calls fun now c => g now c ∧ low c = true)
            ⟨db', now, [], []⟩ t ∧ Purged view L low (s.advance i c op r db k) t := by
      intro i c op k r db hi hr
      have hop : foot op ≤ foots c := (hkept.rest i _ hi).1
      obtain ⟨t', ht', hpurged⟩ := h.purge_advance start hst hi
        (fun hc => le_trans hop (hlow c hc)) (fun hc => (hhigh c hc).mono_left hop.2) hr
      rcases ht' with rfl | ⟨a, ha, hne⟩
      · exact ⟨_, hrun, hpurged⟩
      · exact ⟨t', hrun.tail ⟨a, fun c hc => absurd hc (hne c), ha⟩, hpurged⟩
    obtain ⟨a, hG, ha⟩ := step
    obtain ⟨c, rfl, rfl⟩ | ⟨t', rfl, rfl⟩ | ⟨i, c, op, k, rfl, hi, rfl⟩ |
      ⟨i, e, c, op, k, rfl, hi, rfl⟩ := Pool.act_cases ha
    · cases hc : low c with
      | false =>
        exact ⟨t, hrun, hst.store, hst.now, by simp [hst.procs, List.filter_append, hc]⟩
      | true =>
        refine ⟨_, hrun.tail ⟨.spawn c, ?_, rfl⟩, hst.store, hst.now, ?_⟩
        · rintro c' hc'
          obtain rfl := Act.spawn.inj hc'
          rw [hst.now]
          exact ⟨hG c rfl, hc⟩
        · simp [hst.procs, hst.now, List.filter_append, hc]
    · exact ⟨_, hrun.tail ⟨.tick t', fun c hc => (by cases hc), rfl⟩, hst.store, rfl, hst.procs⟩
    · exact hadvance hi (.inl ⟨rfl, rfl⟩)
    · exact hadvance hi (.inr ⟨e, rfl, rfl⟩)

end Sound

end Footprint
