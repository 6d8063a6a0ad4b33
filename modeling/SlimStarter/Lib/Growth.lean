import SlimStarter.Lib.Outcome
import SlimStarter.Lib.Table

/-!
# From a state of a run on

An `Evolution` says how the rows of a table may change: by a preorder that keeps the key. A table
has grown into another one (`Grows`) where this is all that has become of its rows, and the rows
besides have keys that it had not given yet. `Steps.rel` takes such a relation from the statements
to the runs.

What every statement keeps holds from any state of a run on, and the calls that start after it can
rely on it, whatever the ones before it are doing (`Steps.meets_later`).
-/

/-- How the rows of a table may change. -/
structure Evolution (ρ : Type) where
  key : ρ → ℕ
  Changes : ρ → ρ → Prop
  refl : ∀ r, Changes r r
  trans : ∀ r r' r'', Changes r r' → Changes r' r'' → Changes r r''
  key_eq : ∀ r r', Changes r r' → key r' = key r

namespace Evolution

variable {ρ : Type} (V : Evolution ρ)

/-- The rows have changed in place, and new ones have come after them. -/
structure Grows (t t' : Table ρ) : Prop where
  next : t.autoIncrement ≤ t'.autoIncrement
  kept : ∀ (i : ℕ) r, t.rows[i]? = some r → ∃ r', t'.rows[i]? = some r' ∧ V.Changes r r'
  added : ∀ (i : ℕ) r', t.rows.length ≤ i → t'.rows[i]? = some r' → t.autoIncrement ≤ V.key r'

variable {V} {t t' t'' : Table ρ}

namespace Grows

theorem refl (t : Table ρ) : V.Grows t t where
  next := le_rfl
  kept := fun i r hr => ⟨r, hr, V.refl r⟩
  added := fun i r' hle hr' => by
    have hlt := (List.getElem?_eq_some_iff.mp hr').1
    omega

theorem trans (h : V.Grows t t') (h' : V.Grows t' t'') : V.Grows t t'' where
  next := h.next.trans h'.next
  kept := by
    intro i r hr
    obtain ⟨r', hr', hchanges⟩ := h.kept i r hr
    obtain ⟨r'', hr'', hchanges'⟩ := h'.kept i r' hr'
    exact ⟨r'', hr'', V.trans r r' r'' hchanges hchanges'⟩
  added := by
    intro i r'' hle hr''
    rcases Nat.lt_or_ge i t'.rows.length with hlt | hge
    · obtain ⟨r₀, hr₀, hchanges⟩ := h'.kept i _ (List.getElem?_eq_getElem hlt)
      obtain rfl : r₀ = r'' := Option.some.inj (hr₀.symm.trans hr'')
      rw [V.key_eq _ _ hchanges]
      exact h.added i _ hle (List.getElem?_eq_getElem hlt)
    · exact h.next.trans (h'.added i r'' hge hr'')

theorem insert {row : ℕ → ρ} (hrow : ∀ id, V.key (row id) = id) : V.Grows t (t.insert row) where
  next := Nat.le_succ _
  kept := fun i r hr => by
    have hlt := (List.getElem?_eq_some_iff.mp hr).1
    exact ⟨r, by rw [Table.insert, List.getElem?_append_left hlt, hr], V.refl r⟩
  added := fun i r' hle hr' => by
    rw [Table.insert, List.getElem?_append_right hle] at hr'
    rcases hi : i - t.rows.length with _ | n <;> rw [hi] at hr'
    · rw [← Option.some.inj hr', hrow]
    · cases hr'

theorem update {p : ρ → Bool} {f : ρ → ρ} (hf : ∀ r, p r = true → V.Changes r (f r)) :
    V.Grows t (t.update p f) where
  next := le_rfl
  kept := fun i r hr => by
    refine ⟨if p r then f r else r, by simp [Table.update, hr], ?_⟩
    split_ifs with hp
    · exact hf r hp
    · exact V.refl r
  added := fun i r' hle hr' => by
    have hlt := (List.getElem?_eq_some_iff.mp hr').1
    simp only [Table.update, List.length_map] at hlt
    omega

/-- No row is lost. -/
theorem exists_changes (h : V.Grows t t') {r : ρ} (hr : r ∈ t.rows) :
    ∃ r' ∈ t'.rows, V.Changes r r' := by
  obtain ⟨i, hi⟩ := List.mem_iff_getElem?.mp hr
  obtain ⟨r', hr', hchanges⟩ := h.kept i r hi
  exact ⟨r', List.mem_of_getElem? hr', hchanges⟩

/-- A row with a key that had been given comes from a row that had it. -/
theorem origin (h : V.Grows t t') {r' : ρ} (hr' : r' ∈ t'.rows)
    (hkey : V.key r' < t.autoIncrement) : ∃ r ∈ t.rows, V.Changes r r' := by
  obtain ⟨i, hi⟩ := List.mem_iff_getElem?.mp hr'
  rcases Nat.lt_or_ge i t.rows.length with hlt | hge
  · obtain ⟨r₀, hr₀, hchanges⟩ := h.kept i _ (List.getElem?_eq_getElem hlt)
    obtain rfl : r₀ = r' := Option.some.inj (hr₀.symm.trans hi)
    exact ⟨_, List.getElem_mem hlt, hchanges⟩
  · have hnext := h.added i r' hge hi
    omega

end Grows

end Evolution

namespace Pool

variable {κ σ Op : Type} {Res : Op → Type} {τ ε α : Type}
variable {exec : Prog.Handler Op Res τ ε σ} {start : κ → Prog Op Res τ ε α}
variable {G : Pool κ σ Op Res τ ε α → Act κ τ ε → Prop} {s s' : Pool κ σ Op Res τ ε α}

/-- What relates the store before a statement to the store after it relates any two stores of a
run. -/
theorem Steps.rel {r : σ → σ → Prop} (hrefl : ∀ db, r db db)
    (htrans : ∀ db db' db'', r db db' → r db' db'' → r db db'')
    (hexec : ∀ op now db, r db (exec op now db).2) (run : Steps exec start G s s') :
    r s.db s'.db := by
  refine run.inv (I := fun s' => r s.db s'.db) (fun s₁ s₂ a h _ ha => ?_) (hrefl _)
  obtain ⟨c, rfl, rfl⟩ | ⟨t, rfl, rfl⟩ | ⟨i, c, op, k, rfl, hi, rfl⟩ |
    ⟨i, e, c, op, k, rfl, hi, rfl⟩ := act_cases ha
  · exact h
  · exact h
  · exact htrans _ _ _ h (hexec op _ _)
  · exact h

/-- Every statement keeps `I`, which grants `R`. Then the calls that start after a state of `I` come
to an outcome that is right for them. -/
theorem Steps.meets_later {I : σ → Prop} {R : (op : Op) → Except ε (Res op) → Prop}
    {A : κ → Except ε α → Prop} (hstore : ∀ op now db, I db → I (exec op now db).2)
    (hreply : ∀ op now db, I db → R op (exec op now db).1)
    (hspawn : ∀ c, Prog.Meets R (fun _ => True) (A c) (start c))
    (hfail : ∀ s i e, G s (.fail i e) → ∀ op, R op (.error e))
    (run : Steps exec start G s s') (hdb : I s.db) : I s'.db ∧ ∀ i p, s.procs.length ≤ i →
      s'.procs[i]? = some p → Prog.Meets R (fun _ => True) (A p.call) p.rest := by
  have hrun : s.procs.length ≤ s'.procs.length ∧ I s'.db ∧ ∀ i p, s.procs.length ≤ i →
      s'.procs[i]? = some p → Prog.Meets R (fun _ => True) (A p.call) p.rest := by
    refine run.inv (I := fun s' => s.procs.length ≤ s'.procs.length ∧ I s'.db ∧
      ∀ i p, s.procs.length ≤ i → s'.procs[i]? = some p →
        Prog.Meets R (fun _ => True) (A p.call) p.rest) (fun s₁ s₂ a h hG ha => ?_)
      ⟨le_rfl, hdb, fun i p hle hp => ?_⟩
    · obtain ⟨hlength, hdb, hprocs⟩ := h
      have hadvance : ∀ {j c op k r db}, s₁.procs[j]? = some ⟨c, .call op k⟩ → R op r → ∀ i p,
          s.procs.length ≤ i → (s₁.advance j c op r db k).procs[i]? = some p →
          Prog.Meets R (fun _ => True) (A p.call) p.rest := by
        intro j c op k r db hj hr i p hle hp
        rcases advance_procs hp with ⟨rfl, rfl⟩ | ⟨-, hp⟩
        · exact ((hprocs i _ hle hj).2 r hr).settle s₁.now
        · exact hprocs i p hle hp
      obtain ⟨c, rfl, rfl⟩ | ⟨t, rfl, rfl⟩ | ⟨j, c, op, k, rfl, hj, rfl⟩ |
        ⟨j, e, c, op, k, rfl, hj, rfl⟩ := act_cases ha
      · refine ⟨by simp; omega, hdb, fun i p hle hp => ?_⟩
        rcases spawn_procs hp with ⟨-, rfl⟩ | ⟨-, hp⟩
        · exact (hspawn c).settle s₁.now
        · exact hprocs i p hle hp
      · exact ⟨hlength, hdb, hprocs⟩
      · exact ⟨by simpa [advance] using hlength, hstore op _ _ hdb,
          hadvance hj (hreply op _ _ hdb)⟩
      · exact ⟨by simpa [advance] using hlength, hdb, hadvance hj (hfail s₁ j e hG op)⟩
    · have hlt := (List.getElem?_eq_some_iff.mp hp).1
      omega
  exact hrun.2

end Pool
