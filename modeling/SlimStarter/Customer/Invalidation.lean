import SlimStarter.Customer.Generation

/-!
# Invalidation at rest

A writer of `CustomerService` that has changed the table is dirty until it increments the
generation, and no call ends dirty. An import changes the table and increments nothing, so its
changes are covered only where some writer is dirty at that time (`ImportsCovered`). Then every
change is followed by an increment or awaited by a dirty call (`Covered`), and when all calls have
ended every entry of the current generation was computed after all changes (`changes_invalidate`).
-/

namespace SlimStarter

open CustomerService (cacheNamespace)
open CustomerEvent (readVersion bumped stored wrote)

variable {E : CustomerEnv} {s s' : CustomerPool} {a : CustomerAct}

/-- Redis answers without a failure, its key of the generation stays, and `is_file` and `@unlink`
do not throw. -/
def CustomerPool.Reliable (E : CustomerEnv) (s : CustomerPool) : CustomerAct → Prop
  | .spawn c => c.1.KeepsVersion E
  | .step i => ∀ p ∈ s.procs[i]?, ∀ op ∈ p.rest.statement?, op.onRedis = true →
      (E.exec op s.now s.db).1.isOk = true
  | .fail i _ => ∀ p ∈ s.procs[i]?, ∀ op ∈ p.rest.statement?, op.onRedis = false
      ∧ op.neverThrows = false
  | .tick _ => True

instance (s : CustomerPool) (a : CustomerAct) : Decidable (s.Reliable E a) :=
  match a with
  | .spawn c => inferInstanceAs (Decidable (c.1.KeepsVersion E))
  | .step _ => inferInstanceAs (Decidable (∀ p ∈ _, ∀ op ∈ _, _ → _))
  | .fail .. => inferInstanceAs (Decidable (∀ p ∈ _, ∀ op ∈ _, _ ∧ _))
  | .tick _ => inferInstanceAs (Decidable True)

def CustomerCall.isImport : CustomerCall → Bool
  | importJob .. => true
  | _ => false

/-- Call `j` stands between its change of the table and its increment. -/
def CustomerPool.Dirty (E : CustomerEnv) (s : CustomerPool) (j : ℕ) : Prop :=
  ∃ p ∈ s.procs[j]?, (customerMonitor E).phase (p.call.1.phase E) j s.log = .dirty

instance (s : CustomerPool) (j : ℕ) : Decidable (s.Dirty E j) := by
  unfold CustomerPool.Dirty
  infer_instance

/-- Where an import changes the table, some call is dirty. -/
def CustomerPool.ImportsCovered (E : CustomerEnv) (s : CustomerPool) : CustomerAct → Prop
  | .step i => ∀ p ∈ s.procs[i]?, ∀ op ∈ p.rest.statement?, p.call.1.isImport = true →
      op.writes = true → ∃ j < s.procs.length, s.Dirty E j
  | _ => True

instance (s : CustomerPool) (a : CustomerAct) : Decidable (s.ImportsCovered E a) :=
  match a with
  | .step _ => inferInstanceAs (Decidable (∀ p ∈ _, ∀ op ∈ _, _ → _ → ∃ j < _, _))
  | .spawn _ | .fail .. | .tick _ => inferInstanceAs (Decidable True)

theorem CustomerPool.Reliable.versionKept (h : s.Reliable E a) : s.VersionKept E a := by
  cases a with
  | spawn c => exact h
  | _ => trivial

/-- The reply is no failure where there must be none. -/
def CustomerStmt.Answered (op : CustomerStmt) (r : Except Failure op.Res) : Prop :=
  op.onRedis = true ∨ op.neverThrows = true → r.isOk = true

theorem exec_isOk_of_neverThrows {op : CustomerStmt} (h : op.neverThrows = true) (now : Int)
    (db : CustomerDb) : (E.exec op now db).1.isOk = true := by
  cases op <;> simp [CustomerStmt.neverThrows] at h <;> rfl

/-- What a reliable act does: it starts a call, moves the clock, or answers a call. -/
theorem reliable_cases (hG : s.Reliable E a)
    (ha : Pool.act E.exec (CustomerPool.start E) s a = some s') :
    (∃ c, s' = { s with procs := s.procs ++ [⟨c, (CustomerPool.start E c).settle s.now⟩] })
    ∨ (∃ t, s' = { s with now := t })
    ∨ ∃ i c op k r db, s.procs[i]? = some ⟨c, .call op k⟩ ∧ s' = s.advance i c op r db k
        ∧ op.Answered r ∧ (r.isOk = true → a = .step i) := by
  rcases Pool.act_cases ha with ⟨c, rfl, rfl⟩ | ⟨t, rfl, rfl⟩ | ⟨i, c, op, k, rfl, hi, rfl⟩ |
    ⟨i, e, c, op, k, rfl, hi, rfl⟩
  · exact .inl ⟨c, rfl⟩
  · exact .inr (.inl ⟨t, rfl⟩)
  · refine .inr (.inr ⟨i, c, op, k, _, _, hi, rfl, ?_, fun _ => rfl⟩)
    rintro (hop | hop)
    · exact hG _ hi op rfl hop
    · exact exec_isOk_of_neverThrows hop _ _
  · refine .inr (.inr ⟨i, c, op, k, _, _, hi, rfl, ?_, by simp [Except.isOk, Except.toBool]⟩)
    obtain ⟨hredis, hthrows⟩ := hG _ hi op rfl
    rintro (hop | hop)
    · rw [hredis] at hop
      cases hop
    · rw [hthrows] at hop
      cases hop

section Next

variable {φ : CustomerPhase} {e : CustomerEvent}

/-- A dirty call that is answered increments the generation or stays dirty. -/
theorem next_dirty (hop : CustomerPhase.dirty.allowed E e.op) (hr : e.op.Answered e.reply) :
    (bumped E e).isSome = true ∨ CustomerPhase.dirty.next e.op e.reply = .dirty := by
  obtain ⟨stamp, pid, op, r⟩ := e
  rcases hop with hop | hop
  · obtain rfl : op = .redisIncr (versionKey E) := hop
    cases r with
    | error f => exact absurd (hr (.inl rfl)) (by simp [Except.isOk, Except.toBool])
    | ok n => exact .inl (by simp [bumped])
  · cases r with
    | error f => exact absurd (hr (.inr hop)) (by simp [Except.isOk, Except.toBool])
    | ok a =>
      refine .inr ?_
      cases op <;> simp_all [CustomerStmt.neverThrows, CustomerPhase.next]

theorem next_ne_lost (hop : φ.allowed E e.op) (hr : e.op.Answered e.reply) (h : φ ≠ .lost) :
    φ.next e.op e.reply ≠ .lost := by
  obtain ⟨stamp, pid, op, r⟩ := e
  cases φ with
  | dirty =>
    rcases hop with hop | hop
    · cases r with
      | error f =>
        exact absurd (hr (.inl (by rw [hop]; rfl))) (by simp [Except.isOk, Except.toBool])
      | ok n => unfold CustomerPhase.next; split <;> simp_all
    · cases r with
      | error f => exact absurd (hr (.inr hop)) (by simp [Except.isOk, Except.toBool])
      | ok a => unfold CustomerPhase.next; split <;> simp_all
  | _ =>
    unfold CustomerPhase.next
    split <;> simp_all
    try split_ifs <;> simp

/-- A committed change leaves its call dirty, unless it is one of an import. -/
theorem next_of_wrote (hop : φ.allowed E e.op) (hw : wrote e = true) (h : φ ≠ .lost) :
    φ.next e.op e.reply = .dirty ∨ φ = .importing := by
  obtain ⟨hwrites, hok⟩ := Bool.and_eq_true _ _ ▸ hw
  rcases allowed_writes hwrites hop with rfl | rfl | rfl
  · left
    obtain ⟨stamp, pid, op, r⟩ := e
    cases r with
    | error f => simp [Except.isOk, Except.toBool] at hok
    | ok a => exact if_pos hwrites
  · exact absurd rfl h
  · exact .inr rfl

end Next

theorem isImport_of_importing {c : CustomerCall} {i : ℕ} {l : List CustomerEvent}
    (h : (customerMonitor E).phase (c.phase E) i l = .importing) : c.isImport = true := by
  by_contra hnot
  refine Monitor.phase_induction (m := customerMonitor E) (P := fun φ => φ ≠ .importing) ?_ ?_ i l h
  · by_cases hc : CacheRedis.configured E <;> cases c <;>
      simp_all [CustomerCall.phase, CustomerCall.isImport]
  · intro φ op r hφ
    cases φ <;> simp_all [customerMonitor, CustomerPhase.next] <;> split <;> simp_all
    split_ifs <;> simp

/-! ## What every state of a run keeps -/

/-- An increment later than `w` is in the log. -/
def CustomerPool.BumpedAfter (E : CustomerEnv) (s : CustomerPool) (w : CustomerEvent) : Prop :=
  ∃ n ∈ s.log, (bumped E n).isSome = true ∧ w.stamp < n.stamp

instance (s : CustomerPool) (w : CustomerEvent) : Decidable (s.BumpedAfter E w) := by
  unfold CustomerPool.BumpedAfter
  infer_instance

/-- No call has lost its increment, and every change is followed by an increment or awaited by a
dirty call. -/
structure Covered (E : CustomerEnv) (s : CustomerPool) : Prop where
  kept : ∀ (i : ℕ) (p : CustomerProc), s.procs[i]? = some p →
    (customerMonitor E).phase (p.call.1.phase E) i s.log ≠ .lost
  covered : ∀ w ∈ s.log, wrote w = true → s.BumpedAfter E w ∨ ∃ j, s.Dirty E j

theorem CustomerCall.phase_ne_lost (hE : CacheRedis.configured E = true) (c : CustomerCall) :
    c.phase E ≠ .lost := by
  cases c <;> simp [CustomerCall.phase, hE]

theorem CustomerPool.Dirty.spawn {j : ℕ} (h : s.Dirty E j) (q : CustomerProc) :
    CustomerPool.Dirty E { s with procs := s.procs ++ [q] } j := by
  obtain ⟨p, hp, hdirty⟩ := h
  obtain ⟨hlt, -⟩ := List.getElem?_eq_some_iff.mp hp
  exact ⟨p, by rwa [Option.mem_def, List.getElem?_append_left hlt], hdirty⟩

section Advance

variable {i j : ℕ} {c : CustomerCall × CustomerEntropy} {op : CustomerStmt}
variable {k : Except Failure op.Res → CustomerProg CustomerResult} {r : Except Failure op.Res}

/-- The phase that a call stands in at a statement. -/
theorem CustomerPool.Dirty.phase (h : s.Dirty E i) (hi : s.procs[i]? = some ⟨c, .call op k⟩) :
    (customerMonitor E).phase (c.1.phase E) i s.log = .dirty := by
  obtain ⟨p, hp, hdirty⟩ := h
  obtain rfl := Option.some.inj (hi.symm.trans hp)
  exact hdirty

theorem phase_answered (s : CustomerPool) (r : Except Failure op.Res) :
    (customerMonitor E).phase (c.1.phase E) i (⟨s.log.length, i, op, r⟩ :: s.log) =
      ((customerMonitor E).phase (c.1.phase E) i s.log).next op r :=
  Monitor.phase_cons_self rfl

/-- A call whose answer leaves it dirty is dirty. -/
theorem CustomerPool.Dirty.answered (hi : s.procs[i]? = some ⟨c, .call op k⟩)
    (h : ((customerMonitor E).phase (c.1.phase E) i s.log).next op r = .dirty) (db : CustomerDb) :
    CustomerPool.Dirty E (s.advance i c op r db k) i := by
  refine ⟨_, Pool.advance_procs_self hi, ?_⟩
  rw [Pool.advance_log]
  exact (phase_answered s r).trans h

/-- The other calls stay dirty. -/
theorem CustomerPool.Dirty.advance (h : s.Dirty E j) (hji : j ≠ i) (db : CustomerDb) :
    CustomerPool.Dirty E (s.advance i c op r db k) j := by
  obtain ⟨p, hp, hdirty⟩ := h
  refine ⟨p, ?_, ?_⟩
  · rw [Pool.advance_procs_of_ne hji]
    exact hp
  · rw [Pool.advance_log, Monitor.phase_cons_of_ne (Ne.symm hji)]
    exact hdirty

end Advance

namespace Covered

theorem idle {db : CustomerDb} {now : Int} : Covered E (CustomerPool.idle db now) where
  kept := by simp [CustomerPool.idle]
  covered := by simp [CustomerPool.idle]

theorem spawn (h : Covered E s) (hf : s.Follows E) (hE : CacheRedis.configured E = true)
    (c : CustomerCall × CustomerEntropy) :
    Covered E { s with procs := s.procs ++ [⟨c, (CustomerPool.start E c).settle s.now⟩] } where
  kept := by
    intro i p hp
    rcases Pool.spawn_procs hp with ⟨rfl, rfl⟩ | ⟨-, hp⟩
    · rw [Monitor.phase_of_forall_ne]
      · exact c.1.phase_ne_lost hE
      · intro e he heq
        obtain ⟨q, hq⟩ := hf.pid he
        simp [heq] at hq
    · exact h.kept i p hp
  covered := by
    intro w hw hwrote
    exact (h.covered w hw hwrote).imp id fun ⟨j, hj⟩ => ⟨j, hj.spawn _⟩

/-- An answered statement keeps the invariant, where some call is dirty if it is a change of an
import. -/
theorem advance (h : Covered E s) (hf : s.Follows E) {i : ℕ}
    {c : CustomerCall × CustomerEntropy} {op : CustomerStmt}
    {k : Except Failure op.Res → CustomerProg CustomerResult}
    (hi : s.procs[i]? = some ⟨c, .call op k⟩) {r : Except Failure op.Res} (hr : op.Answered r)
    (hcov : c.1.isImport = true → op.writes = true → r.isOk = true → ∃ j, s.Dirty E j)
    (db : CustomerDb) : Covered E (s.advance i c op r db k) := by
  set φ := (customerMonitor E).phase (c.1.phase E) i s.log with hφ
  set e : CustomerEvent := ⟨s.log.length, i, op, r⟩ with he
  have hallowed : φ.allowed E op := (hf.keeps i _ hi).1
  have hlost : φ ≠ .lost := h.kept i _ hi
  have hanswered := fun hnext : φ.next op r = .dirty => CustomerPool.Dirty.answered hi hnext db
  constructor
  · intro j p hp
    rcases Pool.advance_procs hp with ⟨rfl, rfl⟩ | ⟨hne, hp⟩
    · rw [Pool.advance_log]
      exact phase_answered s r ▸ next_ne_lost (e := e) hallowed hr hlost
    · rw [Pool.advance_log, Monitor.phase_cons_of_ne (Ne.symm hne)]
      exact h.kept j p hp
  · intro w hw hwrote
    rw [Pool.advance_log] at hw
    rcases List.mem_cons.mp hw with rfl | hw
    · rcases next_of_wrote (e := e) hallowed hwrote hlost with hdirty | himport
      · exact .inr ⟨i, hanswered hdirty⟩
      · obtain ⟨hwrites, hok⟩ := Bool.and_eq_true _ _ ▸ hwrote
        obtain ⟨j, hj⟩ := hcov (isImport_of_importing (hφ ▸ himport)) hwrites hok
        refine .inr ⟨j, hj.advance (fun hji => ?_) db⟩
        have hdirty := (hji ▸ hj).phase hi
        rw [← hφ, himport] at hdirty
        cases hdirty
    · rcases h.covered w hw hwrote with ⟨n, hn, hbumped, hlt⟩ | ⟨j, hj⟩
      · exact .inl ⟨n, by rw [Pool.advance_log]; exact List.mem_cons_of_mem _ hn, hbumped, hlt⟩
      · by_cases hji : j = i
        · have hdirty : φ = .dirty := (hji ▸ hj).phase hi
          rw [hdirty] at hallowed
          rcases next_dirty (e := e) hallowed hr with hbumped | hsame
          · left
            exact ⟨e, by rw [Pool.advance_log]; exact List.mem_cons_self, hbumped,
              hf.stamped.lt w hw⟩
          · exact .inr ⟨i, hanswered (hdirty ▸ hsame)⟩
        · exact .inr ⟨j, hj.advance hji db⟩

theorem act (h : Covered E s) (hf : s.Follows E) (hE : CacheRedis.configured E = true)
    (hG : s.Reliable E a) (hcov : s.ImportsCovered E a)
    (ha : Pool.act E.exec (CustomerPool.start E) s a = some s') : Covered E s' := by
  rcases reliable_cases hG ha with ⟨c, rfl⟩ | ⟨t, rfl⟩ | ⟨i, c, op, k, r, db, hi, rfl, hr, hstep⟩
  · exact h.spawn hf hE c
  · exact ⟨h.kept, h.covered⟩
  · refine h.advance hf hi hr (fun himport hwrites hok => ?_) db
    obtain rfl := hstep hok
    obtain ⟨j, -, hj⟩ := hcov _ hi op rfl himport hwrites
    exact ⟨j, hj⟩

end Covered

/-- The generation was incremented after every change, and every entry of the generation was
computed from reads made after every change. -/
structure CustomerPool.Invalidated (E : CustomerEnv) (s : CustomerPool) : Prop where
  bumped : ∀ w ∈ s.log, wrote w = true → s.BumpedAfter E w
  entries : ∀ now key entry,
    CustomerKey E (CacheRedis.generation (Redis.get s.db.redis now (versionKey E))) key →
    s.db.redis key = some entry → ∃ x ∈ s.log, stored x = some (key, entry.value)
      ∧ s.Computed E x entry.value ∧ ∀ w ∈ s.log, wrote w = true → s.ReadAfter w x

/-- When all calls have ended, the cache serves nothing older than the last change. -/
theorem changes_invalidate {db : CustomerDb} {now : Int} (hE : CacheRedis.configured E = true)
    (hdb : db.redis = Redis.empty)
    (run : Pool.Steps E.exec (CustomerPool.start E)
      (fun s a => CustomerPool.Reliable E s a ∧ CustomerPool.ImportsCovered E s a)
      (CustomerPool.idle db now) s)
    (hrest : s.AtRest) : s.Invalidated E := by
  obtain ⟨hf, c, hc⟩ := counted_steps hdb (run.mono fun _ _ hG => hG.1.versionKept)
  have ht : Pool.Traced (CustomerPool.start E) s := run.traced Pool.traced_idle
  obtain ⟨-, hcov⟩ : s.Follows E ∧ Covered E s := by
    refine Pool.Steps.inv (I := fun s : CustomerPool => s.Follows E ∧ Covered E s) run ?_
      ⟨Pool.follows_idle, Covered.idle⟩
    rintro s a s' ⟨hf, hcov⟩ ⟨hG, himp⟩ ha
    refine ⟨hf.act (fun c hc => safe_start ?_) ha, hcov.act hf hE hG himp ha⟩
    subst hc
    exact hG
  have hbumped : ∀ w ∈ s.log, wrote w = true → s.BumpedAfter E w := by
    intro w hw hwrote
    rcases hcov.covered w hw hwrote with hb | ⟨j, p, hp, hdirty⟩
    · exact hb
    · have hfinal := (hf.keeps j p hp).final (hrest p (List.mem_of_getElem? hp))
      exact absurd hdirty hfinal
  refine ⟨hbumped, fun now key entry hkey hentry => ?_⟩
  rw [generation_of_counts hc.counts hc.le] at hkey
  obtain ⟨x, hx, hstored⟩ := hc.entries key entry hkey.ne hentry
  refine ⟨x, hx, hstored, computed_of_stored hf ht hx hkey hstored, fun w hw hwrote => ?_⟩
  obtain ⟨n, hn, hsome, hwn⟩ := hbumped w hw hwrote
  obtain ⟨m, hm⟩ := Option.isSome_iff_exists.mp hsome
  intro d hd hpid hreads hdx
  have hmc := hc.bumped_le n hn m hm
  exact hwn.trans (bumped_before_read hf hc hx hkey hstored hn hm hmc hd hpid hreads hdx)

/-! ## Sample runs -/

namespace CustomerSample

/-- An import changes the table while a `create` is dirty. -/
def covered : List CustomerAct :=
  [.spawn (.create (customer (ascii "Ada")), entropy), .step 0, .step 0,
    .spawn (.importJob importFile false, entropy)] ++ List.replicate 6 (.step 1) ++
  [.step 0, .step 0, .spawn (.stats, entropy)] ++ List.replicate 9 (.step 2)

/-- `stats` fills the cache, an import runs, and `stats` asks again. -/
def uncovered : List CustomerAct :=
  .spawn (.stats, entropy) :: List.replicate 9 (.step 0) ++
  .spawn (.importJob importFile false, entropy) :: List.replicate 6 (.step 1) ++
  [.spawn (.stats, entropy), .step 2, .step 2]

end CustomerSample

open CustomerSample in
theorem changes_invalidate_sample :
    ∃ s : CustomerPool, s.db.customer.rows.length = 2
      ∧ (s.log.filterMap stored).map (·.2) = [statsJson (leads 2)] ∧ s.Invalidated env := by
  have h : ∃ s ∈ Pool.acts env.exec (CustomerPool.start env)
      (fun s a => CustomerPool.Reliable env s a ∧ CustomerPool.ImportsCovered env s a) covered
      (CustomerPool.idle (withImport (ascii "name\nBob\n")) 1000),
      CustomerPool.AtRest s ∧ s.db.customer.rows.length = 2
        ∧ (s.log.filterMap stored).map (·.2) = [statsJson (leads 2)] := by
    decide +kernel
  obtain ⟨s, hs, hrest, hrows, hstored⟩ := h
  exact ⟨s, hrows, hstored,
    changes_invalidate (by decide +kernel) rfl (Pool.steps_of_acts hs) hrest⟩

open CustomerSample in
/-- After an import alone the cache serves the counts from before it. -/
theorem import_leaves_stale :
    ∃ s : CustomerPool, Pool.Steps env.exec (CustomerPool.start env) (CustomerPool.Reliable env)
        (CustomerPool.idle (withImport (ascii "name\nBob\n")) 1000) s
      ∧ s.AtRest ∧ s.db.customer.rows.length = 1
      ∧ (s.log.filterMap CustomerEvent.hit).map (·.2) = [statsJson (leads 0)]
      ∧ ¬ s.Invalidated env := by
  have h : ∃ s ∈ Pool.acts env.exec (CustomerPool.start env) (CustomerPool.Reliable env) uncovered
      (CustomerPool.idle (withImport (ascii "name\nBob\n")) 1000),
      CustomerPool.AtRest s ∧ s.db.customer.rows.length = 1
        ∧ (s.log.filterMap CustomerEvent.hit).map (·.2) = [statsJson (leads 0)]
        ∧ ∃ w ∈ s.log, wrote w = true ∧ ¬ CustomerPool.BumpedAfter env s w := by
    decide +kernel
  obtain ⟨s, hs, hrest, hrows, hhit, w, hw, hwrote, hnot⟩ := h
  exact ⟨s, Pool.steps_of_acts hs, hrest, hrows, hhit, fun hinv => hnot (hinv.bumped w hw hwrote)⟩

end SlimStarter
