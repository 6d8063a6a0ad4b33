import SlimStarter.Customer.Phases

/-!
# Generations under interleaving

The generation of the customers is a counter: each `INCR` counts on, and a reader sees the
increments so far (`Counted.order`). What a reader stores belongs to the generation it read before
it read the table, and a writer increments the generation after its write. Hence what is stored
under a generation was computed after every write whose increment led to it, and a request that
reads the generation after an increment is served nothing older than its write
(`repopulation_ordered`).
-/

namespace SlimStarter

open CustomerService (cacheNamespace)
open CacheRedis (OfGeneration generation)
open Redis (Counts)
open CustomerEvent (readVersion bumped stored hit)

variable {E : CustomerEnv}

/-- The key belongs to a generation of the customers. -/
abbrev CustomerKey (E : CustomerEnv) (v : ℕ) (key : Bytes) : Prop :=
  OfGeneration E cacheNamespace v key

theorem CustomerKey.ne {v : ℕ} {key : Bytes} (h : CustomerKey E v key) : key ≠ versionKey E :=
  OfGeneration.ne_versionKey h

/-- What the event `e` did to the generation and to the entries. -/
structure Touches (E : CustomerEnv) (redis redis' : Redis.Store) (e : CustomerEvent) : Prop where
  count : ∀ c ≤ intMax, Counts redis (versionKey E) c →
    (bumped E e = none ∧ Counts redis' (versionKey E) c)
      ∨ (bumped E e = some (c + 1 : Int) ∧ readVersion E e = none ∧ c + 1 ≤ intMax
          ∧ Counts redis' (versionKey E) (c + 1))
  version : ∀ c ≤ intMax, Counts redis (versionKey E) c → ∀ v, readVersion E e = some v → v = c
  entries : ∀ key entry, key ≠ versionKey E → redis' key = some entry →
    redis key = some entry ∨ stored e = some (key, entry.value)
  hits : ∀ key value, hit e = some (key, value) → ∃ entry, redis key = some entry
    ∧ entry.value = value

theorem Touches.quiet {redis : Redis.Store} {e : CustomerEvent} (hb : bumped E e = none)
    (hr : readVersion E e = none) (hh : hit e = none) : Touches E redis redis e where
  count := fun _ _ h => .inl ⟨hb, h⟩
  version := by simp [hr]
  entries := fun _ _ _ h => .inl h
  hits := by simp [hh]

theorem generation_of_counts {redis : Redis.Store} {c : ℕ} (h : Counts redis (versionKey E) c)
    (hc : c ≤ intMax) (now : Int) : generation (Redis.get redis now (versionKey E)) = c := by
  rw [h.get]
  split_ifs with h0
  · simp [generation, h0]
  · simp [generation, intval, hc]

theorem touches_get {redis : Redis.Store} {now : Int} {stamp pid : ℕ} {key : Bytes} :
    Touches E redis redis ⟨stamp, pid, .redisGet key, .ok (Redis.get redis now key)⟩ where
  count := fun _ _ h => .inl ⟨rfl, h⟩
  version := by
    intro c hc h v hv
    simp only [readVersion] at hv
    split_ifs at hv with hkey
    obtain rfl := Option.some.inj hv
    rw [hkey]
    exact generation_of_counts h hc now
  entries := fun _ _ _ h => .inl h
  hits := by
    intro key' value h
    cases hget : Redis.get redis now key with
    | none => simp [hit, hget] at h
    | some value' =>
      simp only [hit, hget, Option.some.injEq, Prod.mk.injEq] at h
      obtain ⟨rfl, rfl⟩ := h
      exact Redis.get_eq_some hget

theorem touches_setex {redis : Redis.Store} {now ttl : Int} {stamp pid : ℕ} {key value : Bytes}
    (hkey : key ≠ versionKey E) :
    Touches E redis (Redis.setex redis now key ttl value).2
      ⟨stamp, pid, .redisSetex key ttl value, (Redis.setex redis now key ttl value).1⟩ where
  count := fun _ _ h => .inl ⟨rfl, h.congr (Redis.setex_of_ne hkey.symm)⟩
  version := by simp [readVersion]
  entries := by
    intro key' entry _ h
    rcases eq_or_ne key' key with rfl | hne
    · unfold Redis.setex at h ⊢
      split_ifs at h ⊢ with httl
      · exact .inl h
      · simp only [Function.update_self, Option.some.injEq] at h
        subst h
        exact .inr rfl
    · rw [Redis.setex_of_ne hne] at h
      exact .inl h
  hits := by simp [hit]

theorem touches_incr {redis : Redis.Store} {now : Int} {stamp pid : ℕ} :
    Touches E redis (Redis.incr redis now (versionKey E)).2
      ⟨stamp, pid, .redisIncr (versionKey E), (Redis.incr redis now (versionKey E)).1⟩ where
  count := by
    intro c hc h
    rcases h.incr hc now with ⟨hok, hcount, hle⟩ | ⟨herr, hsame⟩
    · refine .inr ⟨?_, rfl, hle, hcount⟩
      simp [bumped, hok]
    · refine .inl ⟨?_, h.congr (by rw [hsame])⟩
      cases hreply : (Redis.incr redis now (versionKey E)).1 with
      | error e => simp [bumped]
      | ok n => simp [hreply, Except.isOk, Except.toBool] at herr
  version := by simp [readVersion]
  entries := by
    intro key entry hkey h
    rw [Redis.incr_of_ne hkey] at h
    exact .inl h
  hits := by simp [hit]

theorem touches_del {redis : Redis.Store} (now : Int) {stamp pid : ℕ} {key : Bytes}
    {r : Except Failure ℕ} (hkey : key ≠ versionKey E) :
    Touches E redis (Redis.del redis now key).2 ⟨stamp, pid, .redisDel key, r⟩ where
  count := fun _ _ h => .inl ⟨rfl, h.congr (Redis.del_of_ne hkey.symm)⟩
  version := by simp [readVersion]
  entries := by
    intro key' entry _ h
    rcases eq_or_ne key' key with rfl | hne
    · simp [Redis.del] at h
    · rw [Redis.del_of_ne hne] at h
      exact .inl h
  hits := by simp [hit]

theorem exec_touches {φ : CustomerPhase} {op : CustomerStmt} (hop : φ.allowed E op) (now : Int)
    (db : CustomerDb) (stamp pid : ℕ) :
    Touches E db.redis (E.exec op now db).2.redis ⟨stamp, pid, op, (E.exec op now db).1⟩ := by
  cases op with
  | redisGet key => exact touches_get
  | redisSetex key ttl value =>
    obtain ⟨v, -, hkey⟩ := allowed_redisSetex hop
    exact touches_setex (CustomerKey.ne hkey)
  | redisIncr key =>
    obtain ⟨-, rfl⟩ := allowed_redisIncr hop
    exact touches_incr
  | redisDel key => exact touches_del now (allowed_redisDel hop)
  | _ => exact .quiet rfl rfl rfl

theorem fail_touches {op : CustomerStmt} {redis : Redis.Store} {stamp pid : ℕ} {e : Failure} :
    Touches E redis redis ⟨stamp, pid, op, .error e⟩ := by
  cases op <;> exact .quiet rfl rfl rfl

/-- The store and the log of a pool agree: the generation counts the increments, a reader of it saw
the increments so far, and an entry is one that was stored. -/
structure Counted (E : CustomerEnv) (s : CustomerPool) (c : ℕ) : Prop where
  le : c ≤ intMax
  counts : Counts s.db.redis (versionKey E) c
  bumped_le : ∀ n ∈ s.log, ∀ m, bumped E n = some m → m ≤ c
  version_le : ∀ g ∈ s.log, ∀ v, readVersion E g = some v → v ≤ c
  order : ∀ g ∈ s.log, ∀ v, readVersion E g = some v → ∀ n ∈ s.log, ∀ m, bumped E n = some m →
    (m ≤ v ↔ n.stamp < g.stamp)
  entries : ∀ key entry, key ≠ versionKey E → s.db.redis key = some entry →
    ∃ x ∈ s.log, stored x = some (key, entry.value)
  hits : ∀ h ∈ s.log, ∀ key value, key ≠ versionKey E → hit h = some (key, value) →
    ∃ x ∈ s.log, stored x = some (key, value) ∧ x.stamp < h.stamp

namespace Counted

variable {s s' : CustomerPool} {c : ℕ}

theorem idle {db : CustomerDb} {now : Int} (h : db.redis = Redis.empty) :
    Counted E (CustomerPool.idle db now) 0 where
  le := Nat.zero_le _
  counts := Redis.counts_zero (by simp [CustomerPool.idle, h, Redis.empty])
  bumped_le := by simp [CustomerPool.idle]
  version_le := by simp [CustomerPool.idle]
  order := by simp [CustomerPool.idle]
  entries := by simp [CustomerPool.idle, h, Redis.empty]
  hits := by simp [CustomerPool.idle]

section Cons

variable {e : CustomerEvent} (htouch : Touches E s.db.redis s'.db.redis e)

include htouch

theorem entries_cons (h : Counted E s c) {key : Bytes} {entry : Redis.Entry}
    (hkey : key ≠ versionKey E) (hentry : s'.db.redis key = some entry) :
    ∃ x ∈ e :: s.log, stored x = some (key, entry.value) := by
  rcases htouch.entries key entry hkey hentry with hold | hnew
  · obtain ⟨x, hx, hstored⟩ := h.entries key entry hkey hold
    exact ⟨x, List.mem_cons_of_mem _ hx, hstored⟩
  · exact ⟨e, List.mem_cons_self, hnew⟩

theorem hits_cons (h : Counted E s c) (hlt : ∀ d ∈ s.log, d.stamp < e.stamp) {d : CustomerEvent}
    (hd : d ∈ e :: s.log) {key value : Bytes} (hkey : key ≠ versionKey E)
    (hhit : hit d = some (key, value)) :
    ∃ x ∈ e :: s.log, stored x = some (key, value) ∧ x.stamp < d.stamp := by
  rcases List.mem_cons.mp hd with rfl | hd
  · obtain ⟨entry, hentry, rfl⟩ := htouch.hits key value hhit
    obtain ⟨x, hx, hstored⟩ := h.entries key entry hkey hentry
    exact ⟨x, List.mem_cons_of_mem _ hx, hstored, hlt x hx⟩
  · obtain ⟨x, hx, hstored, hxd⟩ := h.hits d hd key value hkey hhit
    exact ⟨x, List.mem_cons_of_mem _ hx, hstored, hxd⟩

theorem cons_counted (h : Counted E s c) (hlt : ∀ d ∈ s.log, d.stamp < e.stamp)
    (hlog : s'.log = e :: s.log) (hnone : bumped E e = none)
    (hcounts : Counts s'.db.redis (versionKey E) c) : Counted E s' c := by
  refine ⟨h.le, hcounts, ?_, ?_, ?_, ?_, ?_⟩ <;> rw [hlog]
  · intro n hn m hm
    rcases List.mem_cons.mp hn with rfl | hn
    · simp [hnone] at hm
    · exact h.bumped_le n hn m hm
  · intro g hg v hv
    rcases List.mem_cons.mp hg with rfl | hg
    · exact (htouch.version c h.le h.counts v hv).le
    · exact h.version_le g hg v hv
  · intro g hg v hv n hn m hm
    rcases List.mem_cons.mp hn with rfl | hn'
    · simp [hnone] at hm
    · rcases List.mem_cons.mp hg with rfl | hg'
      · have hvc := htouch.version c h.le h.counts v hv
        have hmc := h.bumped_le n hn' m hm
        have hng := hlt n hn'
        constructor <;> omega
      · exact h.order g hg' v hv n hn' m hm
  · exact fun key entry => h.entries_cons htouch
  · exact fun d hd key value => h.hits_cons htouch hlt hd

theorem cons_bumped (h : Counted E s c) (hlt : ∀ d ∈ s.log, d.stamp < e.stamp)
    (hlog : s'.log = e :: s.log) (hsome : bumped E e = some (c + 1 : Int))
    (hnover : readVersion E e = none) (hle : c + 1 ≤ intMax)
    (hcounts : Counts s'.db.redis (versionKey E) (c + 1)) : Counted E s' (c + 1) := by
  refine ⟨hle, hcounts, ?_, ?_, ?_, ?_, ?_⟩ <;> rw [hlog]
  · intro n hn m hm
    rcases List.mem_cons.mp hn with rfl | hn
    · have hmc : (c + 1 : Int) = m := by simpa [hsome] using hm
      push_cast
      omega
    · have := h.bumped_le n hn m hm
      push_cast
      omega
  · intro g hg v hv
    rcases List.mem_cons.mp hg with rfl | hg
    · simp [hnover] at hv
    · have := h.version_le g hg v hv
      omega
  · intro g hg v hv n hn m hm
    rcases List.mem_cons.mp hg with rfl | hg'
    · simp [hnover] at hv
    · rcases List.mem_cons.mp hn with rfl | hn'
      · have hmc : (c + 1 : Int) = m := by simpa [hsome] using hm
        have hvc := h.version_le g hg' v hv
        have hge := hlt g hg'
        constructor <;> omega
      · exact h.order g hg' v hv n hn' m hm
  · exact fun key entry => h.entries_cons htouch
  · exact fun d hd key value => h.hits_cons htouch hlt hd

/-- An event keeps the invariant, and counts on where it is an increment. -/
theorem cons (h : Counted E s c) (hlt : ∀ d ∈ s.log, d.stamp < e.stamp)
    (hlog : s'.log = e :: s.log) : ∃ c', Counted E s' c' := by
  rcases htouch.count c h.le h.counts with ⟨hnone, hcounts⟩ | ⟨hsome, hnover, hle, hcounts⟩
  · exact ⟨c, h.cons_counted htouch hlt hlog hnone hcounts⟩
  · exact ⟨c + 1, h.cons_bumped htouch hlt hlog hsome hnover hle hcounts⟩

end Cons

end Counted

/-- No call drops the key of the generation. -/
def CustomerPool.VersionKept (E : CustomerEnv) (_ : CustomerPool) : CustomerAct → Prop
  | .spawn c => c.1.KeepsVersion E
  | _ => True

instance (s : CustomerPool) (a : CustomerAct) : Decidable (s.VersionKept E a) :=
  match a with
  | .spawn c => inferInstanceAs (Decidable (c.1.KeepsVersion E))
  | .step _ | .fail .. | .tick _ => inferInstanceAs (Decidable True)

/-- Every call is in the phase that its part of the log says. -/
abbrev CustomerPool.Follows (E : CustomerEnv) (s : CustomerPool) : Prop :=
  Pool.Follows (customerMonitor E) (· ≠ .dirty) (fun c => c.1.phase E) s

variable {s s' : CustomerPool} {a : CustomerAct}

theorem counted_act (hf : s.Follows E) (h : ∃ c, Counted E s c)
    (ha : Pool.act E.exec (CustomerPool.start E) s a = some s') : ∃ c, Counted E s' c := by
  obtain ⟨c, h⟩ := h
  rcases Pool.act_cases ha with ⟨call, rfl, rfl⟩ | ⟨t, rfl, rfl⟩ | ⟨i, call, op, k, rfl, hi, rfl⟩ |
    ⟨i, e, call, op, k, rfl, hi, rfl⟩
  · exact ⟨c, h.le, h.counts, h.bumped_le, h.version_le, h.order, h.entries, h.hits⟩
  · exact ⟨c, h.le, h.counts, h.bumped_le, h.version_le, h.order, h.entries, h.hits⟩
  · have hallowed := (hf.keeps i _ hi).1
    exact h.cons (exec_touches hallowed s.now s.db _ _) hf.stamped.lt rfl
  · have htouch : Touches E s.db.redis s.db.redis ⟨s.log.length, i, op, .error e⟩ := fail_touches
    exact h.cons htouch hf.stamped.lt rfl

/-- What holds in every state of a run from an empty Redis. -/
theorem counted_steps {db : CustomerDb} {now : Int} (hdb : db.redis = Redis.empty)
    (run : Pool.Steps E.exec (CustomerPool.start E) (CustomerPool.VersionKept E)
      (CustomerPool.idle db now) s) : s.Follows E ∧ ∃ c, Counted E s c := by
  refine Pool.Steps.inv (I := fun s : CustomerPool => s.Follows E ∧ ∃ c, Counted E s c) run ?_
    ⟨Pool.follows_idle, 0, Counted.idle hdb⟩
  rintro s a s' ⟨hf, hc⟩ hG ha
  refine ⟨hf.act (fun c hc => safe_start ?_) ha, counted_act hf hc ha⟩
  subst hc
  exact hG

/-! ## Phases and the log -/

section Log

variable {φ φ₀ : CustomerPhase} {i v : ℕ} {l : List CustomerEvent} {e : CustomerEvent}

theorem next_ne_ready {op : CustomerStmt} {r : Except Failure op.Res} :
    φ.next op r ≠ .ready := by
  unfold CustomerPhase.next
  split <;> simp_all
  split_ifs <;> simp

theorem forall_ne_of_ready (h : (customerMonitor E).phase φ₀ i l = .ready) :
    ∀ e ∈ l, e.pid ≠ i := by
  induction l with
  | nil => simp
  | cons d l ih =>
    by_cases hd : d.pid = i
    · rw [Monitor.phase_cons_self hd] at h
      exact absurd h next_ne_ready
    · rw [Monitor.phase_cons_of_ne hd] at h
      intro e he
      rcases List.mem_cons.mp he with rfl | he
      · exact hd
      · exact ih h e he

theorem next_keyed (hall : φ.allowed E e.op) (h : φ.next e.op e.reply = .keyed v) :
    φ = .keyed v ∨ (φ = .ready ∧ readVersion E e = some v) := by
  obtain ⟨stamp, pid, op, r⟩ := e
  cases φ with
  | ready =>
    obtain rfl : op = .redisGet (versionKey E) := hall
    cases r with
    | error e => simp [CustomerPhase.next] at h
    | ok raw =>
      simp only [CustomerPhase.next, CustomerPhase.keyed.injEq] at h
      exact .inr ⟨rfl, by simp [readVersion, h]⟩
  | keyed w => exact .inl h
  | clean =>
    cases r with
    | error e => simp [CustomerPhase.next] at h
    | ok a =>
      simp only [CustomerPhase.next] at h
      split_ifs at h
  | dirty =>
    unfold CustomerPhase.next at h
    split at h <;> simp_all
  | _ => simp [CustomerPhase.next] at h

/-- Of a call that knows a generation, the first event read it. -/
theorem exists_readVersion (h₀ : ∀ v, φ₀ ≠ .keyed v) (hst : Pool.Stamped l)
    (hall : ∀ l₁ e l₂, l = l₁ ++ e :: l₂ → e.pid = i →
      ((customerMonitor E).phase φ₀ i l₂).allowed E e.op)
    (h : (customerMonitor E).phase φ₀ i l = .keyed v) :
    ∃ g ∈ l, g.pid = i ∧ readVersion E g = some v
      ∧ ∀ d ∈ l, d.pid = i → d ≠ g → g.stamp < d.stamp := by
  induction l with
  | nil => exact absurd h (h₀ v)
  | cons e l ih =>
    have hlater : ∀ g ∈ l, g.stamp < e.stamp := fun g hg => hst.1 ▸ hst.2.lt g hg
    have hrest : (customerMonitor E).phase φ₀ i l = .keyed v →
        ∃ g ∈ e :: l, g.pid = i ∧ readVersion E g = some v
          ∧ ∀ d ∈ e :: l, d.pid = i → d ≠ g → g.stamp < d.stamp := by
      intro hv
      have hall' : ∀ l₁ d l₂, l = l₁ ++ d :: l₂ → d.pid = i →
          ((customerMonitor E).phase φ₀ i l₂).allowed E d.op :=
        fun l₁ d l₂ hl => hall (e :: l₁) d l₂ (by rw [hl]; rfl)
      obtain ⟨g, hg, hpid, hread, hfirst⟩ := ih hst.2 hall' hv
      refine ⟨g, by simp [hg], hpid, hread, fun d hd hdi hne => ?_⟩
      rcases List.mem_cons.mp hd with rfl | hd
      · exact hlater g hg
      · exact hfirst d hd hdi hne
    by_cases hi : e.pid = i
    · rw [Monitor.phase_cons_self hi] at h
      rcases next_keyed (hall [] e l rfl hi) h with hkeyed | ⟨hready, hread⟩
      · exact hrest hkeyed
      · refine ⟨e, by simp, hi, hread, fun d hd hdi hne => ?_⟩
        rcases List.mem_cons.mp hd with rfl | hd
        · exact absurd rfl hne
        · exact absurd hdi (forall_ne_of_ready hready d hd)
    · rw [Monitor.phase_cons_of_ne hi] at h
      exact hrest h

end Log

theorem CustomerCall.phase_ne_keyed (c : CustomerCall) (v : ℕ) : c.phase E ≠ .keyed v := by
  by_cases hc : CacheRedis.configured E <;> cases c <;> simp [CustomerCall.phase, hc]

section Follows

variable {g n w x d : CustomerEvent} {v : ℕ} {m : Int} {key value : Bytes}

theorem exists_setex_of_stored (h : stored x = some (key, value)) :
    ∃ ttl, x.op = .redisSetex key ttl value := by
  revert h
  unfold stored
  split
  · rintro h
    obtain ⟨rfl, rfl⟩ := Prod.mk.inj (Option.some.inj h)
    exact ⟨_, rfl⟩
  · simp

/-- An event with a key of a generation stands in the phase of that generation. -/
theorem keyed_of_key (hf : s.Follows E) {l l' : List CustomerEvent} (hlog : s.log = l ++ x :: l')
    (hkey : CustomerKey E v key)
    (hop : x.op = .redisGet key ∨ ∃ ttl value, x.op = .redisSetex key ttl value) :
    ∃ p : CustomerProc, s.procs[x.pid]? = some p
      ∧ (customerMonitor E).phase (p.call.1.phase E) x.pid l' = .keyed v := by
  obtain ⟨p, hp, hall⟩ := hf.allowed l x l' hlog
  refine ⟨p, hp, ?_⟩
  revert hall
  generalize (customerMonitor E).phase (p.call.1.phase E) x.pid l' = φ
  intro hall
  rcases hop with hop | ⟨ttl, value, hop⟩ <;> rw [hop] at hall
  · rcases allowed_redisGet hall with ⟨-, rfl⟩ | ⟨w, rfl, hw⟩
    · exact absurd rfl hkey.ne
    · rw [OfGeneration.injective hkey hw]
  · obtain ⟨w, rfl, hw⟩ := allowed_redisSetex hall
    rw [OfGeneration.injective hkey hw]

/-- Where an event with a key of a generation stands, its call has read that generation first. -/
theorem exists_readVersion_of_key (hf : s.Follows E) (hx : x ∈ s.log) (hkey : CustomerKey E v key)
    (hop : x.op = .redisGet key ∨ ∃ ttl value, x.op = .redisSetex key ttl value) :
    ∃ g ∈ s.log, g.pid = x.pid ∧ readVersion E g = some v ∧ g.stamp < x.stamp
      ∧ ∀ d ∈ s.log, d.pid = x.pid → d ≠ g → d.stamp < x.stamp → g.stamp < d.stamp := by
  obtain ⟨l, l', hlog, hstamp, hst, hbefore, hafter⟩ := hf.stamped.split hx
  obtain ⟨p, hp, hkeyed⟩ := keyed_of_key hf hlog hkey hop
  have hall' : ∀ l₁ e l₂, l' = l₁ ++ e :: l₂ → e.pid = x.pid →
      ((customerMonitor E).phase (p.call.1.phase E) x.pid l₂).allowed E e.op := by
    intro l₁ e l₂ hl he
    obtain ⟨q, hq, hallq⟩ := hf.allowed (l ++ x :: l₁) e l₂ (by rw [hlog, hl]; simp)
    rw [he] at hq hallq
    rw [hp] at hq
    obtain rfl := Option.some.inj hq
    exact hallq
  obtain ⟨g, hg, hpid, hread, hfirst⟩ :=
    exists_readVersion (fun v => p.call.1.phase_ne_keyed v) hst hall' hkeyed
  refine ⟨g, by rw [hlog]; simp [hg], hpid, hread, hbefore g hg, fun d hd hdi hne hlt => ?_⟩
  have hd' : d ∈ l' := by
    rw [hlog] at hd
    rcases List.mem_append.mp hd with hd | hd
    · have := hafter d hd
      omega
    · rcases List.mem_cons.mp hd with rfl | hd
      · omega
      · exact hd
  exact hfirst d hd' hdi hne

/-- A call reads the generation before anything else. -/
theorem readVersion_first (hf : s.Follows E) (hg : g ∈ s.log) (hread : readVersion E g = some v)
    (hd : d ∈ s.log) (hpid : d.pid = g.pid) (hne : d ≠ g) : g.stamp < d.stamp := by
  obtain ⟨l, l', hlog, hstamp, hst, hbefore, hafter⟩ := hf.stamped.split hg
  obtain ⟨p, hp, hall⟩ := hf.allowed l g l' hlog
  have hop : g.op = .redisGet (versionKey E) := by
    revert hread
    unfold readVersion
    split
    · split_ifs with hk
      · simp [hk]
      · simp
    · simp
  have hready : (customerMonitor E).phase (p.call.1.phase E) g.pid l' = .ready := by
    rw [hop] at hall
    revert hall
    generalize (customerMonitor E).phase (p.call.1.phase E) g.pid l' = φ
    intro hall
    rcases allowed_redisGet hall with ⟨rfl, -⟩ | ⟨w, -, hw⟩
    · rfl
    · exact absurd rfl (CustomerKey.ne hw)
  rw [hlog] at hd
  rcases List.mem_append.mp hd with hd | hd
  · exact hafter d hd
  · rcases List.mem_cons.mp hd with rfl | hd
    · exact absurd rfl hne
    · exact absurd hpid (forall_ne_of_ready hready d hd)

/-- A call increments the generation after its write. -/
theorem wrote_before_bumped (hf : s.Follows E) (hw : w ∈ s.log) (hn : n ∈ s.log)
    (hwrote : w.op.writes = true) (hbumped : bumped E n = some m) (hpid : w.pid = n.pid) :
    w.stamp < n.stamp := by
  obtain ⟨l, l', hlog, hstamp, hst, hbefore, hafter⟩ := hf.stamped.split hn
  obtain ⟨p, hp, hall⟩ := hf.allowed l n l' hlog
  obtain ⟨hop, hok⟩ : n.op = .redisIncr (versionKey E)
      ∧ CustomerPhase.next .dirty n.op n.reply = .bumped := by
    revert hbumped
    unfold bumped
    split
    · split_ifs with hk
      · simp [hk, CustomerPhase.next]
      · simp
    · simp
  have hdirty : (customerMonitor E).phase (p.call.1.phase E) n.pid l' = .dirty := by
    rw [hop] at hall
    revert hall
    generalize (customerMonitor E).phase (p.call.1.phase E) n.pid l' = φ
    exact fun hall => (allowed_redisIncr hall).1
  rw [hlog] at hw
  rcases List.mem_append.mp hw with hw | hw
  · obtain ⟨a, b, rfl⟩ := List.append_of_mem hw
    obtain ⟨q, hq, hallq⟩ := hf.allowed a w (b ++ n :: l') (by rw [hlog]; simp)
    rw [hpid] at hq hallq
    rw [hp] at hq
    obtain rfl := Option.some.inj hq
    have hphase : (customerMonitor E).phase (p.call.1.phase E) n.pid (b ++ n :: l') = .bumped := by
      refine Monitor.phase_append (fun _ _ => rfl) ?_
      rw [Monitor.phase_cons_self rfl, hdirty]
      exact hok
    rw [hphase] at hallq
    exact absurd hwrote (by rw [hallq.2]; simp)
  · rcases List.mem_cons.mp hw with rfl | hw
    · rw [hop] at hwrote
      simp [CustomerStmt.writes] at hwrote
    · exact hbefore w hw

/-- An entry that a call is served belongs to the generation the call has read. -/
theorem key_of_hit (hf : s.Follows E) (hg : g ∈ s.log) (hread : readVersion E g = some v)
    (hx : x ∈ s.log) (hpid : x.pid = g.pid) (hne : key ≠ versionKey E)
    (hhit : hit x = some (key, value)) : CustomerKey E v key := by
  have hop : x.op = .redisGet key := by
    revert hhit
    unfold hit
    split
    · rintro h
      obtain ⟨rfl, rfl⟩ := Prod.mk.inj (Option.some.inj h)
      rfl
    · simp
  obtain ⟨l, l', hlog⟩ := List.append_of_mem hx
  obtain ⟨p, hp, hall⟩ := hf.allowed l x l' hlog
  obtain ⟨w, hkey⟩ : ∃ w, CustomerKey E w key := by
    rw [hop] at hall
    revert hall
    generalize (customerMonitor E).phase (p.call.1.phase E) x.pid l' = φ
    intro hall
    rcases allowed_redisGet hall with ⟨-, rfl⟩ | ⟨w, -, hw⟩
    · exact absurd rfl hne
    · exact ⟨w, hw⟩
  obtain ⟨g', hg', hpid', hread', -, -⟩ := exists_readVersion_of_key hf hx hkey (.inl hop)
  obtain rfl : g = g' := by
    by_contra hne'
    have hlt := readVersion_first hf hg hread hg' (hpid'.trans hpid) (Ne.symm hne')
    have hgt := readVersion_first hf hg' hread' hg (hpid'.trans hpid).symm hne'
    omega
  obtain rfl : v = w := Option.some.inj (hread.symm.trans hread')
  exact hkey

/-- What is stored under a generation was computed after every increment that led to it. -/
theorem bumped_before_read {c : ℕ} (hf : s.Follows E) (hc : Counted E s c) (hx : x ∈ s.log)
    (hkey : CustomerKey E v key) (hstored : stored x = some (key, value)) (hn : n ∈ s.log)
    (hbumped : bumped E n = some m) (hm : m ≤ v) (hd : d ∈ s.log) (hpid : d.pid = x.pid)
    (hreads : d.op.reads = true) (hdx : d.stamp < x.stamp) : n.stamp < d.stamp := by
  obtain ⟨ttl, hop⟩ := exists_setex_of_stored hstored
  obtain ⟨g, hg, hgx, hread, -, hfirst⟩ :=
    exists_readVersion_of_key hf hx hkey (.inr ⟨ttl, value, hop⟩)
  have hng : n.stamp < g.stamp := (hc.order g hg v hread n hn m hbumped).mp hm
  have hne : d ≠ g := by
    rintro rfl
    revert hread
    unfold readVersion
    split <;> simp_all [CustomerStmt.reads]
  exact hng.trans (hfirst d hd hpid hne hdx)

end Follows

section Computed

variable {c : CustomerCall × CustomerEntropy}
variable {rs : List (Reply CustomerStmt CustomerStmt.Res Failure)}

/-- Only `list` and `stats` come to know a generation. -/
theorem producer_of_keyed {c : CustomerCall} {i v : ℕ} {l : List CustomerEvent}
    (h : (customerMonitor E).phase (c.phase E) i l = .keyed v) : (c.producer E).isSome := by
  by_contra hnone
  have hstart : c.phase E ≠ .ready ∧ ∀ v, c.phase E ≠ .keyed v := by
    refine ⟨?_, fun v => c.phase_ne_keyed v⟩
    by_cases hc : CacheRedis.configured E <;> cases c <;>
      simp_all [CustomerCall.phase, CustomerCall.producer]
  refine (Monitor.phase_induction (m := customerMonitor E)
    (P := fun φ => φ ≠ .ready ∧ ∀ v, φ ≠ .keyed v) hstart ?_ i l).2 v h
  rintro φ op r ⟨hready, hkeyed⟩
  refine ⟨next_ne_ready, fun w hw => ?_⟩
  cases φ <;> simp_all [customerMonitor, CustomerPhase.next]
  · cases r <;> simp at hw
    split_ifs at hw
  · split at hw <;> simp_all

theorem computes_of_setex (hc : (c.1.producer E).isSome) {key value : Bytes} {ttl : Int} {k}
    (hr : Prog.Reaches (CustomerPool.start E c) rs (.call (.redisSetex key ttl value) k)) :
    ∃ a, E.jsonEncode a = some value ∧ Computes E c.1 (rs.filter (·.op.reads)) a := by
  obtain ⟨c, R⟩ := c
  cases c with
  | list keywords status page limit =>
    unfold CustomerPool.start CustomerCall.prog at hr
    obtain ⟨k', hr⟩ := hr.map_call
    obtain ⟨a, hencode, hr⟩ :=
      (cached_reaches (only_loadList keywords status page limit)).1 _ _ _ _ _ hr
    exact ⟨a, hencode, _, rfl, hr⟩
  | stats =>
    unfold CustomerPool.start CustomerCall.prog at hr
    obtain ⟨k', hr⟩ := hr.map_call
    obtain ⟨a, hencode, hr⟩ := (cached_reaches only_loadStats).1 _ _ _ _ _ hr
    exact ⟨a, hencode, _, rfl, hr⟩
  | _ => simp [CustomerCall.producer] at hc

theorem computes_of_ret {a : Cached}
    (hr : Prog.Reaches (CustomerPool.start E c) rs (.ret (.cached a))) :
    Computes E c.1 (rs.filter (·.op.reads)) a
      ∨ ∃ key raw, key ≠ versionKey E ∧ ⟨.redisGet key, .ok (some raw)⟩ ∈ rs
        ∧ E.jsonDecode raw = some a := by
  obtain ⟨c, R⟩ := c
  cases c with
  | list keywords status page limit =>
    unfold CustomerPool.start CustomerCall.prog at hr
    obtain ⟨a', ha, hr⟩ := hr.map_ret
    cases ha
    exact ((cached_reaches (only_loadList keywords status page limit)).2 _ _ hr).imp
      (fun h => ⟨_, rfl, h⟩) id
  | stats =>
    unfold CustomerPool.start CustomerCall.prog at hr
    obtain ⟨a', ha, hr⟩ := hr.map_ret
    cases ha
    exact ((cached_reaches only_loadStats).2 _ _ hr).imp (fun h => ⟨_, rfl, h⟩) id
  | _ =>
    unfold CustomerPool.start CustomerCall.prog at hr
    obtain ⟨a', ha, -⟩ := hr.map_ret
    cases ha

end Computed

/-- The replies that the call of `x` got to its reads of the table before `x`. -/
def CustomerPool.readsBefore (s : CustomerPool) (x : CustomerEvent) :
    List (Reply CustomerStmt CustomerStmt.Res Failure) :=
  (Pool.replies x.pid (s.log.filter (·.stamp < x.stamp))).filter (·.op.reads)

/-- What the call of `x` read from the table before `x`, it read after `w`. -/
def CustomerPool.ReadAfter (s : CustomerPool) (w x : CustomerEvent) : Prop :=
  ∀ d ∈ s.log, d.pid = x.pid → d.op.reads = true → d.stamp < x.stamp → w.stamp < d.stamp

/-- `w` is a committed write of a call whose increment `n` led to the generation `m`. -/
structure CustomerPool.Invalidates (E : CustomerEnv) (s : CustomerPool) (w n : CustomerEvent)
    (m : Int) : Prop where
  wrote_mem : w ∈ s.log
  bumped_mem : n ∈ s.log
  wrote : CustomerEvent.wrote w = true
  bumped : bumped E n = some m
  pid : w.pid = n.pid

/-- The value that `x` stores is what its call computes from its reads of the table. -/
def CustomerPool.Computed (E : CustomerEnv) (s : CustomerPool) (x : CustomerEvent)
    (value : Bytes) : Prop :=
  ∃ (p : CustomerProc) (c : Cached), s.procs[x.pid]? = some p ∧ E.jsonEncode c = some value
    ∧ Computes E p.call.1 (s.readsBefore x) c

/-- Every entry stored under a generation was computed from reads made after every write whose
increment led to that generation or an earlier one. -/
def CustomerPool.EntriesOrdered (E : CustomerEnv) (s : CustomerPool) : Prop :=
  ∀ x ∈ s.log, ∀ v key value, CustomerKey E v key → stored x = some (key, value) →
    s.Computed E x value ∧ ∀ w n m, s.Invalidates E w n m → m ≤ v → s.ReadAfter w x

/-- A request that reads the generation after the increment of a write reads the table after that
write, and returns what it computes from these reads, or decodes an entry that was computed from
reads after the write. -/
def CustomerPool.ResultsOrdered (E : CustomerEnv) (s : CustomerPool) : Prop :=
  ∀ g ∈ s.log, ∀ v, readVersion E g = some v →
    ∀ w n m, s.Invalidates E w n m → n.stamp < g.stamp →
      (∀ d ∈ s.log, d.pid = g.pid → d.op.reads = true → w.stamp < d.stamp)
      ∧ ∀ (p : CustomerProc) (c : Cached), s.procs[g.pid]? = some p → p.rest = .ret (.cached c) →
        Computes E p.call.1 ((Pool.replies g.pid s.log).filter (·.op.reads)) c
        ∨ ∃ x ∈ s.log, ∃ key value, stored x = some (key, value) ∧ E.jsonDecode value = some c
          ∧ s.Computed E x value ∧ s.ReadAfter w x

theorem CustomerPool.Invalidates.lt {w n : CustomerEvent} {m : Int} (hf : s.Follows E)
    (h : s.Invalidates E w n m) : w.stamp < n.stamp := by
  have hwrites : w.op.writes = true := (Bool.and_eq_true _ _ ▸ h.wrote).1
  exact wrote_before_bumped hf h.wrote_mem h.bumped_mem hwrites h.bumped h.pid

theorem readAfter_of_le {x w n : CustomerEvent} {v c : ℕ} {m : Int} {key value : Bytes}
    (hf : s.Follows E) (hc : Counted E s c) (hx : x ∈ s.log) (hkey : CustomerKey E v key)
    (hstored : stored x = some (key, value)) (h : s.Invalidates E w n m) (hm : m ≤ v) :
    s.ReadAfter w x := by
  intro d hd hpid hreads hdx
  have hnd := bumped_before_read hf hc hx hkey hstored h.bumped_mem h.bumped hm hd hpid hreads hdx
  exact (h.lt hf).trans hnd

theorem computed_of_stored {x : CustomerEvent} {v : ℕ} {key value : Bytes} (hf : s.Follows E)
    (ht : Pool.Traced (CustomerPool.start E) s) (hx : x ∈ s.log) (hkey : CustomerKey E v key)
    (hstored : stored x = some (key, value)) : s.Computed E x value := by
  obtain ⟨l, l', hlog⟩ := List.append_of_mem hx
  obtain ⟨ttl, hop⟩ := exists_setex_of_stored hstored
  obtain ⟨p, hp, hkeyed⟩ := keyed_of_key hf hlog hkey (.inr ⟨ttl, value, hop⟩)
  obtain ⟨q, k, hq, hreaches⟩ := ht.event l x l' hlog
  rw [hp] at hq
  obtain rfl := Option.some.inj hq
  have hbefore : s.log.filter (·.stamp < x.stamp) = l' := by
    rw [hlog]
    exact Pool.Stamped.filter_lt (hlog ▸ hf.stamped)
  revert k
  rw [hop]
  intro k hreaches
  obtain ⟨c, hencode, hcomputes⟩ := computes_of_setex (producer_of_keyed hkeyed) hreaches
  refine ⟨p, c, hp, hencode, ?_⟩
  unfold CustomerPool.readsBefore
  rw [hbefore]
  exact hcomputes

/-- Along every interleaving of the calls, entries and results are as new as the generation they
belong to. -/
theorem repopulation_ordered {db : CustomerDb} {now : Int} (hdb : db.redis = Redis.empty)
    (run : Pool.Steps E.exec (CustomerPool.start E) (CustomerPool.VersionKept E)
      (CustomerPool.idle db now) s) : s.EntriesOrdered E ∧ s.ResultsOrdered E := by
  obtain ⟨hf, c, hc⟩ := counted_steps hdb run
  have ht : Pool.Traced (CustomerPool.start E) s := run.traced Pool.traced_idle
  constructor
  · intro x hx v key value hkey hstored
    refine ⟨computed_of_stored hf ht hx hkey hstored, fun w n m h hm => ?_⟩
    exact readAfter_of_le hf hc hx hkey hstored h hm
  · intro g hg v hread w n m h hng
    have hw := h.lt hf
    constructor
    · intro d hd hpid hreads
      have hne : d ≠ g := by
        rintro rfl
        revert hread
        unfold readVersion
        split <;> simp_all [CustomerStmt.reads]
      have hgd : g.stamp < d.stamp := readVersion_first hf hg hread hd hpid hne
      omega
    · intro p c hp hret
      have hreaches := ht.rest g.pid p hp
      rw [hret] at hreaches
      refine (computes_of_ret hreaches).imp id ?_
      rintro ⟨key, raw, hkey, hmem, hdecode⟩
      obtain ⟨e, he, hpid, heq⟩ := Pool.mem_replies hmem
      have hhit : hit e = some (key, raw) := by
        obtain ⟨stamp, pid, op, r⟩ := e
        cases heq
        rfl
      obtain ⟨x, hx, hstored, hxe⟩ := hc.hits e he key raw hkey hhit
      have hgen := key_of_hit hf hg hread he hpid hkey hhit
      have hm : m ≤ v := (hc.order g hg v hread n h.bumped_mem m h.bumped).mpr hng
      exact ⟨x, hx, key, raw, hstored, hdecode, computed_of_stored hf ht hx hgen hstored,
        readAfter_of_le hf hc hx hgen hstored h hm⟩

/-! ## A sample run -/

namespace CustomerSample

/-- `stats` reads the generation and misses; then a customer is created; then `stats` counts and
stores what it counted under the old generation, and the next `stats` reads the new one. -/
def overtaken : List CustomerAct :=
  [.spawn (.stats, entropy), .step 0, .step 0,
    .spawn (.create (customer (ascii "Ada")), entropy)] ++ List.replicate 4 (.step 1) ++
  List.replicate 7 (.step 0) ++ .spawn (.stats, entropy) :: List.replicate 9 (.step 2)

end CustomerSample

open CustomerSample in
theorem repopulation_ordered_sample :
    ∃ s : CustomerPool, s.log.filterMap (bumped env) = [1]
      ∧ (s.log.filterMap stored).map (·.2) = [statsJson (leads 1), statsJson (leads 1)]
      ∧ s.EntriesOrdered env ∧ s.ResultsOrdered env := by
  have h : ∃ s ∈ Pool.acts env.exec (CustomerPool.start env) (CustomerPool.VersionKept env)
      overtaken (CustomerPool.idle db 1000), s.log.filterMap (bumped env) = [1]
        ∧ (s.log.filterMap stored).map (·.2) = [statsJson (leads 1), statsJson (leads 1)] := by
    decide +kernel
  obtain ⟨s, hs, hb, hx⟩ := h
  exact ⟨s, hb, hx, repopulation_ordered rfl (Pool.steps_of_acts hs)⟩

end SlimStarter
