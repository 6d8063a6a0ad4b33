import SlimStarter.Customer.Generation
import SlimStarter.Customer.Instance

/-!
# A service on a Redis that fails

`Sound` is what the calls of a service keep, in whatever pattern its Redis fails: no command follows
one that threw, and while the instance is enabled it remembers the current generation only, whose
entries decode to values of `V`. A list adds to `V` what it computes (`returns_cachedOn`), and a
write leaves nothing in it (`returns_writeOn`): its `bump` has led to a generation without entries,
or has disabled the instance.
-/

namespace SlimStarter

open CustomerService (cacheNamespace)
open CacheRedis (redisKey generationKey namespacedKey)
open Redis (Counts)

variable {E : CustomerEnv} {faults : ℕ → Fault} {i : Int}

section OffRedis

variable {α : Type} {p : CustomerProg α} {db : CustomerDb}

theorem exec_withRedis {op : CustomerStmt} (h : op.OffRedis) (redis : Redis.Store) :
    E.exec op i { db with redis } =
      ((E.exec op i db).1, { (E.exec op i db).2 with redis }) := by
  cases op <;> first | rfl | cases h

/-- A program off Redis does not depend on what Redis holds, and leaves it as it is. -/
theorem run_withRedis (h : Prog.Only CustomerStmt.OffRedis (fun _ => True) p)
    (redis : Redis.Store) : p.run E.exec i { db with redis } =
      ((p.run E.exec i db).1, { (p.run E.exec i db).2 with redis }) := by
  induction p generalizing db with
  | ret a => rfl
  | throw e => rfl
  | clock k ih => exact ih i (h i)
  | call op k ih =>
    rw [Prog.run_call, Prog.run_call, exec_withRedis h.1]
    exact ih _ (h.2 _)

theorem redis_run (h : Prog.Only CustomerStmt.OffRedis (fun _ => True) p) :
    (p.run E.exec i db).2.redis = db.redis :=
  congrArg (·.2.redis) (run_withRedis h db.redis)

/-- A program off Redis runs on a Redis that fails as it does on one that does not. -/
theorem run_flaky (h : Prog.Only CustomerStmt.OffRedis (fun _ => True) p) (w : Flaky) :
    p.run (E.flaky faults) i w =
      ((p.run E.exec i w.db).1, { w with db := (p.run E.exec i w.db).2 }) := by
  induction p generalizing w with
  | ret a => rfl
  | throw e => rfl
  | clock k ih => exact ih i (h i) w
  | call op k ih =>
    have hop : E.flaky faults op i w =
        ((E.exec op i w.db).1, { w with db := (E.exec op i w.db).2 }) := by
      simp only [CustomerEnv.flaky, show op.onRedis = false from h.1]
      rfl
    rw [Prog.run_call, Prog.run_call, hop]
    exact ih _ (h.2 _) _

theorem offRedis_of_reads (h : Prog.Only (fun op => op.reads = true) (fun _ => True) p) :
    Prog.Only CustomerStmt.OffRedis (fun _ => True) p :=
  h.imp fun op hop => by cases op <;> first | rfl | cases hop

theorem db_run_of_reads (h : Prog.Only (fun op => op.reads = true) (fun _ => True) p) :
    (p.run E.exec i db).2 = db := by
  induction p generalizing db with
  | ret a => rfl
  | throw e => rfl
  | clock k ih => exact ih i (h i)
  | call op k ih =>
    have hop : (E.exec op i db).2 = db := by
      obtain ⟨hreads, -⟩ := h
      cases op <;> first | rfl | cases hreads
    rw [Prog.run_call, ih _ (h.2 _), hop]

end OffRedis

/-- What the key of an entry is after its generation. -/
def entryName (entity discriminator : Bytes) : Bytes :=
  (namespacedKey [] entity discriminator 0).drop (ascii ":g0:").length

/-- The key of an entry. -/
abbrev entryKey (E : CustomerEnv) (v : ℕ) (name : Bytes) : Bytes :=
  generationKey E cacheNamespace v ++ name

theorem redisKey_namespacedKey (entity discriminator : Bytes) (v : ℕ) :
    redisKey E (namespacedKey cacheNamespace entity discriminator v) =
      entryKey E v (entryName entity discriminator) := by
  have hzero : natString 0 = ascii "0" := by decide
  unfold entryName namespacedKey entryKey generationKey redisKey
  simp only [hzero]
  split_ifs <;> simp [ascii]

theorem entryKey_inj {v v' : ℕ} {name name' : Bytes} :
    entryKey E v name = entryKey E v' name' ↔ v = v' ∧ name = name' := by
  constructor
  · intro h
    obtain rfl := CacheRedis.OfGeneration.injective (E := E) ⟨name, rfl⟩ ⟨name', h⟩
    exact ⟨rfl, List.append_cancel_left h⟩
  · rintro ⟨rfl, rfl⟩
    rfl

/-- The generation was incremented `n` times, no entry is of a later one, and the entries of this
one decode to values of `V`. -/
structure Generations (E : CustomerEnv) (V : Bytes → Cached → Prop) (n : ℕ)
    (redis : Redis.Store) : Prop where
  le : n ≤ intMax
  counts : Counts redis (versionKey E) n
  entries : ∀ v name entry, redis (entryKey E v name) = some entry →
    v < n ∨ (v = n ∧ ∀ a, E.jsonDecode entry.value = some a → V name a)

namespace Generations

variable {V V' : Bytes → Cached → Prop} {n : ℕ} {redis : Redis.Store}

theorem empty (V : Bytes → Cached → Prop) : Generations E V 0 Redis.empty where
  le := Nat.zero_le _
  counts := Redis.counts_zero rfl
  entries := by simp [Redis.empty]

theorem mono (h : Generations E V n redis) (hV : ∀ name a, V name a → V' name a) :
    Generations E V' n redis :=
  ⟨h.le, h.counts, fun v name entry hentry =>
    (h.entries v name entry hentry).imp_right fun ⟨hv, hall⟩ =>
      ⟨hv, fun a ha => hV name a (hall a ha)⟩⟩

theorem setex (h : Generations E V n redis) {name value : Bytes}
    (hvalue : ∀ a, E.jsonDecode value = some a → V name a) (now ttl : Int) :
    Generations E V n (Redis.setex redis now (entryKey E n name) ttl value).2 where
  le := h.le
  counts := h.counts.congr (Redis.setex_of_ne (CustomerKey.ne ⟨name, rfl⟩).symm)
  entries := by
    intro v name' entry hentry
    by_cases heq : entryKey E v name' = entryKey E n name
    · obtain ⟨rfl, rfl⟩ := entryKey_inj.mp heq
      unfold Redis.setex at hentry
      split_ifs at hentry
      · exact h.entries _ _ _ hentry
      · simp only [Function.update_self, Option.some.injEq] at hentry
        subst hentry
        exact .inr ⟨rfl, hvalue⟩
    · rw [Redis.setex_of_ne heq] at hentry
      exact h.entries v name' entry hentry

theorem incr (h : Generations E V n redis) (now : Int) :
    ((Redis.incr redis now (versionKey E)).1.isOk = true
      ∧ Generations E (fun _ _ => False) (n + 1) (Redis.incr redis now (versionKey E)).2)
    ∨ ((Redis.incr redis now (versionKey E)).1.isOk = false
      ∧ (Redis.incr redis now (versionKey E)).2 = redis) := by
  refine (h.counts.incr h.le now).imp_left ?_
  rintro ⟨hok, hcounts, hle⟩
  refine ⟨by rw [hok]; rfl, hle, hcounts, fun v name entry hentry => .inl ?_⟩
  rw [Redis.incr_of_ne (CustomerKey.ne ⟨name, rfl⟩)] at hentry
  rcases h.entries v name entry hentry with hlt | ⟨rfl, -⟩ <;> omega

end Generations

/-! ## The instance -/

/-- No command follows one that threw; and while the instance is enabled, none has thrown, the
instance remembers no generation but the current one, and the entries of that one decode to values
of `V`. -/
structure Sound (E : CustomerEnv) (V : Bytes → Cached → Prop) (c : CacheRedis) (w : Flaky) :
    Prop where
  commands : w.commands.Pairwise fun _ earlier => earlier.failed = false
  enabled : c.disabled = false → ∀ x ∈ w.commands, x.failed = false
  store : ∃ n, Generations E (fun name a => c.disabled = false → V name a) n w.db.redis
    ∧ ∀ v, c.disabled = false → c.versions.lookup cacheNamespace = some v → v = n

/-- The same customers and files. -/
def SameRecords (db db' : CustomerDb) : Prop :=
  db'.customer = db.customer ∧ db'.files = db.files

/-- A program returns on the Redis that fails. -/
abbrev Returns {α : Type} (E : CustomerEnv) (faults : ℕ → Fault) (i : Int) (p : CustomerProg α)
    (w : Flaky) (Q : α → Flaky → Prop) : Prop := Prog.Yields (E.flaky faults) i p w Q

section Instance

variable {V V' : Bytes → Cached → Prop} {c : CacheRedis} {w w' : Flaky} {n : ℕ}

theorem Sound.mono (h : Sound E V c w) (hV : ∀ name a, V name a → V' name a) :
    Sound E V' c w := by
  obtain ⟨n, hn, hv⟩ := h.store
  exact ⟨h.commands, h.enabled, n, hn.mono fun name a ha hd => hV name a (ha hd), hv⟩

/-- An instance that is disabled keeps to what Redis holds at all. -/
theorem Sound.of_disabled (hcommands : w.commands.Pairwise fun _ earlier => earlier.failed = false)
    (hn : Generations E V n w.db.redis) (hc : c.disabled = true) : Sound E V' c w :=
  ⟨hcommands, by simp [hc], n, hn.mono fun _ _ _ => by simp [hc], by simp [hc]⟩

theorem Sound.disabled (h : Sound E V c w) {c' : CacheRedis} (hc : c'.disabled = true) :
    Sound E V' c' w := by
  obtain ⟨n, hn, -⟩ := h.store
  exact .of_disabled h.commands hn hc

/-- One more command of an enabled instance. -/
theorem Sound.pairwise (h : Sound E V c w) (hc : c.disabled = false) (x : Command) :
    (x :: w.commands).Pairwise fun _ earlier => earlier.failed = false :=
  List.pairwise_cons.mpr ⟨h.enabled hc, h.commands⟩

/-- A command of an enabled instance, whose failure is caught: it is executed, or it throws, with or
without effect. -/
theorem returns_command {α : Type} {op : CustomerStmt} (hop : op.onRedis = true)
    {f : op.Res → α} {d : α} {Q : α → Flaky → Prop}
    (hok : ∀ a, (E.exec op i w.db).1 = .ok a →
      Q (f a) ⟨(E.exec op i w.db).2, ⟨op, false⟩ :: w.commands⟩)
    (hfail : ∀ db, db = w.db ∨ db = (E.exec op i w.db).2 → Q d ⟨db, ⟨op, true⟩ :: w.commands⟩) :
    Returns E faults i (Prog.tryCatch (do
      let r ← issue op
      pure (f r)) fun _ => pure d) w Q := by
  refine Prog.yields_tryCatch_stmt.mpr ?_
  unfold CustomerEnv.flaky
  simp only [hop, if_true]
  cases hfault : faults w.commands.length with
  | none =>
    simp only
    cases hreply : (E.exec op i w.db).1 with
    | ok a => exact hok a hreply
    | error e => exact hfail _ (.inr rfl)
  | before e => exact hfail _ (.inl rfl)
  | after e => exact hfail _ (.inr rfl)

/-- A command is issued by an enabled instance only; otherwise nothing happens but that an instance
that has no Redis is disabled. -/
theorem client_cases (c : CacheRedis) :
    (CacheRedis.client E c = (true, c) ∧ c.disabled = false)
    ∨ ∃ c', CacheRedis.client E c = (false, c') ∧ c'.disabled = true
      ∧ c'.versions = c.versions := by
  unfold CacheRedis.client
  split_ifs with hd hc
  · exact .inr ⟨c, rfl, hd, rfl⟩
  · exact .inl ⟨rfl, by simpa using hd⟩
  · exact .inr ⟨_, rfl, rfl, rfl⟩

theorem returns_get (h : Sound E V c w) (key : Bytes) :
    Returns E faults i (CacheRedis.get E c key) w fun r w' => Sound E V r.2 w' ∧ w'.db = w.db
      ∧ r.2.versions = c.versions ∧ (r.2.disabled = false → c.disabled = false)
      ∧ r.1 = if r.2.disabled then none else Redis.get w.db.redis i (redisKey E key) := by
  unfold CacheRedis.get
  rcases client_cases (E := E) c with ⟨hclient, hd⟩ | ⟨c', hclient, hd, hversions⟩
  · rw [hclient]
    refine returns_command rfl (fun value hvalue => ?_) fun db hdb => ?_
    · obtain rfl : Redis.get w.db.redis i (redisKey E key) = value := Except.ok.inj hvalue
      refine ⟨⟨h.pairwise hd _, fun _ => ?_, h.store⟩, rfl, rfl, fun _ => hd, by simp [hd]⟩
      simpa using h.enabled hd
    · obtain rfl : db = w.db := hdb.elim id id
      obtain ⟨n, hn, -⟩ := h.store
      exact ⟨.of_disabled (h.pairwise hd _) hn rfl, rfl, rfl, by simp [CacheRedis.fail], rfl⟩
  · rw [hclient]
    exact ⟨h.disabled hd, rfl, hversions, by simp [hd], by simp [hd]⟩

theorem returns_version (h : Sound E V c w) :
    Returns E faults i (CacheRedis.version E c cacheNamespace) w fun r w' => Sound E V r.2 w'
      ∧ w'.db = w.db ∧ (r.2.disabled = false → r.2.versions.lookup cacheNamespace = some r.1) := by
  unfold CacheRedis.version
  cases hlookup : c.versions.lookup cacheNamespace with
  | some v => exact ⟨h, rfl, fun _ => hlookup⟩
  | none =>
    refine Prog.yields_bind.mpr ((returns_get h _).mono ?_)
    rintro ⟨raw, c'⟩ w' ⟨hsound, hdb, -, -, hraw⟩
    have hremembered : List.lookup cacheNamespace
        ((cacheNamespace, CacheRedis.generation raw) :: c'.versions) =
        some (CacheRedis.generation raw) := by simp
    refine ⟨⟨hsound.commands, hsound.enabled, ?_⟩, hdb, fun _ => hremembered⟩
    obtain ⟨n, hn, -⟩ := hsound.store
    refine ⟨n, hn, fun v hd hv => ?_⟩
    obtain rfl : CacheRedis.generation raw = v := Option.some.inj (hremembered.symm.trans hv)
    have hd' : c'.disabled = false := hd
    simp only [hd', Bool.false_eq_true, if_false] at hraw
    rw [hraw, ← hdb]
    exact generation_of_counts hn.counts hn.le i

/-- A key of the generation that the instance remembers. -/
theorem returns_namespaced (h : Sound E V c w) (entity discriminator : Bytes) :
    Returns E faults i (CacheRedis.namespaced E c cacheNamespace entity discriminator) w
      fun r w' => Sound E V r.2 w' ∧ w'.db = w.db
        ∧ ∃ v, redisKey E r.1 = entryKey E v (entryName entity discriminator)
          ∧ (r.2.disabled = false → r.2.versions.lookup cacheNamespace = some v) := by
  unfold CacheRedis.namespaced
  refine Prog.yields_bind.mpr ((returns_version h).mono ?_)
  rintro ⟨v, c'⟩ w' ⟨hsound, hdb, hversion⟩
  exact ⟨hsound, hdb, v, redisKey_namespacedKey entity discriminator v, hversion⟩

/-- Under a key of the current generation the cache has values of `V` only. -/
theorem returns_getJson (h : Sound E V c w) {key name : Bytes} {v : ℕ}
    (hkey : redisKey E key = entryKey E v name)
    (hv : c.disabled = false → c.versions.lookup cacheNamespace = some v) :
    Returns E faults i (CacheRedis.getJson E c key) w fun r w' => Sound E V r.2 w' ∧ w'.db = w.db
      ∧ (r.2.disabled = false → r.2.versions.lookup cacheNamespace = some v)
      ∧ ∀ a, r.1 = some a → V name a := by
  unfold CacheRedis.getJson
  refine Prog.yields_bind.mpr ((returns_get h _).mono ?_)
  rintro ⟨raw, c'⟩ w' ⟨hsound, hdb, hversions, hd, hraw⟩
  refine ⟨hsound, hdb, fun hd' => hversions ▸ hv (hd hd'), fun a ha => ?_⟩
  obtain ⟨value, hvalue, hdecode⟩ := Option.bind_eq_some_iff.mp ha
  have hd' : c'.disabled = false := by
    by_contra hdisabled
    simp only [Bool.not_eq_false] at hdisabled
    simp [hvalue, hdisabled] at hraw
  simp only [hvalue, hd', Bool.false_eq_true, if_false] at hraw
  obtain ⟨entry, hentry, rfl⟩ := Redis.get_eq_some hraw.symm
  obtain ⟨n, hn, hcurrent⟩ := h.store
  obtain rfl := hcurrent v (hd hd') (hv (hd hd'))
  rw [hkey] at hentry
  obtain ⟨-, hall⟩ := (hn.entries v name entry hentry).resolve_left (lt_irrefl v)
  exact hall a hdecode (hd hd')

theorem returns_setJson {R : CustomerEntropy} (h : Sound E V c w) {key name : Bytes} {v : ℕ}
    (hkey : redisKey E key = entryKey E v name)
    (hv : c.disabled = false → c.versions.lookup cacheNamespace = some v) {value : Cached}
    (hvalue : ∀ raw, E.jsonEncode value = some raw → ∀ a, E.jsonDecode raw = some a → V name a)
    (expire : Int) :
    Returns E faults i (CacheRedis.setJson E R c key value expire) w fun r w' => Sound E V r.2 w'
      ∧ SameRecords w.db w'.db := by
  have hsame : SameRecords w.db w.db := ⟨rfl, rfl⟩
  unfold CacheRedis.setJson
  cases hraw : E.jsonEncode value with
  | none => exact ⟨h, hsame⟩
  | some raw =>
    simp only
    unfold CacheRedis.set
    split_ifs with hlimits
    · exact ⟨h, hsame⟩
    · rcases client_cases (E := E) c with ⟨hclient, hd⟩ | ⟨c', hclient, hd, -⟩
      · rw [hclient]
        obtain ⟨n, hn, hcurrent⟩ := h.store
        obtain rfl := hcurrent v hd (hv hd)
        have hstored := hn.setex (fun a ha _ => hvalue raw hraw a ha) i (CacheRedis.ttl R expire)
        rw [← hkey] at hstored
        refine returns_command rfl (fun a _ => ?_) fun db hdb => ?_
        · refine ⟨⟨h.pairwise hd _, fun _ => ?_, v, hstored, hcurrent⟩, rfl, rfl⟩
          simpa using h.enabled hd
        · rcases hdb with rfl | rfl
          · exact ⟨.of_disabled (h.pairwise hd _) hn rfl, hsame⟩
          · exact ⟨.of_disabled (h.pairwise hd _) hstored rfl, rfl, rfl⟩
      · rw [hclient]
        exact ⟨h.disabled hd, hsame⟩

/-- After a `bump` the instance has nothing to serve. -/
theorem returns_bump (h : Sound E V c w) :
    Returns E faults i (CacheRedis.bump E c cacheNamespace) w fun r w' =>
      Sound E (fun _ _ => False) r.2 w' ∧ SameRecords w.db w'.db := by
  unfold CacheRedis.bump
  rcases client_cases (E := E) c with ⟨hclient, hd⟩ | ⟨c', hclient, hd, -⟩
  · rw [hclient]
    obtain ⟨n, hn, -⟩ := h.store
    have hincr := hn.incr i
    refine returns_command rfl (fun a ha => ?_) fun db hdb => ?_
    · have hok : (Redis.incr w.db.redis i (versionKey E)).1.isOk = true := by
        have hreply : (Redis.incr w.db.redis i (versionKey E)).1 = .ok a := ha
        rw [hreply]
        rfl
      obtain ⟨-, hnext⟩ := hincr.resolve_right fun hor => by simp [hok] at hor
      refine ⟨⟨h.pairwise hd _, fun _ => ?_, n + 1, hnext.mono fun _ _ ha => ha.elim, ?_⟩, rfl, rfl⟩
      · simpa using h.enabled hd
      · intro v _ hv
        have hforgotten :
            (c.versions.filter (·.1 ≠ cacheNamespace)).lookup cacheNamespace = none := by
          rw [List.lookup_eq_none_iff]
          intro x hx
          have hne : x.1 ≠ cacheNamespace := of_decide_eq_true (List.mem_filter.mp hx).2
          simpa using hne.symm
        rw [hforgotten] at hv
        cases hv
    · rcases hdb with rfl | rfl
      · exact ⟨.of_disabled (h.pairwise hd _) hn rfl, rfl, rfl⟩
      · rcases hincr with ⟨-, hnext⟩ | ⟨-, hsame⟩
        · exact ⟨.of_disabled (h.pairwise hd _) hnext rfl, rfl, rfl⟩
        · have hkept : Generations E (fun name a => c.disabled = false → V name a) n
              (Redis.incr w.db.redis i (versionKey E)).2 := by
            rw [hsame]
            exact hn
          exact ⟨.of_disabled (h.pairwise hd _) hkept rfl, rfl, rfl⟩
  · rw [hclient]
    exact ⟨h.disabled hd, rfl, rfl⟩

/-! ## Operations -/

/-- The value itself, or what an entry with it decodes to. -/
def Delivered (E : CustomerEnv) (value a : Cached) : Prop :=
  a = value ∨ ∃ raw, E.jsonEncode value = some raw ∧ E.jsonDecode raw = some a

/-- `V`, and what the cache delivers under this name of this outcome. -/
def Adding (E : CustomerEnv) (V : Bytes → Cached → Prop) (name : Bytes)
    (computed : Except Failure Cached) (name' : Bytes) (a : Cached) : Prop :=
  V name' a ∨ name' = name ∧ ∃ value, computed = .ok value ∧ Delivered E value a

/-- A list returns what it computes or what the cache has, and adds what it computes. -/
theorem returns_cachedOn {R : CustomerEntropy} (h : Sound E V c w)
    {producer : CustomerProg Cached}
    (hreads : Prog.Only (fun op => op.reads = true) (fun _ => True) producer)
    (entity discriminator : Bytes) :
    Returns E faults i (CustomerService.cachedOn E R c entity discriminator producer) w
      fun r w' =>
        let computed := (producer.run E.exec i w.db).1
        let name := entryName entity discriminator
        Sound E (Adding E V name computed) r.2 w' ∧ SameRecords w.db w'.db
          ∧ (r.1 = computed ∨ ∃ a, r.1 = .ok a ∧ V name a) := by
  unfold CustomerService.cachedOn
  refine Prog.yields_bind.mpr ((returns_namespaced h _ _).mono ?_)
  rintro ⟨key, c₁⟩ w₁ ⟨hsound₁, hdb₁, v, hkey, hv⟩
  unfold CacheRedis.rememberOn
  refine Prog.yields_bind.mpr ((returns_getJson hsound₁ hkey hv).mono ?_)
  rintro ⟨cached, c₂⟩ w₂ ⟨hsound₂, hdb₂, hv₂, hcached⟩
  cases cached with
  | some a =>
    have hsame : SameRecords w.db w₂.db := by
      rw [hdb₂, hdb₁]
      exact ⟨rfl, rfl⟩
    exact ⟨hsound₂.mono fun _ _ ha => .inl ha, hsame, .inr ⟨a, rfl, hcached a rfl⟩⟩
  | none =>
    refine Prog.yields_bind.mpr (Prog.yields_capture.mpr ?_)
    rw [run_flaky (offRedis_of_reads hreads), db_run_of_reads hreads, hdb₂, hdb₁]
    have hw : ({ w₂ with db := w.db } : Flaky) = w₂ := by rw [← hdb₁, ← hdb₂]
    rw [hw]
    have hsame : SameRecords w.db w₂.db := by
      rw [hdb₂, hdb₁]
      exact ⟨rfl, rfl⟩
    cases hcomputed : (producer.run E.exec i w.db).1 with
    | error e => exact ⟨hsound₂.mono fun _ _ ha => .inl ha, hsame, .inl rfl⟩
    | ok value =>
      have hadds : ∀ name a, V name a →
          Adding E V (entryName entity discriminator) (.ok value) name a := fun _ _ ha => .inl ha
      refine Prog.yields_bind.mpr ((returns_setJson (hsound₂.mono hadds) hkey hv₂
        (fun raw hraw a ha => .inr ⟨rfl, value, rfl, .inr ⟨raw, hraw, ha⟩⟩) _).mono ?_)
      rintro ⟨stored, c₃⟩ w₃ ⟨hsound₃, hcustomer, hfiles⟩
      exact ⟨hsound₃, ⟨hcustomer.trans hsame.1, hfiles.trans hsame.2⟩, .inl rfl⟩

/-- A write comes to what it comes to without a cache, and where it gets to its `bump`, the cache
has nothing to serve. -/
theorem returns_writeOn {α β : Type} (h : Sound E V c w) {before : CustomerProg α}
    {after : α → CustomerProg β}
    (hbefore : Prog.Only CustomerStmt.OffRedis (fun _ => True) before)
    (hafter : ∀ a, Prog.Only CustomerStmt.OffRedis (fun _ => True) (after a)) :
    Returns E faults i (CustomerService.writeOn E c before after) w fun r w' =>
      let alone := (before >>= after).run E.exec i w.db
      r.1 = alone.1 ∧ SameRecords alone.2 w'.db ∧ Sound E V r.2 w'
        ∧ (∀ a, (before.run E.exec i w.db).1 = .ok a → Sound E (fun _ _ => False) r.2 w') := by
  unfold CustomerService.writeOn
  refine Prog.yields_bind.mpr (Prog.yields_capture.mpr ?_)
  rw [run_flaky hbefore, Prog.run_bind]
  have hredis := @redis_run E i _ before w.db hbefore
  rcases hrun : before.run E.exec i w.db with ⟨outcome, db⟩
  rw [hrun] at hredis
  have hsound : Sound E V c { w with db } := by
    obtain ⟨n, hn, hcurrent⟩ := h.store
    have hredis' : db.redis = w.db.redis := hredis
    exact ⟨h.commands, h.enabled, n, by rw [hredis']; exact hn, hcurrent⟩
  cases outcome with
  | error e => exact ⟨rfl, ⟨rfl, rfl⟩, hsound, by simp⟩
  | ok a =>
    refine Prog.yields_bind.mpr ((returns_bump hsound).mono ?_)
    rintro ⟨bumped, c'⟩ w' ⟨hnone, hcustomer, hfiles⟩
    refine Prog.yields_bind.mpr (Prog.yields_capture.mpr ?_)
    -- The rest runs as it would where the `bump` had not been.
    have hw' : w'.db = { db with redis := w'.db.redis } := by
      cases hdb : w'.db
      rw [hdb] at hcustomer hfiles
      simp only [CustomerDb.mk.injEq]
      exact ⟨hcustomer, trivial, hfiles⟩
    have hrest := @run_withRedis E i _ (after a) db (hafter a) w'.db.redis
    rw [run_flaky (hafter a), hw', hrest]
    have hfinal : Sound E (fun _ _ => False) c' { w' with
        db := { ((after a).run E.exec i db).2 with redis := w'.db.redis } } :=
      ⟨hnone.commands, hnone.enabled, hnone.store⟩
    exact ⟨rfl, ⟨rfl, rfl⟩, hfinal.mono fun _ _ hf => hf.elim, fun _ _ => hfinal⟩

end Instance

end SlimStarter
