import SlimStarter.Lib.Trace
import SlimStarter.Customer.Import

/-!
# Phases of a customer call

Customer calls run in a pool: any number of requests and import jobs, interleaved at single
statements, any of which may fail or be the last one its call executes. `customerMonitor` names the
phases of a call with respect to the cache. A reader reads the generation, then only keys of that
generation; a writer is `dirty` from its write to the table until its `INCR`; an import writes and
never touches the cache.

`safe_start` says that every call of the program keeps these phases.
-/

namespace SlimStarter

open CustomerService (cacheNamespace)
open CacheRedis (OfGeneration generation configured)

abbrev CustomerPool : Type :=
  Pool (CustomerCall × CustomerEntropy) CustomerDb CustomerStmt CustomerStmt.Res Int Failure
    CustomerResult

abbrev CustomerProc : Type :=
  Proc (CustomerCall × CustomerEntropy) CustomerStmt CustomerStmt.Res Int Failure CustomerResult

abbrev CustomerAct : Type := Act (CustomerCall × CustomerEntropy) Int Failure

abbrev CustomerEvent : Type := Event CustomerStmt CustomerStmt.Res Failure

/-- The program of a call, as the pool starts it. -/
def CustomerPool.start (E : CustomerEnv) (c : CustomerCall × CustomerEntropy) :
    CustomerProg CustomerResult := c.1.prog E c.2

/-- Nothing has been called. -/
def CustomerPool.idle (db : CustomerDb) (now : Int) : CustomerPool := ⟨db, now, [], []⟩

/-- No call is in progress. -/
def CustomerPool.AtRest (s : CustomerPool) : Prop := ∀ p ∈ s.procs, p.rest.ended = true

instance (s : CustomerPool) : Decidable s.AtRest := by
  unfold CustomerPool.AtRest
  infer_instance

namespace CustomerStmt

/-- The statement reads the customer table. -/
def reads : CustomerStmt → Bool
  | get .. | countGet .. | countCreatedSince _ | findById _ | «exists» _ | existsByName ..
  | existsByEmail .. => true
  | _ => false

/-- The statement changes the customer table. -/
def writes : CustomerStmt → Bool
  | create _ | createMany _ | update .. | deleteById _ => true
  | _ => false

def onRedis : CustomerStmt → Bool
  | redisGet _ | redisSetex .. | redisIncr _ | redisDel _ => true
  | _ => false

/-- The statement is `is_file` or `@unlink`, which return false where they fail. -/
def neverThrows : CustomerStmt → Bool
  | isFile _ | unlink _ => true
  | _ => false

end CustomerStmt

variable (E : CustomerEnv)

/-- The Redis key of the generation of the customers. -/
def versionKey : Bytes := CacheRedis.versionKey E cacheNamespace

namespace CustomerEvent

/-- A read of the generation, and what it read. -/
def readVersion : CustomerEvent → Option ℕ
  | ⟨_, _, .redisGet key, .ok raw⟩ => if key = versionKey E then some (generation raw) else none
  | _ => none

/-- An increment of the generation, and its result. -/
def bumped : CustomerEvent → Option Int
  | ⟨_, _, .redisIncr key, .ok n⟩ => if key = versionKey E then some n else none
  | _ => none

/-- A write of a cache entry, with its key and value. -/
def stored : CustomerEvent → Option (Bytes × Bytes)
  | ⟨_, _, .redisSetex key _ value, .ok ()⟩ => some (key, value)
  | _ => none

/-- A read of a cache entry, with its key and value. -/
def hit : CustomerEvent → Option (Bytes × Bytes)
  | ⟨_, _, .redisGet key, .ok (some value)⟩ => some (key, value)
  | _ => none

/-- A committed change of the customer table. -/
def wrote (e : CustomerEvent) : Bool := e.op.writes && e.reply.isOk

end CustomerEvent

inductive CustomerPhase where
  | ready
  | keyed (v : ℕ)
  | bare
  | clean
  | dirty
  | bumped
  | lost
  | importing
deriving DecidableEq, Repr

def CustomerPhase.next :
    CustomerPhase → (op : CustomerStmt) → Except Failure op.Res → CustomerPhase
  | ready, .redisGet _, .ok raw => keyed (generation raw)
  | ready, _, _ => bare
  | clean, op, .ok _ => if op.writes then dirty else clean
  | dirty, .redisIncr _, .ok _ => bumped
  | dirty, _, .error _ => lost
  | φ, _, _ => φ

def CustomerPhase.allowed : CustomerPhase → CustomerStmt → Prop
  | ready, op => op = .redisGet (versionKey E)
  | keyed v, op => op.reads = true ∨ ∃ key, OfGeneration E cacheNamespace v key
      ∧ (op = .redisGet key ∨ ∃ ttl value, op = .redisSetex key ttl value)
  | bare, op => op.reads = true ∨ ∃ key, op = .redisDel key ∧ key ≠ versionKey E
  | dirty, op => op = .redisIncr (versionKey E) ∨ op.neverThrows = true
  | bumped, op => op.onRedis = false ∧ op.writes = false
  | _, op => op.onRedis = false

def customerMonitor : Monitor CustomerStmt CustomerStmt.Res Failure CustomerPhase where
  next := CustomerPhase.next
  allowed := CustomerPhase.allowed E

/-- The phase a call starts in. Without Redis there is no generation to read or to increment. -/
def CustomerCall.phase : CustomerCall → CustomerPhase
  | list .. | stats => if configured E then .ready else .bare
  | evict _ => .bare
  | importJob .. => .importing
  | _ => if configured E then .clean else .lost

variable {E}

section Allowed

variable {φ : CustomerPhase} {key value : Bytes} {ttl : Int} {op : CustomerStmt}

theorem allowed_redisGet (h : φ.allowed E (.redisGet key)) :
    (φ = .ready ∧ key = versionKey E)
      ∨ ∃ v, φ = .keyed v ∧ OfGeneration E cacheNamespace v key := by
  cases φ <;> simp_all [CustomerPhase.allowed, CustomerStmt.onRedis, CustomerStmt.reads,
    CustomerStmt.neverThrows]

theorem allowed_redisSetex (h : φ.allowed E (.redisSetex key ttl value)) :
    ∃ v, φ = .keyed v ∧ OfGeneration E cacheNamespace v key := by
  cases φ <;> simp_all [CustomerPhase.allowed, CustomerStmt.onRedis, CustomerStmt.reads,
    CustomerStmt.neverThrows]

theorem allowed_redisIncr (h : φ.allowed E (.redisIncr key)) : φ = .dirty ∧ key = versionKey E := by
  cases φ <;> simp_all [CustomerPhase.allowed, CustomerStmt.onRedis, CustomerStmt.reads,
    CustomerStmt.neverThrows]

theorem allowed_redisDel (h : φ.allowed E (.redisDel key)) : key ≠ versionKey E := by
  cases φ <;> simp_all [CustomerPhase.allowed, CustomerStmt.onRedis, CustomerStmt.reads,
    CustomerStmt.neverThrows]

theorem allowed_writes (hw : op.writes = true) (h : φ.allowed E op) :
    φ = .clean ∨ φ = .lost ∨ φ = .importing := by
  cases op <;> simp [CustomerStmt.writes] at hw <;> cases φ <;>
    simp_all [CustomerPhase.allowed, CustomerStmt.reads, CustomerStmt.writes,
      CustomerStmt.neverThrows]

end Allowed

/-! ## Reading through the cache -/

/-- A program that issues the allowed statements of a phase that no statement leaves. -/
theorem safe_of_only {α : Type} {φ : CustomerPhase} {p : CustomerProg α} (hφ : φ ≠ .dirty)
    (hnext : ∀ op r, φ.next op r = φ) (h : Prog.Only (φ.allowed E) (fun _ => True) p) :
    (customerMonitor E).Safe (· ≠ .dirty) φ p :=
  (Monitor.Keeps.of_only (m := customerMonitor E) (fun op r _ => hnext op r) (fun _ => id) h).mono
    (fun _ _ h => h.1 ▸ hφ) fun _ _ h => h ▸ hφ

section Readers

variable {P : CustomerStmt → Prop} {c : CacheRedis} {key : Bytes} {R : CustomerEntropy}

theorem client_of_disabled (h : c.disabled = true) : CacheRedis.client E c = (false, c) := by
  simp [CacheRedis.client, h]

theorem only_get (hP : c.disabled = false → P (.redisGet (CacheRedis.redisKey E key))) :
    Prog.Only P (fun r => r.2.disabled = false → c.disabled = false) (CacheRedis.get E c key) := by
  unfold CacheRedis.get CacheRedis.client
  split_ifs with hd hc
  · simp [hd]
  · refine Prog.Only.tryCatch ?_ fun e => ?_
    · simp [hP (by simpa using hd)]
    · simp [CacheRedis.fail]
  · simp

theorem only_set {value : Bytes} {expire : Int}
    (hP : c.disabled = false → ∀ ttl, P (.redisSetex (CacheRedis.redisKey E key) ttl value)) :
    Prog.Only P (fun _ => True) (CacheRedis.set E R c key value expire) := by
  unfold CacheRedis.set CacheRedis.client
  split_ifs with hv hd hc
  · simp
  · simp
  · refine Prog.Only.tryCatch ?_ fun e => ?_
    · simp [hP (by simpa using hd)]
    · simp
  · simp

theorem only_rememberJson {ttl : Int} {producer : CustomerProg Cached}
    (hget : c.disabled = false → P (.redisGet (CacheRedis.redisKey E key)))
    (hset : c.disabled = false → ∀ ttl value,
      P (.redisSetex (CacheRedis.redisKey E key) ttl value))
    (hp : Prog.Only P (fun _ => True) producer) :
    Prog.Only P (fun _ => True) (CacheRedis.rememberJson E R c key ttl producer) := by
  unfold CacheRedis.rememberJson CacheRedis.getJson
  rw [Prog.only_bind, Prog.only_bind]
  refine (only_get hget).mono ?_
  rintro ⟨raw, c'⟩ hc'
  simp only [Prog.pure_eq, Prog.only_ret]
  split
  · trivial
  · refine Prog.only_bind.mpr (hp.mono fun value _ => Prog.only_bind.mpr ?_)
    unfold CacheRedis.setJson
    split
    · trivial
    · exact (only_set fun hd => fun ttl => hset (hc' hd) ttl _).mono fun _ _ => trivial

end Readers

theorem only_statusCounts (l : List Bytes) :
    Prog.Only (fun op => op.reads = true) (fun _ => True) (CustomerService.statusCounts l) := by
  induction l with
  | nil => trivial
  | cons status l ih =>
    simp only [CustomerService.statusCounts, Prog.stmt_bind, Prog.only_call_resume]
    exact ⟨rfl, fun _ => Prog.only_bind.mpr (ih.mono fun _ _ => trivial)⟩

theorem only_loadList (keywords : Bytes) (status : Option Bytes) (page limit : Int) :
    Prog.Only (fun op => op.reads = true) (fun _ => True)
      (CustomerService.loadList E keywords status page limit) := by
  refine Prog.only_bind.mpr (Prog.only_stmt.mpr ⟨rfl, fun totalData => ?_⟩)
  split_ifs
  · trivial
  · simp [CustomerStmt.reads]

theorem only_loadStats :
    Prog.Only (fun op => op.reads = true) (fun _ => True) (CustomerService.loadStats E) := by
  unfold CustomerService.loadStats
  refine Prog.only_bind.mpr ((only_statusCounts _).mono fun _ _ => ?_)
  simp [CustomerStmt.reads]

/-- What `list` and `stats` do first: read the generation, unless there is no Redis. -/
theorem namespaced_fresh (entity discriminator : Bytes) :
    CacheRedis.namespaced E CacheRedis.fresh cacheNamespace entity discriminator =
      let key := CacheRedis.namespacedKey cacheNamespace entity discriminator
      if configured E then .call (.redisGet (versionKey E)) fun
        | .ok raw => .ret (key (generation raw), ⟨false, [(cacheNamespace, generation raw)]⟩)
        | .error _ => .ret (key 0, ⟨true, [(cacheNamespace, 0)]⟩)
      else .ret (key 0, ⟨true, [(cacheNamespace, 0)]⟩) := by
  unfold CacheRedis.namespaced CacheRedis.version CacheRedis.get CacheRedis.client
  simp only [CacheRedis.fresh, List.lookup_nil, Bool.false_eq_true, if_false]
  split_ifs with hc
  · refine congrArg (Prog.call _) (funext fun r => ?_)
    cases r <;> rfl
  · rfl

/-- What `list` and `stats` have in common: a look-up of a key of the generation that the instance
reads, and a producer that reads the table. -/
theorem safe_cached {R : CustomerEntropy} {entity discriminator : Bytes} {ttl : Int}
    {producer : CustomerProg Cached}
    (h : Prog.Only (fun op => op.reads = true) (fun _ => True) producer) :
    (customerMonitor E).Safe (· ≠ .dirty) (if configured E then .ready else .bare) (do
      let (cacheKey, cache) ← CacheRedis.namespaced E CacheRedis.fresh cacheNamespace entity
        discriminator
      let (result, _) ← CacheRedis.rememberJson E R cache cacheKey ttl producer
      pure result) := by
  have hbare : ∀ (c : CacheRedis) (key : Bytes), c.disabled = true →
      (customerMonitor E).Safe (· ≠ .dirty) .bare (do
        let (result, _) ← CacheRedis.rememberJson E R c key ttl producer
        pure result) := by
    intro c key hc
    refine safe_of_only (by simp) (fun _ _ => rfl) (Prog.only_bind.mpr ?_)
    refine (only_rememberJson ?_ ?_ (h.imp fun _ => .inl)).mono fun _ _ => trivial
    · simp [hc]
    · simp [hc]
  have hkeyed : ∀ (c : CacheRedis) (key : Bytes) (v : ℕ),
      OfGeneration E cacheNamespace v (CacheRedis.redisKey E key) →
      (customerMonitor E).Safe (· ≠ .dirty) (.keyed v) (do
        let (result, _) ← CacheRedis.rememberJson E R c key ttl producer
        pure result) := by
    intro c key v hkey
    refine safe_of_only (by simp) (fun _ _ => rfl) (Prog.only_bind.mpr ?_)
    refine (only_rememberJson ?_ ?_ (h.imp fun _ => .inl)).mono fun _ _ => trivial
    · exact fun _ => .inr ⟨_, hkey, .inl rfl⟩
    · exact fun _ ttl value => .inr ⟨_, hkey, .inr ⟨ttl, value, rfl⟩⟩
  rw [namespaced_fresh]
  split_ifs with hc
  · refine ⟨rfl, fun r => ?_⟩
    rcases r with e | raw
    · exact hbare _ _ rfl
    · exact hkeyed _ _ _ (CacheRedis.namespacedKey_ofGeneration E _ _ _ _)
  · exact hbare _ _ rfl

/-- What a call computes its result from where the cache has no answer. -/
def CustomerCall.producer (E : CustomerEnv) : CustomerCall → Option (CustomerProg Cached)
  | list keywords status page limit => some (CustomerService.loadList E keywords status page limit)
  | stats => some (CustomerService.loadStats E)
  | _ => none

/-- From these replies to its reads of the table the call computes `c`. -/
def Computes (E : CustomerEnv) (call : CustomerCall)
    (reads : List (Reply CustomerStmt CustomerStmt.Res Failure)) (c : Cached) : Prop :=
  ∃ producer ∈ call.producer E, Prog.Reaches producer reads (.ret c)

section Cached

variable {R : CustomerEntropy} {entity discriminator : Bytes} {ttl : Int}
variable {producer : CustomerProg Cached}
variable {rs : List (Reply CustomerStmt CustomerStmt.Res Failure)}

theorem filter_reads_eq_nil (h : ∀ r ∈ rs, r.op.onRedis = true) :
    rs.filter (·.op.reads) = [] := by
  refine List.filter_eq_nil_iff.mpr fun r hr => ?_
  have hredis := h r hr
  cases hop : r.op <;> simp_all [CustomerStmt.onRedis, CustomerStmt.reads]

theorem filter_reads_eq_self (h : ∀ r ∈ rs, r.op.reads = true) : rs.filter (·.op.reads) = rs :=
  List.filter_eq_self.mpr h

/-- The value of an entry is the encoding of what the producer computes from its reads. -/
theorem rememberJson_setex {c : CacheRedis} {key key' value : Bytes} {ttl' : Int} {k}
    (h : Prog.Only (fun op => op.reads = true) (fun _ => True) producer)
    (hr : Prog.Reaches (CacheRedis.rememberJson E R c key ttl producer) rs
      (.call (.redisSetex key' ttl' value) k)) :
    ∃ a, E.jsonEncode a = some value ∧ Prog.Reaches producer (rs.filter (·.op.reads)) (.ret a) := by
  have hget : Prog.Only (fun op => ∃ key, op = .redisGet key) (fun _ => True)
      (CacheRedis.get E c key) := (only_get fun _ => ⟨_, rfl⟩).mono fun _ _ => trivial
  unfold CacheRedis.rememberJson CacheRedis.getJson at hr
  rw [bind_assoc] at hr
  rcases hr.bind_call with ⟨k', hr⟩ | ⟨⟨raw, c'⟩, rs₁, rs₂, rfl, hr₁, hr₂⟩
  · obtain ⟨key, hkey⟩ := (hget.reaches hr).2.1
    simp at hkey
  · have hrs₁ : rs₁.filter (·.op.reads) = [] := by
      refine filter_reads_eq_nil fun r hr => ?_
      obtain ⟨key, hkey⟩ := (hget.reaches hr₁).1 r hr
      rw [hkey]
      rfl
    rw [List.filter_append, hrs₁, List.nil_append]
    simp only [Prog.pure_eq, Prog.ret_bind] at hr₂
    split at hr₂
    · cases hr₂
    · rcases hr₂.bind_call with ⟨k', hr₂⟩ | ⟨a, rs₂, rs₃, rfl, hr₂, hr₃⟩
      · have hreads := (h.reaches hr₂).2.1
        simp [CustomerStmt.reads] at hreads
      · rcases hr₃.bind_call with ⟨k', hr₃⟩ | ⟨_, rs₃, rs₄, rfl, hr₃, hr₄⟩
        · unfold CacheRedis.setJson at hr₃
          cases hraw : E.jsonEncode a with
          | none =>
            rw [hraw] at hr₃
            cases hr₃
          | some raw =>
            rw [hraw] at hr₃
            have hset : Prog.Only (fun op => ∃ key ttl, op = .redisSetex key ttl raw)
                (fun _ => True) (CacheRedis.set E R c' key raw ttl) :=
              only_set fun _ ttl => ⟨_, ttl, rfl⟩
            obtain ⟨hrs₃, ⟨key'', ttl'', hop⟩, -⟩ := hset.reaches hr₃
            have hvalue : value = raw := by simpa using (CustomerStmt.redisSetex.inj hop).2.2
            have hnil : rs₃.filter (·.op.reads) = [] := by
              refine filter_reads_eq_nil fun r hr => ?_
              obtain ⟨key, ttl, hkey⟩ := hrs₃ r hr
              rw [hkey]
              rfl
            refine ⟨a, by rw [hraw, hvalue], ?_⟩
            rw [List.filter_append, hnil, List.append_nil,
              filter_reads_eq_self (h.reaches hr₂).1]
            exact hr₂
        · cases hr₄

theorem reaches_get {c c' : CacheRedis} {key raw : Bytes}
    (hr : Prog.Reaches (CacheRedis.get E c key) rs (.ret (some raw, c'))) :
    ⟨.redisGet (CacheRedis.redisKey E key), .ok (some raw)⟩ ∈ rs := by
  have hget : CacheRedis.get E c key =
      if c.disabled then .ret (none, c)
      else if configured E then .call (.redisGet (CacheRedis.redisKey E key)) fun
        | .ok value => .ret (value, c)
        | .error _ => .ret (none, c.fail)
      else .ret (none, { c with disabled := true }) := by
    unfold CacheRedis.get CacheRedis.client
    split_ifs
    · rfl
    · refine congrArg (Prog.call _) (funext fun r => ?_)
      cases r <;> rfl
    · rfl
  rw [hget] at hr
  split_ifs at hr
  · cases hr
  · cases hr with
    | @call _ _ reply _ _ hr =>
      rcases reply with e | value
      · cases hr
      · cases hr
        exact List.mem_cons_self
  · cases hr

/-- A result is what an entry decodes to, or what the producer computes from its reads. -/
theorem rememberJson_ret {c c' : CacheRedis} {key : Bytes} {a : Cached}
    (h : Prog.Only (fun op => op.reads = true) (fun _ => True) producer)
    (hr : Prog.Reaches (CacheRedis.rememberJson E R c key ttl producer) rs (.ret (a, c'))) :
    Prog.Reaches producer (rs.filter (·.op.reads)) (.ret a)
      ∨ ∃ raw, ⟨.redisGet (CacheRedis.redisKey E key), .ok (some raw)⟩ ∈ rs
        ∧ E.jsonDecode raw = some a := by
  have hget : Prog.Only (fun op => op.onRedis = true) (fun _ => True) (CacheRedis.get E c key) :=
    (only_get (P := fun op => op.onRedis = true) fun _ => rfl).mono fun _ _ => trivial
  unfold CacheRedis.rememberJson CacheRedis.getJson at hr
  rw [bind_assoc] at hr
  obtain ⟨⟨raw, c₁⟩, rs₁, rs₂, rfl, hr₁, hr₂⟩ := hr.bind_ret
  simp only [Prog.pure_eq, Prog.ret_bind] at hr₂
  rw [List.filter_append, filter_reads_eq_nil (hget.reaches hr₁).1, List.nil_append]
  split at hr₂
  · rename_i cached hcached
    obtain ⟨raw, rfl, hdecode⟩ := Option.bind_eq_some_iff.mp hcached
    cases hr₂
    exact .inr ⟨raw, List.mem_append_left _ (reaches_get hr₁), hdecode⟩
  · obtain ⟨value, rs₃, rs₄, rfl, hr₃, hr₄⟩ := hr₂.bind_ret
    obtain ⟨⟨ok, c₂⟩, rs₅, rs₆, rfl, hr₅, hr₆⟩ := hr₄.bind_ret
    cases hr₆
    have hset : Prog.Only (fun op => op.onRedis = true) (fun _ => True)
        (CacheRedis.setJson E R c₁ key a ttl) := by
      unfold CacheRedis.setJson
      split
      · trivial
      · exact only_set (P := fun op => op.onRedis = true) fun _ _ => rfl
    rw [List.append_nil, List.filter_append, filter_reads_eq_nil (hset.reaches hr₅).1,
      List.append_nil, filter_reads_eq_self (h.reaches hr₃).1]
    exact .inl hr₃

theorem only_namespaced (entity discriminator : Bytes) :
    Prog.Only (fun op => op = .redisGet (versionKey E))
      (fun r => CacheRedis.redisKey E r.1 ≠ versionKey E)
      (CacheRedis.namespaced E CacheRedis.fresh cacheNamespace entity discriminator) := by
  have hkey : ∀ v, CacheRedis.redisKey E (CacheRedis.namespacedKey cacheNamespace entity
      discriminator v) ≠ versionKey E := fun v =>
    (CacheRedis.namespacedKey_ofGeneration E cacheNamespace entity discriminator v).ne_versionKey
  rw [namespaced_fresh]
  simp only
  split_ifs
  · refine ⟨rfl, fun r => ?_⟩
    cases r <;> exact hkey _
  · exact hkey 0

theorem only_cached {P : CustomerStmt → Prop} {entity discriminator : Bytes} {ttl : Int}
    {R : CustomerEntropy} {producer : CustomerProg Cached}
    (hredis : ∀ op, op.onRedis = true → P op) (hp : Prog.Only P (fun _ => True) producer) :
    Prog.Only P (fun _ => True) (do
      let (cacheKey, cache) ← CacheRedis.namespaced E CacheRedis.fresh cacheNamespace entity
        discriminator
      let (result, _) ← CacheRedis.rememberJson E R cache cacheKey ttl producer
      pure result) := by
  have hns : Prog.Only P _ _ := (only_namespaced (E := E) entity discriminator).imp fun op hop =>
    hredis op (by rw [hop]; rfl)
  refine Prog.only_bind.mpr (hns.mono fun r _ => Prog.only_bind.mpr ?_)
  exact (only_rememberJson (fun _ => hredis _ rfl) (fun _ _ _ => hredis _ rfl) hp).mono
    fun _ _ => trivial

/-- What `list` and `stats` store and return, from the reads of the table they did. -/
theorem cached_reaches
    (h : Prog.Only (fun op => op.reads = true) (fun _ => True) producer) :
    (∀ rs key value ttl' k, Prog.Reaches (do
      let (cacheKey, cache) ← CacheRedis.namespaced E CacheRedis.fresh cacheNamespace entity
        discriminator
      let (result, _) ← CacheRedis.rememberJson E R cache cacheKey ttl producer
      pure result) rs (.call (.redisSetex key ttl' value) k) →
      ∃ a, E.jsonEncode a = some value ∧ Prog.Reaches producer (rs.filter (·.op.reads)) (.ret a))
    ∧ ∀ rs a, Prog.Reaches (do
      let (cacheKey, cache) ← CacheRedis.namespaced E CacheRedis.fresh cacheNamespace entity
        discriminator
      let (result, _) ← CacheRedis.rememberJson E R cache cacheKey ttl producer
      pure result) rs (.ret a) →
      Prog.Reaches producer (rs.filter (·.op.reads)) (.ret a)
        ∨ ∃ key raw, key ≠ versionKey E ∧ ⟨.redisGet key, .ok (some raw)⟩ ∈ rs
          ∧ E.jsonDecode raw = some a := by
  have hns := only_namespaced (E := E) entity discriminator
  have hredis : ∀ {rs₁ q}, Prog.Reaches (CacheRedis.namespaced E CacheRedis.fresh cacheNamespace
      entity discriminator) rs₁ q → rs₁.filter (·.op.reads) = [] := by
    intro rs₁ q hr
    refine filter_reads_eq_nil fun r hmem => ?_
    rw [(hns.reaches hr).1 r hmem]
    rfl
  constructor
  · intro rs key value ttl' k hr
    rcases hr.bind_call with ⟨k', hr⟩ | ⟨⟨cacheKey, cache⟩, rs₁, rs₂, rfl, hr₁, hr₂⟩
    · exact absurd (hns.reaches hr).2.1 (by simp)
    · rw [List.filter_append, hredis hr₁, List.nil_append]
      rcases hr₂.bind_call with ⟨k', hr₂⟩ | ⟨_, rs₂, rs₃, rfl, hr₂, hr₃⟩
      · exact rememberJson_setex h hr₂
      · cases hr₃
  · intro rs a hr
    obtain ⟨⟨cacheKey, cache⟩, rs₁, rs₂, rfl, hr₁, hr₂⟩ := hr.bind_ret
    obtain ⟨⟨result, cache'⟩, rs₂, rs₃, rfl, hr₂, hr₃⟩ := hr₂.bind_ret
    cases hr₃
    rw [List.filter_append, hredis hr₁, List.nil_append, List.append_nil]
    rcases rememberJson_ret h hr₂ with hr₂ | ⟨raw, hmem, hdecode⟩
    · exact .inl hr₂
    · exact .inr ⟨_, raw, (hns.reaches hr₁).2, by simp [hmem], hdecode⟩

end Cached

/-! ## Writing -/

/-- What `bump` does: one increment, unless there is no Redis. -/
theorem bump_eq : CustomerService.bump E =
    if configured E then .call (.redisIncr (versionKey E)) fun _ => .ret () else .ret () := by
  unfold CustomerService.bump CacheRedis.bump CacheRedis.client
  simp only [CacheRedis.fresh, Bool.false_eq_true, if_false]
  split_ifs with hc
  · refine congrArg (Prog.call _) (funext fun r => ?_)
    cases r <;> rfl
  · rfl

/-- The statement touches neither Redis nor the rows of the table. -/
def CustomerStmt.Plain (op : CustomerStmt) : Prop := op.onRedis = false ∧ op.writes = false

theorem customer_exec {op : CustomerStmt} (h : op.writes = false) (i : Int) (db : CustomerDb) :
    (E.exec op i db).2.customer = db.customer := by
  cases op <;> first | rfl | cases h

/-- Before its write and after its increment a writer issues plain statements. -/
theorem keeps_plain {α : Type} {φ : CustomerPhase} {A : α → Prop} {p : CustomerProg α}
    (hφ : φ = .clean ∨ φ = .lost ∨ φ = .bumped) (h : Prog.Only CustomerStmt.Plain A p) :
    (customerMonitor E).Keeps (fun ψ a => ψ = φ ∧ A a) (fun ψ _ => ψ = φ) φ p := by
  refine Monitor.Keeps.of_only (fun op r hop => ?_) (fun op hop => ?_) h
  · rcases hφ with rfl | rfl | rfl
    · cases r <;> simp [customerMonitor, CustomerPhase.next, hop.2]
    · rfl
    · rfl
  · rcases hφ with rfl | rfl | rfl
    · exact hop.1
    · exact hop.1
    · exact hop

theorem keeps_dropAvatar (path : Option Bytes) :
    (customerMonitor E).Keeps (fun ψ _ => ψ = .dirty) (fun ψ _ => ψ = .lost) .dirty
      (CustomerService.dropAvatar E path) := by
  unfold CustomerService.dropAvatar UploadHelper.deleteUploadedFile
  split
  · rfl
  · split_ifs
    · rfl
    · split
      · rfl
      · refine Monitor.keeps_bind.mpr (Monitor.keeps_bind.mpr (Monitor.keeps_stmt.mpr
          ⟨.inr rfl, fun _ => rfl, fun isFile => ?_⟩))
        cases isFile
        · rfl
        · exact Monitor.keeps_stmt.mpr ⟨.inr rfl, fun _ => rfl, fun _ => rfl⟩

theorem only_dropAvatar (path : Option Bytes) :
    Prog.Only CustomerStmt.Plain (fun _ => True) (CustomerService.dropAvatar E path) := by
  unfold CustomerService.dropAvatar UploadHelper.deleteUploadedFile
  split
  · trivial
  · split_ifs
    · trivial
    · split
      · trivial
      · refine Prog.only_bind.mpr (Prog.only_bind.mpr (Prog.only_stmt.mpr
          ⟨⟨rfl, rfl⟩, fun isFile => ?_⟩))
        cases isFile
        · trivial
        · exact Prog.only_stmt.mpr ⟨⟨rfl, rfl⟩, fun _ => trivial⟩

theorem only_serviceGet (id : ℕ) :
    Prog.Only CustomerStmt.Plain (fun _ => True) (CustomerService.get E id) := by
  refine Prog.only_bind.mpr (Prog.only_stmt.mpr ⟨⟨rfl, rfl⟩, fun customer => ?_⟩)
  cases customer <;> trivial

theorem only_assertUnique (name : Bytes) (email : Option Bytes) (exceptId : Option ℕ) :
    Prog.Only CustomerStmt.Plain (fun _ => True)
      (CustomerService.assertUnique name email exceptId) := by
  refine Prog.only_bind.mpr (Prog.only_stmt.mpr ⟨⟨rfl, rfl⟩, fun nameTaken => ?_⟩)
  have hend : ∀ emailTaken, Prog.Only CustomerStmt.Plain (fun _ => True)
      (if CustomerService.uniqueErrors nameTaken emailTaken = [] then pure () else
        .throw (.validation "Validation failed."
          (CustomerService.uniqueErrors nameTaken emailTaken)) : CustomerProg Unit) := by
    intro emailTaken
    split_ifs <;> trivial
  cases email with
  | none => exact hend false
  | some email => exact Prog.only_bind.mpr (Prog.only_stmt.mpr ⟨⟨rfl, rfl⟩, hend⟩)

/-- The phase a writer is in before its write. -/
def writerPhase (E : CustomerEnv) : CustomerPhase := if configured E then .clean else .lost

theorem writerPhase_cases : writerPhase E = .clean ∨ writerPhase E = .lost ∨
    writerPhase E = .bumped := by
  unfold writerPhase
  split_ifs <;> simp

/-- From a write on, a writer removes a file, increments the generation and reads. -/
theorem safe_commit {α : Type} (op : CustomerStmt) (hw : op.writes = true) (path : Option Bytes)
    (rest : op.Res → CustomerProg α)
    (hrest : ∀ r, Prog.Only CustomerStmt.Plain (fun _ => True) (rest r)) :
    (customerMonitor E).Safe (· ≠ .dirty) (writerPhase E) (do
      let r ← issue op
      CustomerService.dropAvatar E path
      CustomerService.bump E
      rest r) := by
  have hop : op.onRedis = false := by
    cases op <;> simp_all [CustomerStmt.writes, CustomerStmt.onRedis]
  rw [bump_eq]
  unfold writerPhase
  split_ifs with hc
  · refine Monitor.keeps_bind.mpr (Monitor.keeps_stmt.mpr ⟨hop, fun _ => by
      simp [customerMonitor, CustomerPhase.next], fun r => ?_⟩)
    have hdirty : (customerMonitor E).next .clean op (.ok r) = .dirty := by
      simp [customerMonitor, CustomerPhase.next, hw]
    rw [hdirty]
    refine Monitor.keeps_bind.mpr ((keeps_dropAvatar path).mono ?_ ?_)
    · rintro _ _ rfl
      refine ⟨.inl rfl, fun reply => ?_⟩
      rcases reply with e | n
      · exact (keeps_plain (.inr (.inl rfl)) (hrest r)).mono
          (fun _ _ h => by simp [h.1]) fun _ _ h => by simp [h]
      · exact (keeps_plain (.inr (.inr rfl)) (hrest r)).mono
          (fun _ _ h => by simp [h.1]) fun _ _ h => by simp [h]
    · rintro _ _ rfl
      simp
  · refine safe_of_only (by simp) (fun _ _ => rfl) (Prog.only_bind.mpr (Prog.only_stmt.mpr
      ⟨hop, fun r => Prog.only_bind.mpr (((only_dropAvatar path).imp fun _ h => h.1).mono
        fun _ _ => (hrest r).imp fun _ h => h.1)⟩))

/-- What a writer does before its write leaves it in its phase. -/
theorem safe_before {α β : Type} {p : CustomerProg α} {f : α → CustomerProg β}
    (hp : Prog.Only CustomerStmt.Plain (fun _ => True) p)
    (hf : ∀ a, (customerMonitor E).Safe (· ≠ .dirty) (writerPhase E) (f a)) :
    (customerMonitor E).Safe (· ≠ .dirty) (writerPhase E) (p >>= f) := by
  refine Monitor.keeps_bind.mpr ((keeps_plain writerPhase_cases hp).mono ?_ ?_)
  · rintro _ a ⟨rfl, -⟩
    exact hf a
  · rintro _ _ rfl
    unfold writerPhase
    split_ifs <;> simp

theorem safe_throw {α : Type} {e : Failure} :
    (customerMonitor E).Safe (· ≠ .dirty) (writerPhase E) (.throw e : CustomerProg α) := by
  unfold writerPhase
  split_ifs <;> simp

theorem safe_found {α : Type} {id : ℕ} {e : Failure} {f : CustomerRow → CustomerProg α}
    (hf : ∀ customer, (customerMonitor E).Safe (· ≠ .dirty) (writerPhase E) (f customer)) :
    (customerMonitor E).Safe (· ≠ .dirty) (writerPhase E) (do
      let customer ← issue (.findById id)
      match customer with
      | none => .throw e
      | some customer => f customer) := by
  refine safe_before (Prog.only_stmt.mpr ⟨⟨rfl, rfl⟩, fun _ => trivial⟩) fun customer => ?_
  cases customer with
  | none => exact safe_throw
  | some customer => exact hf customer

theorem safe_create (dto : CustomerData) :
    (customerMonitor E).Safe (· ≠ .dirty) (writerPhase E) (CustomerService.create E dto) :=
  safe_before (only_assertUnique _ _ _) fun _ =>
    safe_commit (.create dto) rfl none _ fun id => only_serviceGet id

theorem safe_update (id : ℕ) (payload : CustomerData) :
    (customerMonitor E).Safe (· ≠ .dirty) (writerPhase E)
      (CustomerService.update E id payload) := by
  refine safe_before (Prog.only_stmt.mpr ⟨⟨rfl, rfl⟩, fun _ => trivial⟩) fun found => ?_
  cases found
  · exact safe_throw
  · exact safe_before (only_assertUnique _ _ _) fun _ =>
      safe_commit (.update id (.data payload)) rfl none _ fun _ => only_serviceGet id

theorem safe_delete (id : ℕ) :
    (customerMonitor E).Safe (· ≠ .dirty) (writerPhase E) (CustomerService.delete E id) := by
  refine safe_found fun customer => ?_
  have h := safe_commit (E := E) (.deleteById id) rfl (CustomerService.avatarPath customer)
    (fun _ => .ret ()) fun _ => trivial
  simpa only [show (CustomerService.bump E >>= fun _ => .ret ()) = CustomerService.bump E from
    bind_pure _] using h

theorem only_moveUploadedFile (R : CustomerEntropy) (file : UploadedFile) (path : Bytes) :
    Prog.Only CustomerStmt.Plain (fun _ => True) (UploadHelper.moveUploadedFile E R file path) := by
  refine Prog.only_bind.mpr ?_
  unfold UploadHelper.store
  split_ifs
  · exact Prog.only_bind.mpr (Prog.only_stmt.mpr ⟨⟨rfl, rfl⟩, fun _ => trivial⟩)
  · exact Prog.only_bind.mpr (Prog.only_stmt.mpr ⟨⟨rfl, rfl⟩, fun _ => trivial⟩)

theorem safe_uploadAvatar (R : CustomerEntropy) (id : ℕ) (file : UploadedFile) :
    (customerMonitor E).Safe (· ≠ .dirty) (writerPhase E)
      (CustomerService.uploadAvatar E R id file) := by
  refine safe_found fun customer => ?_
  split
  · exact safe_throw
  · refine safe_before (only_moveUploadedFile R file _) fun path => ?_
    cases path with
    | none => exact safe_throw
    | some path =>
      exact safe_commit (.update id (.avatarPath (some path))) rfl _ _ fun _ => only_serviceGet id

theorem safe_removeAvatar (id : ℕ) :
    (customerMonitor E).Safe (· ≠ .dirty) (writerPhase E) (CustomerService.removeAvatar E id) :=
  safe_found fun _ =>
    safe_commit (.update id (.avatarPath none)) rfl _ _ fun _ => only_serviceGet id

section Import

open CustomerImportJob

/-- The statement is none of Redis. -/
abbrev CustomerStmt.OffRedis (op : CustomerStmt) : Prop := op.onRedis = false

theorem offRedis_of_plain {α : Type} {A : α → Prop} {p : CustomerProg α}
    (h : Prog.Only CustomerStmt.Plain A p) : Prog.Only CustomerStmt.OffRedis A p :=
  h.imp fun _ hop => hop.1

theorem only_isKnown (parsed : CustomerData) :
    Prog.Only CustomerStmt.Plain (fun _ => True) (isKnown parsed) := by
  refine Prog.only_bind.mpr (Prog.only_stmt.mpr ⟨⟨rfl, rfl⟩, fun byName => ?_⟩)
  cases byName
  · simp only [Bool.false_eq_true, if_false]
    split
    · trivial
    · exact Prog.only_stmt.mpr ⟨⟨rfl, rfl⟩, fun _ => trivial⟩
  · trivial

theorem only_flushIf (due : Bool) (st : ImportState) :
    Prog.Only CustomerStmt.OffRedis (fun _ => True) (flushIf E due st) := by
  cases due
  · trivial
  · exact Prog.only_bind.mpr (Prog.only_bind.mpr (Prog.only_time.mpr fun _ =>
      Prog.only_bind.mpr (Prog.only_stmt.mpr ⟨rfl, fun _ => trivial⟩)))

theorem only_report (progress : Bool) (total : ℕ) (st : ImportState) :
    Prog.Only CustomerStmt.Plain (fun _ => True) (report progress total st) := by
  unfold report
  split
  · exact Prog.only_stmt.mpr ⟨⟨rfl, rfl⟩, fun _ => trivial⟩
  · trivial

theorem only_isMissing (fileName : Bytes) :
    Prog.Only CustomerStmt.Plain (fun _ => True) (isMissing E fileName) := by
  unfold isMissing
  split_ifs
  · trivial
  · exact Prog.only_map.mpr (Prog.only_stmt.mpr ⟨⟨rfl, rfl⟩, fun _ => trivial⟩)

theorem only_removeFile (path : Bytes) :
    Prog.Only CustomerStmt.Plain (fun _ => True) (removeFile path) :=
  Prog.only_bind.mpr (Prog.only_stmt.mpr ⟨⟨rfl, rfl⟩, fun _ => trivial⟩)

variable (chunk : ℕ) (progress : Bool) (total : ℕ)

theorem only_importRow (header : List (Bytes × ℕ)) (st : ImportState) (line : Csv.Record) :
    Prog.Only CustomerStmt.OffRedis (fun _ => True)
      (importRow E chunk progress total header st line) := by
  unfold importRow
  simp only
  split_ifs
  · trivial
  · split
    · trivial
    · refine Prog.only_bind.mpr ((offRedis_of_plain (only_isKnown _)).mono fun known _ => ?_)
      cases known
      · exact Prog.only_bind.mpr ((only_flushIf _ _).mono fun st _ =>
          Prog.only_bind.mpr ((offRedis_of_plain (only_report _ _ st)).mono fun _ _ => trivial))
      · trivial

theorem only_importRows (header : List (Bytes × ℕ)) (st : ImportState) (lines : List Csv.Record) :
    Prog.Only CustomerStmt.OffRedis (fun _ => True)
      (importRows E chunk progress total header st lines) := by
  induction lines generalizing st with
  | nil => trivial
  | cons line lines ih =>
    exact Prog.only_bind.mpr ((only_importRow chunk progress total header st line).mono
      fun st _ => ih st)

theorem only_process (path : Bytes) :
    Prog.Only CustomerStmt.OffRedis (fun _ => True) (process E chunk path progress) := by
  refine Prog.only_bind.mpr (Prog.only_map.mpr (Prog.only_stmt.mpr ⟨rfl, fun total => ?_⟩))
  refine Prog.only_bind.mpr (Prog.only_stmt.mpr ⟨rfl, fun contents => ?_⟩)
  cases contents with
  | none => trivial
  | some contents =>
    simp only [importRecords]
    split_ifs
    · trivial
    · refine Prog.only_bind.mpr ((only_importRows _ _ _ _ _ _).mono fun st _ => ?_)
      refine Prog.only_bind.mpr ((only_flushIf _ _).mono fun st _ => ?_)
      exact Prog.only_bind.mpr (Prog.only_stmt.mpr ⟨rfl, fun _ => trivial⟩)
    · refine Prog.only_bind.mpr ((only_importRows _ _ _ _ _ _).mono fun st _ => ?_)
      exact Prog.only_bind.mpr ((only_flushIf _ _).mono fun st _ => trivial)

theorem only_handle (file : Bytes) :
    Prog.Only CustomerStmt.OffRedis (fun _ => True) (handle E file progress) := by
  refine Prog.only_bind.mpr ((offRedis_of_plain (only_isMissing _)).mono fun missing _ => ?_)
  cases missing
  · exact (only_process _ _ _).tryFinally (offRedis_of_plain (only_removeFile _))
  · trivial

end Import

/-- The call drops no key of the generation. -/
def CustomerCall.KeepsVersion (E : CustomerEnv) (c : CustomerCall) : Prop :=
  c ≠ .evict (versionKey E)

instance (c : CustomerCall) : Decidable (c.KeepsVersion E) := by
  unfold CustomerCall.KeepsVersion
  infer_instance

/-- Every call keeps its phases, and none ends between its write and its increment. -/
theorem safe_start {c : CustomerCall × CustomerEntropy} (h : c.1.KeepsVersion E) :
    (customerMonitor E).Safe (· ≠ .dirty) (c.1.phase E) (CustomerPool.start E c) := by
  obtain ⟨c, R⟩ := c
  cases c with
  | list keywords status page limit =>
    exact Monitor.keeps_map.mpr (safe_cached (only_loadList keywords status page limit))
  | stats => exact Monitor.keeps_map.mpr (safe_cached only_loadStats)
  | get id =>
    exact Monitor.keeps_map.mpr ((keeps_plain writerPhase_cases (only_serviceGet id)).mono
      (fun _ _ h => by unfold writerPhase at h; rw [h.1]; split_ifs <;> simp)
      fun _ _ h => by unfold writerPhase at h; rw [h]; split_ifs <;> simp)
  | create dto => exact Monitor.keeps_map.mpr (safe_create dto)
  | update id payload => exact Monitor.keeps_map.mpr (safe_update id payload)
  | delete id => exact Monitor.keeps_map.mpr (safe_delete id)
  | uploadAvatar id file => exact Monitor.keeps_map.mpr (safe_uploadAvatar R id file)
  | removeAvatar id => exact Monitor.keeps_map.mpr (safe_removeAvatar id)
  | importJob file progress =>
    exact Monitor.keeps_map.mpr (safe_of_only (by simp [CustomerCall.phase]) (fun _ _ => rfl)
      (only_handle progress file))
  | evict key =>
    refine Monitor.keeps_map.mpr (safe_of_only (by simp [CustomerCall.phase]) (fun _ _ => rfl)
      (Prog.only_stmt.mpr ⟨.inr ⟨key, rfl, ?_⟩, fun _ => trivial⟩))
    rintro rfl
    exact h rfl

namespace CustomerSample

/-- `json_encode` of the result of `stats`. -/
def statsJson (s : CustomerStats) : Bytes :=
  ascii "\x7b\"total\":" ++ natString s.total ++ ascii ",\"byStatus\":\x7b" ++
    implode (ascii ",") (s.byStatus.map fun (status, n) =>
      ascii "\"" ++ status ++ ascii "\":" ++ natString n) ++
    ascii "\x7d,\"createdLast7Days\":" ++ natString s.createdLast7Days ++ ascii "\x7d"

/-- The counts of `n` leads, all of them new. -/
def leads (n : ℕ) : CustomerStats :=
  ⟨n, CustomerStatus.all.map fun status =>
    (status, if status = CustomerStatus.lead then n else 0), n⟩

/-- SQLite, Redis and the default settings, on UTC. Of what goes through the cache the samples only
encode counts. -/
def env : CustomerEnv where
  zone := ⟨0, []⟩
  weight := id
  lower := strtolower
  like := fun subject pattern => subject = (pattern.drop 1).dropLast
  sha1 := id
  mbStrtolower := strtolower
  filterVarEmail := fun email => 64 ∈ email
  jsonEncode
    | .stats s => some (statsJson s)
    | .list _ => none
  jsonDecode := fun raw =>
    (([0, 1, 2].map leads).find? fun s => statsJson s = raw).map .stats
  redisServerHost := ascii "redis"
  redisServerPort := ascii "6379"
  redisServerPrefix := []
  defaultUploadTarget := ascii "local"
  uploadDirectory := ascii "/app/public/uploads"
  putObject := fun _ => true
  appBaseUrl := ascii "http://localhost"
  uploadAvatarMaxBytes := 2097152
  uploadAvatarExtensions := []
  storageRoot := ascii "/app/storage"

def db : CustomerDb := ⟨⟨[], 1⟩, Redis.empty, fun _ => none⟩

/-- The path of an import file. -/
def importFile : Bytes := ascii "/app/storage/imports/new.csv"

/-- No customers, and an import file with these contents. -/
def withImport (contents : Bytes) : CustomerDb := db.withFile importFile (some contents)

def entropy : CustomerEntropy := ⟨ascii "00", 0⟩

def customer (name : Bytes) : CustomerData :=
  ⟨name, none, none, none, CustomerStatus.lead, none, none⟩

end CustomerSample

end SlimStarter
