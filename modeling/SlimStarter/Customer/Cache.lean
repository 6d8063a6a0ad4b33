import SlimStarter.Customer.Model

/-!
# `CacheRedis`

The cache as programs over the Redis statements. An instance is threaded through its calls: it is
disabled from its first failure on, and it remembers the generation of each namespace it has read.

`OfGeneration.injective` tells the keys of two generations apart, and `OfGeneration.ne_versionKey`
tells them from the key of the generation itself. Of a key, its generation and what it keeps of its
discriminator are read back (`composedKey_injective`).
-/

namespace SlimStarter

abbrev CustomerProg (α : Type) : Type := Prog CustomerStmt CustomerStmt.Res Int Failure α

/-- Issue one statement. -/
abbrev issue (op : CustomerStmt) : CustomerProg op.Res := Prog.stmt op

/-- The random values of a call: `bin2hex(random_bytes(8))` of a stored file and the draw of the
jitter of a cache entry. -/
structure CustomerEntropy where
  fileName : Bytes
  jitter : Int
deriving DecidableEq, Repr

/-- The state of an instance of `CacheRedis`; `versions` is what `version` remembers. -/
structure CacheRedis where
  disabled : Bool
  versions : List (Bytes × ℕ)
deriving DecidableEq, Repr

namespace CacheRedis

/-- `new CacheRedis()`. -/
def fresh : CacheRedis := ⟨false, []⟩

def maxPayloadBytes : ℕ := 262144

variable (E : CustomerEnv) (R : CustomerEntropy) (c : CacheRedis)

/-- Whether `client` builds a client. -/
def configured : Bool := trim E.redisServerHost ≠ [] && trim E.redisServerPort ≠ []

/-- Whether `client` returns one, and the instance after it. -/
def client : Bool × CacheRedis :=
  if c.disabled then (false, c)
  else if configured E then (true, c)
  else (false, { c with disabled := true })

def fail : CacheRedis := { c with disabled := true }

def keyPrefix : Bytes :=
  let allowed (b : UInt8) : Bool := isDigit b || (65 ≤ b && b ≤ 90) || (97 ≤ b && b ≤ 122)
    || b = 58 || b = 95 || b = 45
  let configured := (trim E.redisServerPrefix).filter allowed
  let name := if configured = [] then ascii "v1:" else configured
  if name.getLast? = some 58 then name else name ++ [58]

def redisKey (key : Bytes) : Bytes := keyPrefix E ++ key

def get (key : Bytes) : CustomerProg (Option Bytes × CacheRedis) :=
  match client E c with
  | (false, c) => pure (none, c)
  | (true, c) =>
    Prog.tryCatch (do
      let value ← issue (.redisGet (redisKey E key))
      pure (value, c)) fun _ => pure (none, c.fail)

/-- The lifetime with its jitter of ten percent. -/
def ttl (expire : Int) : Int :=
  if expire ≤ 1 then max 1 expire
  else
    let jitter := max 1 ((expire * 10 + 99) / 100)
    max 1 (expire + max (-jitter) (min jitter R.jitter))

def set (key value : Bytes) (expire : Int) : CustomerProg (Bool × CacheRedis) :=
  if expire ≤ 0 ∨ maxPayloadBytes < value.length then pure (false, c)
  else
    match client E c with
    | (false, c) => pure (false, c)
    | (true, c) =>
      Prog.tryCatch (do
        issue (.redisSetex (redisKey E key) (ttl R expire) value)
        pure (true, c)) fun _ => pure (false, c.fail)

def getJson (key : Bytes) : CustomerProg (Option Cached × CacheRedis) := do
  let (raw, c) ← get E c key
  pure (raw.bind E.jsonDecode, c)

def setJson (key : Bytes) (value : Cached) (expire : Int) : CustomerProg (Bool × CacheRedis) :=
  match E.jsonEncode value with
  | none => pure (false, c)
  | some raw => set E R c key raw expire

/-- `rememberJson` with `cacheEmpty`, as every caller has it. -/
def rememberJson (key : Bytes) (expire : Int) (producer : CustomerProg Cached) :
    CustomerProg (Cached × CacheRedis) := do
  let (cached, c) ← getJson E c key
  match cached with
  | some cached => pure (cached, c)
  | none => do
    let value ← producer
    let (_, c) ← setJson E R c key value expire
    pure (value, c)

def delete (key : Bytes) : CustomerProg (Bool × CacheRedis) :=
  match client E c with
  | (false, c) => pure (false, c)
  | (true, c) =>
    Prog.tryCatch (do
      let deleted ← issue (.redisDel (redisKey E key))
      pure (decide (0 < deleted), c)) fun _ => pure (false, c.fail)

/-- The generation that a stored version denotes, `VERSION_FALLBACK` where there is none. -/
def generation (raw : Option Bytes) : ℕ :=
  match raw with
  | some raw => if ctypeDigit raw then intval raw else 0
  | none => 0

def version (ns : Bytes) : CustomerProg (ℕ × CacheRedis) :=
  match c.versions.lookup ns with
  | some version => pure (version, c)
  | none => do
    let (raw, c) ← get E c (ns ++ ascii ":version")
    pure (generation raw, { c with versions := (ns, generation raw) :: c.versions })

/-- The key that `namespaced` composes at a generation. -/
def namespacedKey (ns entity discriminator : Bytes) (version : ℕ) : Bytes :=
  let key := ns ++ ascii ":g" ++ natString version ++ ascii ":" ++ entity
  let allowed (b : UInt8) : Bool := isDigit b || (65 ≤ b && b ≤ 90) || (97 ≤ b && b ≤ 122)
    || b = 95 || b = 45
  let discriminator := discriminator.filter allowed
  if discriminator = [] then key else key ++ ascii ":" ++ discriminator.take 64

def namespaced (ns entity discriminator : Bytes) : CustomerProg (Bytes × CacheRedis) := do
  let (version, c) ← version E c ns
  pure (namespacedKey ns entity discriminator version, c)

def bump (ns : Bytes) : CustomerProg (Bool × CacheRedis) :=
  match client E c with
  | (false, c) => pure (false, c)
  | (true, c) =>
    Prog.tryCatch (do
      let _ ← issue (.redisIncr (redisKey E (ns ++ ascii ":version")))
      pure (true, { c with versions := c.versions.filter (·.1 ≠ ns) })) fun _ =>
        pure (false, c.fail)

/-! ## Keys -/

/-- The Redis key of the generation of a namespace. -/
def versionKey (ns : Bytes) : Bytes := redisKey E (ns ++ ascii ":version")

/-- What every key of a generation starts with. -/
def generationKey (ns : Bytes) (version : ℕ) : Bytes :=
  redisKey E (ns ++ ascii ":g" ++ natString version ++ ascii ":")

/-- The key belongs to the generation. -/
def OfGeneration (ns : Bytes) (version : ℕ) (key : Bytes) : Prop :=
  ∃ rest, key = generationKey E ns version ++ rest

theorem namespacedKey_ofGeneration (ns entity discriminator : Bytes) (version : ℕ) :
    OfGeneration E ns version (redisKey E (namespacedKey ns entity discriminator version)) := by
  unfold namespacedKey
  simp only
  split_ifs
  all_goals
    simp only [OfGeneration, generationKey, redisKey, List.append_assoc]
    exact ⟨_, rfl⟩

variable {E}

/-- Digits are followed by the separator, so that they are read back from the key. -/
theorem digits_append_colon {a b x y : Bytes} (ha : ∀ d ∈ a, isDigit d = true)
    (hb : ∀ d ∈ b, isDigit d = true) (h : a ++ 58 :: x = b ++ 58 :: y) : a = b := by
  have hread : ∀ {c z : Bytes}, (∀ d ∈ c, isDigit d = true) →
      (c ++ 58 :: z).takeWhile isDigit = c := by
    intro c z hc
    rw [List.takeWhile_append_of_pos hc, List.takeWhile_cons_of_neg (by decide), List.append_nil]
  rw [← hread ha (z := x), h, hread hb]

theorem OfGeneration.injective {ns key : Bytes} {v w : ℕ} (hv : OfGeneration E ns v key)
    (hw : OfGeneration E ns w key) : v = w := by
  obtain ⟨x, rfl⟩ := hv
  obtain ⟨y, hy⟩ := hw
  simp only [generationKey, redisKey, List.append_assoc, List.append_cancel_left_eq] at hy
  exact natString_injective (digits_append_colon (fun _ => isDigit_natString)
    (fun _ => isDigit_natString) hy)

/-- The bytes of a discriminator that `namespaced` keeps. -/
def keptByte (b : UInt8) : Bool :=
  isDigit b || (65 ≤ b && b ≤ 90) || (97 ≤ b && b ≤ 122) || b = 95 || b = 45

/-- A key with what is kept of its discriminator. -/
def composedKey (ns entity kept : Bytes) (version : ℕ) : Bytes :=
  ns ++ ascii ":g" ++ (natString version ++ 58 :: (entity ++ 58 :: kept))

theorem namespacedKey_eq {discriminator : Bytes} (h : discriminator.filter keptByte ≠ [])
    (ns entity : Bytes) (version : ℕ) : namespacedKey ns entity discriminator version =
      composedKey ns entity ((discriminator.filter keptByte).take 64) version := by
  have hkey : namespacedKey ns entity discriminator version =
      if discriminator.filter keptByte = [] then
        ns ++ ascii ":g" ++ natString version ++ ascii ":" ++ entity
      else ns ++ ascii ":g" ++ natString version ++ ascii ":" ++ entity ++ ascii ":"
        ++ (discriminator.filter keptByte).take 64 := rfl
  rw [hkey, if_neg h]
  simp [composedKey, ascii]

theorem composedKey_injective {ns entity kept kept' : Bytes} {v v' : ℕ}
    (h : composedKey ns entity kept v = composedKey ns entity kept' v') :
    v = v' ∧ kept = kept' := by
  have h := List.append_cancel_left h
  have hversion := digits_append_colon (fun _ => isDigit_natString) (fun _ => isDigit_natString) h
  rw [hversion, List.append_cancel_left_eq, List.cons_inj_right, List.append_cancel_left_eq,
    List.cons_inj_right] at h
  exact ⟨natString_injective hversion, h⟩

theorem OfGeneration.ne_versionKey {ns key : Bytes} {v : ℕ} (hv : OfGeneration E ns v key) :
    key ≠ versionKey E ns := by
  rintro rfl
  obtain ⟨x, hx⟩ := hv
  simp only [versionKey, generationKey, redisKey, List.append_assoc,
    List.append_cancel_left_eq] at hx
  exact absurd hx (by simp [ascii])

end CacheRedis

end SlimStarter
