import SlimStarter.Lib.Yields
import SlimStarter.Customer.Phases

/-!
# Keys of the documented recipe

`docs/caching.md` has the discriminator of a list put together from the hash of its keywords, its
page and its limit, with colons between them. `namespaced` deletes the colons, so that the digits
of the page and of the limit run together, and it keeps twenty-four of them behind the forty of the
hash. These digits alone tell the lists of one hash apart (`documented_keys_apart_iff`).
-/

namespace SlimStarter

namespace CacheRedis

open Digits (joined leading)

variable {E : CustomerEnv} {c : CacheRedis} {i : Int} {db : CustomerDb}

/-- An instance of the cache, and the time and the store at which it is called. -/
structure CacheState where
  cache : CacheRedis
  now : Int
  db : CustomerDb

/-- The generation that `version` returns. -/
def CacheState.version (s : CacheState) (E : CustomerEnv) (ns : Bytes) : Except Failure ℕ :=
  ((CacheRedis.version E s.cache ns).run E.exec s.now s.db).1.map (·.1)

/-- The key that `namespaced` returns. -/
def CacheState.namespaced (s : CacheState) (E : CustomerEnv) (ns entity discriminator : Bytes) :
    Except Failure Bytes :=
  ((CacheRedis.namespaced E s.cache ns entity discriminator).run E.exec s.now s.db).1.map (·.1)

theorem yields_get (key : Bytes) : Prog.Yields E.exec i (get E c key) db fun _ _ => True := by
  unfold get client
  split_ifs
  · trivial
  · refine Prog.yields_tryCatch_stmt.mpr ?_
    split <;> trivial
  · trivial

theorem yields_version (ns : Bytes) :
    Prog.Yields E.exec i (version E c ns) db fun _ _ => True := by
  unfold version
  cases c.versions.lookup ns with
  | some v => trivial
  | none => exact Prog.yields_bind.mpr ((yields_get _).mono fun _ _ _ => trivial)

/-- Whatever the state, there is a generation, and each key is composed at it. -/
theorem CacheState.exists_version (s : CacheState) (E : CustomerEnv) (ns : Bytes) :
    ∃ v, s.version E ns = .ok v ∧ ∀ entity discriminator,
      s.namespaced E ns entity discriminator = .ok (namespacedKey ns entity discriminator v) := by
  have hyields : Prog.Yields E.exec s.now (CacheRedis.version E s.cache ns) s.db fun _ _ => True :=
    yields_version ns
  obtain ⟨⟨v, c⟩, db, hrun, -⟩ := Prog.yields_iff.mp hyields
  refine ⟨v, by rw [CacheState.version, hrun]; rfl, fun entity discriminator => ?_⟩
  rw [CacheState.namespaced, CacheRedis.namespaced, Prog.run_bind, hrun]
  rfl

/-! ## The recipe -/

def isHexDigit (b : UInt8) : Bool :=
  isDigit b || (65 ≤ b && b ≤ 70) || (97 ≤ b && b ≤ 102)

/-- A hash of forty hexadecimal digits. -/
@[ext] structure HexHash where
  bytes : Bytes
  length : bytes.length = 40
  digits : ∀ b ∈ bytes, isHexDigit b = true

/-- `$hash . ':' . $page . ':' . $limit`. -/
def documented (hash : HexHash) (page limit : Int) : Bytes :=
  hash.bytes ++ ascii ":" ++ intString page ++ ascii ":" ++ intString limit

/-- What a key keeps of the page and the limit behind a hash. -/
def keptDigits (page limit : Int) : Bytes := (intString page ++ intString limit).take 24

theorem keptByte_of_isHexDigit {b : UInt8} (h : isHexDigit b = true) : keptByte b = true :=
  forall_byte (P := fun b => isHexDigit b = true → keptByte b = true) (by decide +kernel) b h

theorem keptByte_intString {n : Int} {b : UInt8} (h : b ∈ intString n) : keptByte b = true := by
  by_contra hkept
  have hdigit : isDigit b = false := by
    cases hb : isDigit b with
    | false => rfl
    | true => simp [keptByte, hb] at hkept
  have hsign : b ≠ 45 := by
    rintro rfl
    exact hkept rfl
  exact notMem_intString hdigit hsign n h

theorem HexHash.append_inj {hash hash' : HexHash} {x y : Bytes}
    (h : hash.bytes ++ x = hash'.bytes ++ y) : hash = hash' ∧ x = y := by
  obtain ⟨hbytes, hrest⟩ := List.append_inj h (hash.length.trans hash'.length.symm)
  exact ⟨HexHash.ext hbytes, hrest⟩

/-- The filter deletes the two colons of the recipe and nothing else. -/
theorem filter_documented (hash : HexHash) (page limit : Int) :
    (documented hash page limit).filter keptByte =
      hash.bytes ++ (intString page ++ intString limit) := by
  have hhash : hash.bytes.filter keptByte = hash.bytes :=
    List.filter_eq_self.mpr fun b hb => keptByte_of_isHexDigit (hash.digits b hb)
  have hnumber : ∀ n, (intString n).filter keptByte = intString n := fun n =>
    List.filter_eq_self.mpr fun b hb => keptByte_intString hb
  have hcolon : (ascii ":").filter keptByte = [] := by decide
  simp only [documented, List.filter_append, hhash, hnumber, hcolon, List.nil_append,
    List.append_assoc]

theorem namespacedKey_documented (ns entity : Bytes) (hash : HexHash) (page limit : Int) (v : ℕ) :
    namespacedKey ns entity (documented hash page limit) v =
      composedKey ns entity (hash.bytes ++ keptDigits page limit) v := by
  have hne : (documented hash page limit).filter keptByte ≠ [] := by
    rw [filter_documented]
    exact List.append_ne_nil_of_left_ne_nil
      (List.ne_nil_of_length_pos (by rw [hash.length]; decide)) _
  rw [namespacedKey_eq hne, filter_documented, List.take_append, hash.length,
    List.take_of_length_le (by rw [hash.length]; decide)]
  rfl

theorem namespacedKey_documented_eq_iff {ns entity : Bytes} {hash hash' : HexHash}
    {page limit page' limit' : Int} {v v' : ℕ} :
    namespacedKey ns entity (documented hash page limit) v =
        namespacedKey ns entity (documented hash' page' limit') v' ↔
      v = v' ∧ hash = hash' ∧ keptDigits page limit = keptDigits page' limit' := by
  rw [namespacedKey_documented, namespacedKey_documented]
  constructor
  · intro h
    obtain ⟨hversion, hkept⟩ := composedKey_injective h
    exact ⟨hversion, HexHash.append_inj hkept⟩
  · rintro ⟨rfl, rfl, hdigits⟩
    rw [hdigits]

/-! ## Digits that run together -/

section Digits

variable {ns entity : Bytes} {hash : HexHash} {page limit page' limit' : ℕ+}

/-- The number with the digits of `m` and those of `n` behind them. -/
def joinedNumber (m n : ℕ+) : ℕ+ := ⟨joined 10 m n, Nat.add_pos_left n.pos _⟩

/-- The number of the first twenty-four digits of page and limit. -/
def leadingDigits (page limit : ℕ+) : ℕ := leading 10 24 (joinedNumber page limit)

theorem keptDigits_eq (page limit : ℕ+) :
    keptDigits page limit = natString (leadingDigits page limit) :=
  calc keptDigits page limit
      = (natString page ++ natString limit).take 24 := rfl
    _ = (natString (joinedNumber page limit)).take 24 :=
      congrArg (List.take 24) (natString_append page.pos limit.pos)
    _ = natString (leadingDigits page limit) :=
      take_natString (joinedNumber page limit).pos (by decide)

theorem keptDigits_eq_iff : keptDigits page limit = keptDigits page' limit' ↔
    leadingDigits page limit = leadingDigits page' limit' := by
  rw [keptDigits_eq, keptDigits_eq, natString_injective.eq_iff]

end Digits

end CacheRedis

open CacheRedis in
/-- The keys of two lists by the documented recipe are equal only if the lists are the same, unless
they have the generation and the hash in common and the digits of their pages and limits, written
one after the other, are the same as far as the key keeps them. -/
theorem documented_keys_apart_iff (E : CustomerEnv) (ns entity : Bytes) (s s' : CacheState) :
    ∃ v v', s.version E ns = .ok v ∧ s'.version E ns = .ok v' ∧
      ∀ (hash hash' : HexHash) (page limit page' limit' : ℕ+),
        (s.namespaced E ns entity (documented hash page limit) =
            s'.namespaced E ns entity (documented hash' page' limit') →
          v = v' ∧ hash = hash' ∧ page = page' ∧ limit = limit') ↔
        ¬ (v = v' ∧ hash = hash' ∧ (page, limit) ≠ (page', limit')
          ∧ leadingDigits page limit = leadingDigits page' limit') := by
  obtain ⟨v, hv, hkey⟩ := s.exists_version E ns
  obtain ⟨v', hv', hkey'⟩ := s'.exists_version E ns
  refine ⟨v, v', hv, hv', fun hash hash' page limit page' limit' => ?_⟩
  have hequal : s.namespaced E ns entity (documented hash page limit) =
      s'.namespaced E ns entity (documented hash' page' limit') ↔
      v = v' ∧ hash = hash' ∧ leadingDigits page limit = leadingDigits page' limit' := by
    rw [hkey, hkey', Except.ok.injEq, namespacedKey_documented_eq_iff, keptDigits_eq_iff]
  rw [hequal]
  constructor
  · rintro hapart ⟨hversion, hhash, hne, hdigits⟩
    obtain ⟨-, -, rfl, rfl⟩ := hapart ⟨hversion, hhash, hdigits⟩
    exact hne rfl
  · rintro hnot ⟨hversion, hhash, hdigits⟩
    by_contra hdiffer
    refine hnot ⟨hversion, hhash, fun hpair => hdiffer ?_, hdigits⟩
    obtain ⟨hpage, hlimit⟩ := Prod.mk.inj hpair
    exact ⟨hversion, hhash, hpage, hlimit⟩

namespace CustomerSample

open CacheRedis

/-- `sha1('')`. -/
def noKeywords : HexHash where
  bytes := ascii "da39a3ee5e6b4b0d3255bfef95601890afd80709"
  length := by decide +kernel
  digits := by decide +kernel

/-- A new request, where nothing has been cached. -/
def newRequest : CacheState := ⟨CacheRedis.fresh, 0, db⟩

end CustomerSample

open CacheRedis CustomerSample in
/-- The first page of twelve customers and the eleventh page of two have one key. -/
theorem documented_keys_collide :
    newRequest.namespaced env (ascii "customer") (ascii "list") (documented noKeywords 1 12) =
        .ok (ascii "customer:g0:list:da39a3ee5e6b4b0d3255bfef95601890afd80709112")
      ∧ newRequest.namespaced env (ascii "customer") (ascii "list") (documented noKeywords 11 2) =
        .ok (ascii "customer:g0:list:da39a3ee5e6b4b0d3255bfef95601890afd80709112")
      ∧ ((1, 12) : ℕ+ × ℕ+) ≠ (11, 2) := by
  decide +kernel

end SlimStarter
