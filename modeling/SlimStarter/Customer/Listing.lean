import SlimStarter.Customer.Pages
import SlimStarter.Lib.Outcome

/-!
# The cache of `list` is transparent

The key of a list is read back from the right (`listKey_injective`), as neither a status nor a
number has a `|`, and the query folds its keywords the way the key does (`listOf_congr`). So calls
with one key denote one query, on the assumption that SHA-1 tells the texts of the keys apart.

`Faithful` says that an entry, where it is the one of a list, decodes to the answer of that list.
Along a run of lists on a table that does not change all entries are faithful, and each call comes
to what it computes without a cache (`list_cache_transparent`).
-/

namespace SlimStarter

open CustomerService (cacheNamespace listKey listOf loadList)
open CacheRedis (namespacedKey composedKey keptByte redisKey configured)

variable {E : CustomerEnv} {R : CustomerEntropy}

/-- What follows the last separator is read back from the right. -/
theorem append_cons_injective {a : UInt8} {x y x' y' : Bytes} (hy : a ∉ y) (hy' : a ∉ y')
    (h : x ++ a :: y = x' ++ a :: y') : x = x' ∧ y = y' := by
  have hread : ∀ {x y : Bytes}, a ∉ y → (x ++ a :: y).rtakeWhile (· ≠ a) = y := by
    intro x y hy
    have hall : ∀ b ∈ y.reverse, decide (b ≠ a) = true := fun b hb =>
      decide_eq_true (ne_of_mem_of_not_mem (List.mem_reverse.mp hb) hy)
    rw [List.rtakeWhile, List.reverse_append, List.reverse_cons, List.append_assoc,
      List.takeWhile_append_of_pos hall]
    simp
  have hlast : y = y' := by rw [← hread hy (x := x), h, hread hy']
  rw [hlast] at h
  exact ⟨List.append_cancel_right h, hlast⟩

theorem bar_notMem_intString (n : Int) : 124 ∉ intString n :=
  notMem_intString (by decide) (by decide) n

/-- A status that a request can ask for. -/
def ListStatus (status : Option Bytes) : Prop :=
  ∀ s ∈ status, s = [] ∨ s ∈ CustomerStatus.all

instance (status : Option Bytes) : Decidable (ListStatus status) := by
  unfold ListStatus
  infer_instance

variable {keywords keywords' : Bytes} {status status' : Option Bytes}
variable {page page' limit limit' : Int}

theorem ListStatus.bar_notMem (h : ListStatus status) : 124 ∉ status.getD [] := by
  cases status with
  | none => simp
  | some s =>
    rcases h s rfl with rfl | hs
    · simp
    · have hall : ∀ s ∈ CustomerStatus.all, 124 ∉ s := by decide
      exact hall s hs

theorem listKey_injective (h : ListStatus status) (h' : ListStatus status')
    (heq : listKey keywords status page limit = listKey keywords' status' page' limit') :
    strtolower (trim keywords) = strtolower (trim keywords') ∧ status.getD [] = status'.getD []
      ∧ page = page' ∧ limit = limit' := by
  have hjoin : ∀ (a b c d : Bytes), implode [124] [a, b, c, d] =
      ((a ++ 124 :: b) ++ 124 :: c) ++ 124 :: d := by
    intro a b c d
    simp [implode, List.intercalate, List.intersperse]
  rw [listKey, listKey, hjoin, hjoin] at heq
  have hnumber := bar_notMem_intString
  obtain ⟨heq, hlimit⟩ := append_cons_injective (hnumber _) (hnumber _) heq
  obtain ⟨heq, hpage⟩ := append_cons_injective (hnumber _) (hnumber _) heq
  obtain ⟨hkeywords, hstatus⟩ := append_cons_injective h.bar_notMem h'.bar_notMem heq
  exact ⟨hkeywords, hstatus, intString_injective hpage, intString_injective hlimit⟩

/-- The wildcards are no letters, so that folding and escaping commute. -/
theorem strtolower_escapeLikeKeyword (s : Bytes) :
    strtolower (CustomerModel.escapeLikeKeyword s) =
      CustomerModel.escapeLikeKeyword (strtolower s) := by
  unfold strtolower CustomerModel.escapeLikeKeyword
  rw [List.map_flatMap, List.flatMap_map]
  refine List.flatMap_congr fun b _ => ?_
  exact forall_byte (P := fun b => (if b = 37 ∨ b = 95 ∨ b = 92 then [92, b] else [b]).map
      (fun b : UInt8 => if 65 ≤ b ∧ b ≤ 90 then b + 32 else b) =
    let lower : UInt8 := if 65 ≤ b ∧ b ≤ 90 then b + 32 else b
    if lower = 37 ∨ lower = 95 ∨ lower = 92 then [92, lower] else [lower]) (by decide +kernel) b

theorem matchesFilters_congr (hkeywords : strtolower (trim keywords) = strtolower (trim keywords'))
    (hstatus : status.getD [] = status'.getD []) (r : CustomerRow) :
    CustomerModel.matchesFilters E keywords status r =
      CustomerModel.matchesFilters E keywords' status' r := by
  have hempty : ∀ {s : Bytes}, s = [] ↔ strtolower s = [] := by simp [strtolower]
  have htrim : trim keywords = [] ↔ trim keywords' = [] := by
    rw [hempty, hkeywords]
    exact hempty.symm
  have hkeyword : CustomerModel.matchesKeyword E keywords r =
      CustomerModel.matchesKeyword E keywords' r := by
    simp only [CustomerModel.matchesKeyword, strtolower_escapeLikeKeyword, hkeywords, htrim]
  have hread : ∀ {status : Option Bytes},
      (status.all fun status => status = [] || CustomerModel.sqlEq E r.status status) =
        (decide (status.getD [] = []) || CustomerModel.sqlEq E r.status (status.getD [])) := by
    intro status
    cases status <;> simp
  rw [CustomerModel.matchesFilters, CustomerModel.matchesFilters, hkeyword, hread, hread, hstatus]

theorem listOf_congr (t : Table CustomerRow)
    (hkeywords : strtolower (trim keywords) = strtolower (trim keywords'))
    (hstatus : status.getD [] = status'.getD []) :
    listOf E t keywords status page limit = listOf E t keywords' status' page limit := by
  have hselected : CustomerModel.selected E t keywords status =
      CustomerModel.selected E t keywords' status' := by
    simp only [CustomerModel.selected, matchesFilters_congr hkeywords hstatus]
  simp only [listOf, CustomerModel.get, CustomerModel.countGet, hselected]

/-- What `sha1` returns are forty hexadecimal digits. -/
def HexDigest (digest : Bytes) : Prop :=
  digest.length = 40 ∧ ∀ b ∈ digest, isDigit b = true ∨ (97 ≤ b ∧ b ≤ 102)

instance (digest : Bytes) : Decidable (HexDigest digest) := inferInstanceAs (Decidable (_ ∧ _))

/-- The Redis key of the list with this text of its key, at a generation. -/
def listRedisKey (E : CustomerEnv) (text : Bytes) (version : ℕ) : Bytes :=
  redisKey E (namespacedKey cacheNamespace (ascii "list") (E.sha1 text) version)

/-- The digest passes the filter and the cut of `namespaced` unchanged. -/
theorem namespacedKey_digest {digest : Bytes} (h : HexDigest digest) (ns entity : Bytes)
    (version : ℕ) : namespacedKey ns entity digest version =
      composedKey ns entity digest version := by
  obtain ⟨hlength, hdigits⟩ := h
  have hallowed : ∀ b : UInt8, isDigit b = true ∨ (97 ≤ b ∧ b ≤ 102) → keptByte b = true :=
    forall_byte (by decide +kernel)
  have hfilter : digest.filter keptByte = digest :=
    List.filter_eq_self.mpr fun b hb => hallowed b (hdigits b hb)
  have hne : digest ≠ [] := List.ne_nil_of_length_pos (by omega)
  have hcut : digest.take 64 = digest := List.take_of_length_le (by omega)
  rw [CacheRedis.namespacedKey_eq (by rwa [hfilter]), hfilter, hcut]

theorem listRedisKey_injective (hhex : ∀ s, HexDigest (E.sha1 s)) {text text' : Bytes} {v v' : ℕ}
    (h : listRedisKey E text v = listRedisKey E text' v') : E.sha1 text = E.sha1 text' := by
  simp only [listRedisKey, redisKey, namespacedKey_digest (hhex _), List.append_cancel_left_eq] at h
  exact (CacheRedis.composedKey_injective h).2

/-- The entry, if it is the one of a list whose text is among `K`, decodes to the answer of that
list. -/
def Faithful (E : CustomerEnv) (K : Set Bytes) (t : Table CustomerRow) (key raw : Bytes) : Prop :=
  ∀ keywords status page limit v, ListStatus status → listKey keywords status page limit ∈ K →
    key = listRedisKey E (listKey keywords status page limit) v →
    ∃ answer, E.jsonDecode raw = some (.list answer)
      ∧ listOf E t keywords status page limit = .ok answer

/-- The replies of a table that does not change and of a cache whose entries are faithful. A command
of Redis may fail. -/
def ListReply (E : CustomerEnv) (K : Set Bytes) (t : Table CustomerRow) :
    (op : CustomerStmt) → Except Failure op.Res → Prop
  | .countGet keywords status, r => r = .ok (CustomerModel.countGet E t keywords status)
  | .get keywords status page limit, r => r = .ok (CustomerModel.get E t keywords status page limit)
  | .redisGet key, r => ∀ raw, r = .ok (some raw) → Faithful E K t key raw
  | _, _ => True

/-- What lists and evictions issue. -/
def ListStmt (E : CustomerEnv) (K : Set Bytes) (t : Table CustomerRow) : CustomerStmt → Prop
  | .redisSetex key _ raw => Faithful E K t key raw
  | .countGet .. | .get .. | .redisGet _ | .redisDel _ => True
  | _ => False

/-! ## Programs -/

section Programs

variable {K : Set Bytes} {t : Table CustomerRow}

/-- The program comes to this answer. -/
abbrev Answers {α : Type} (E : CustomerEnv) (K : Set Bytes) (t : Table CustomerRow)
    (A : Except Failure α → Prop) (p : CustomerProg α) : Prop :=
  Prog.Meets (ListReply E K t) (ListStmt E K t) A p

theorem answers_loadList : Answers E K t
    (· = (listOf E t keywords status page limit).map .list)
    (loadList E keywords status page limit) := by
  refine Prog.meets_bind.mpr (Prog.meets_stmt.mpr ⟨trivial, ?_⟩)
  rintro r rfl
  simp only [listOf]
  split_ifs with hoverflow
  · rfl
  · refine Prog.meets_bind.mpr (Prog.meets_stmt.mpr ⟨trivial, ?_⟩)
    rintro r rfl
    rfl

/-- A look-up comes to a faithful entry or to nothing. -/
theorem answers_get (c : CacheRedis) (key : Bytes) : Answers E K t
    (fun r => ∃ raw c', r = .ok (raw, c')
      ∧ ∀ value ∈ raw, Faithful E K t (redisKey E key) value) (CacheRedis.get E c key) := by
  unfold CacheRedis.get
  split
  · exact ⟨none, _, rfl, by simp⟩
  · refine Prog.meets_tryCatch.mpr (Prog.meets_bind.mpr (Prog.meets_stmt.mpr ⟨trivial, ?_⟩))
    intro r hr
    cases r with
    | ok raw => exact ⟨raw, _, rfl, fun value hvalue => hr value (congrArg Except.ok hvalue)⟩
    | error e => exact ⟨none, _, rfl, by simp⟩

theorem answers_setJson {c : CacheRedis} {key : Bytes} {value : Cached} {expire : Int}
    (h : ∀ raw, E.jsonEncode value = some raw → Faithful E K t (redisKey E key) raw) :
    Answers E K t (fun r => ∃ a, r = .ok a) (CacheRedis.setJson E R c key value expire) := by
  unfold CacheRedis.setJson
  split
  · exact ⟨_, rfl⟩
  · next raw hraw =>
    unfold CacheRedis.set
    split_ifs
    · exact ⟨_, rfl⟩
    · split
      · exact ⟨_, rfl⟩
      · refine Prog.meets_tryCatch.mpr (Prog.meets_bind.mpr (Prog.meets_stmt.mpr ⟨h raw hraw, ?_⟩))
        intro r _
        cases r <;> exact ⟨_, rfl⟩

section Keys

variable (hhex : ∀ s, HexDigest (E.sha1 s)) (hsha : K.InjOn E.sha1)
variable (hjson : ∀ answer raw, E.jsonEncode (.list answer) = some raw →
  E.jsonDecode raw = some (.list answer))

include hhex hsha hjson

/-- The entry that a list stores is faithful, since calls with one key have one answer. -/
theorem faithful_of_answer (hstatus : ListStatus status)
    (hK : listKey keywords status page limit ∈ K) {v : ℕ} {answer : CustomerList}
    (hanswer : listOf E t keywords status page limit = .ok answer) {raw : Bytes}
    (hraw : E.jsonEncode (.list answer) = some raw) :
    Faithful E K t (listRedisKey E (listKey keywords status page limit) v) raw := by
  intro keywords' status' page' limit' v' hstatus' hK' hkey
  obtain ⟨hkeywords, hstatuses, rfl, rfl⟩ :=
    listKey_injective hstatus hstatus' (hsha hK hK' (listRedisKey_injective hhex hkey))
  exact ⟨answer, hjson _ _ hraw, (listOf_congr t hkeywords hstatuses).symm.trans hanswer⟩

/-- An entry that is there decodes to the answer, and what is stored where there is none is it. -/
theorem answers_rememberJson (hstatus : ListStatus status)
    (hK : listKey keywords status page limit ∈ K) (c : CacheRedis) (v : ℕ) (ttl : Int) :
    Answers E K t (fun r => r.map (·.1) = (listOf E t keywords status page limit).map .list)
      (CacheRedis.rememberJson E R c (namespacedKey cacheNamespace (ascii "list")
        (E.sha1 (listKey keywords status page limit)) v) ttl
        (loadList E keywords status page limit)) := by
  unfold CacheRedis.rememberJson CacheRedis.getJson
  refine Prog.meets_bind.mpr (Prog.meets_bind.mpr ((answers_get c _).mono ?_))
  rintro r ⟨raw, c', rfl, hraw⟩
  cases hcached : raw.bind E.jsonDecode with
  | some cached =>
    obtain ⟨value, hvalue, hdecode⟩ := Option.bind_eq_some_iff.mp hcached
    obtain ⟨answer, hanswer, hlist⟩ := hraw value hvalue _ _ _ _ v hstatus hK rfl
    obtain rfl := Option.some.inj (hdecode.symm.trans hanswer)
    simp [hcached, hlist, Except.map]
  | none =>
    simp only [hcached, Prog.pure_eq, Prog.meets_ret]
    refine Prog.meets_bind.mpr (answers_loadList.mono ?_)
    rintro r rfl
    cases hlist : listOf E t keywords status page limit with
    | error e => rfl
    | ok answer =>
      refine Prog.meets_bind.mpr ((answers_setJson fun raw hencode =>
        faithful_of_answer hhex hsha hjson hstatus hK hlist hencode).mono ?_)
      rintro r ⟨a, rfl⟩
      rfl

theorem answers_list (hstatus : ListStatus status)
    (hK : listKey keywords status page limit ∈ K) : Answers E K t
      (· = (listOf E t keywords status page limit).map .list)
      (CustomerService.list E R keywords status page limit) := by
  have hrest : ∀ (c : CacheRedis) (v : ℕ),
      Answers E K t (· = (listOf E t keywords status page limit).map .list) (do
        let r ← CacheRedis.rememberJson E R c (namespacedKey cacheNamespace (ascii "list")
          (E.sha1 (listKey keywords status page limit)) v) CustomerService.cacheTtl
          (loadList E keywords status page limit)
        pure r.1) := by
    intro c v
    refine Prog.meets_bind.mpr
      ((answers_rememberJson hhex hsha hjson hstatus hK c v _).mono fun r hr => ?_)
    cases r <;> exact hr
  unfold CustomerService.list
  rw [namespaced_fresh]
  split_ifs with hconfigured
  · refine ⟨trivial, fun r _ => ?_⟩
    cases r <;> exact hrest _ _
  · exact hrest _ _

end Keys

end Programs

/-! ## Runs -/

/-- Only lists and evictions are called, where the texts of the keys are among `K`, and only Redis
fails. -/
def CustomerPool.Lists (K : Set Bytes) (s : CustomerPool) : CustomerAct → Prop
  | .spawn (.list keywords status page limit, _) =>
    ListStatus status ∧ listKey keywords status page limit ∈ K
  | .spawn (.evict _, _) => True
  | .spawn _ => False
  | .fail i _ => (s.procs[i]?.bind (·.rest.statement?)).all (·.onRedis) = true
  | _ => True

instance (K : Set Bytes) [DecidablePred (· ∈ K)] (s : CustomerPool) (a : CustomerAct) :
    Decidable (s.Lists K a) :=
  match a with
  | .spawn (.list .., _) => inferInstanceAs (Decidable (_ ∧ _))
  | .spawn (.evict _, _) | .step _ | .tick _ => inferInstanceAs (Decidable True)
  | .spawn (.stats, _) | .spawn (.get _, _) | .spawn (.create _, _) | .spawn (.update .., _)
  | .spawn (.uploadAvatar .., _) | .spawn (.removeAvatar _, _) | .spawn (.delete _, _)
  | .spawn (.importJob .., _) => inferInstanceAs (Decidable False)
  | .fail .. => inferInstanceAs (Decidable (_ = true))

section Runs

variable {K : Set Bytes} {t : Table CustomerRow} {db : CustomerDb}

/-- The table is `t`, and the entries are faithful. -/
structure FaithfulStore (E : CustomerEnv) (K : Set Bytes) (t : Table CustomerRow)
    (db : CustomerDb) : Prop where
  table : db.customer = t
  entries : ∀ key e, db.redis key = some e → Faithful E K t key e.value

theorem FaithfulStore.reply (h : FaithfulStore E K t db) (op : CustomerStmt) (now : Int) :
    ListReply E K t op (E.exec op now db).1 := by
  obtain ⟨rfl, hentries⟩ := h
  cases op with
  | get => rfl
  | countGet => rfl
  | redisGet key =>
    intro raw hraw
    obtain ⟨e, he, rfl⟩ := Redis.get_eq_some (Except.ok.inj hraw)
    exact hentries key e he
  | _ => trivial

theorem FaithfulStore.exec (h : FaithfulStore E K t db) {op : CustomerStmt}
    (hop : ListStmt E K t op) (now : Int) : FaithfulStore E K t (E.exec op now db).2 := by
  cases op with
  | redisSetex key ttl raw =>
    refine ⟨h.table, fun key' e he => ?_⟩
    replace he : (Redis.setex db.redis now key ttl raw).2 key' = some e := he
    by_cases hkey : key' = key
    · subst hkey
      unfold Redis.setex at he
      split_ifs at he
      · exact h.entries _ e he
      · simp only [Function.update_self, Option.some.injEq] at he
        subst he
        exact hop
    · exact h.entries key' e (by rwa [Redis.setex_of_ne hkey] at he)
  | redisDel key =>
    refine ⟨h.table, fun key' e he => ?_⟩
    replace he : (Redis.del db.redis now key).2 key' = some e := he
    by_cases hkey : key' = key
    · subst hkey
      simp [Redis.del] at he
    · exact h.entries key' e (by rwa [Redis.del_of_ne hkey] at he)
  | countGet | get | redisGet => exact h
  | _ => exact hop.elim

/-- What a call of the run is to come to. -/
def ListOutcome (E : CustomerEnv) (t : Table CustomerRow) (c : CustomerCall × CustomerEntropy)
    (r : Except Failure CustomerResult) : Prop :=
  ∀ keywords status page limit, c.1 = .list keywords status page limit →
    r = (listOf E t keywords status page limit).map fun answer => .cached (.list answer)

theorem run_uncached (c : CustomerCall × CustomerEntropy) (now : Int) :
    ListOutcome E db.customer c
      ((CustomerPool.start E.uncached c).run E.uncached.exec now db).1 := by
  obtain ⟨call, R⟩ := c
  rintro keywords status page limit rfl
  have hcache : configured E.uncached = false := rfl
  rw [CustomerPool.start, CustomerCall.prog, Prog.run_map, CustomerService.list_uncached hcache,
    CustomerService.run_loadList]
  change Except.map _ (Except.map _ (listOf E db.customer keywords status page limit)) = _
  cases listOf E db.customer keywords status page limit <;> rfl

theorem meets_start (hhex : ∀ s, HexDigest (E.sha1 s)) (hsha : K.InjOn E.sha1)
    (hjson : ∀ answer raw, E.jsonEncode (.list answer) = some raw →
      E.jsonDecode raw = some (.list answer)) {s : CustomerPool}
    {c : CustomerCall × CustomerEntropy} (hc : CustomerPool.Lists K s (.spawn c)) :
    Answers E K t (ListOutcome E t c) (CustomerPool.start E c) := by
  obtain ⟨call, R⟩ := c
  cases call with
  | list keywords status page limit =>
    refine Prog.meets_map.mpr ((answers_list hhex hsha hjson hc.1 hc.2).mono ?_)
    rintro r rfl keywords status page limit ⟨⟩
    cases listOf E t keywords status page limit <;> rfl
  | evict key =>
    refine Prog.meets_map.mpr (Prog.meets_stmt.mpr ⟨trivial, fun r _ => ?_⟩)
    rintro keywords status page limit ⟨⟩
  | _ => exact hc.elim

/-- In a run of lists and evictions on a table that does not change, where Redis has no entries of
the lists at the start, two lists that share a key of the cache denote one query, and each list
comes to what it computes without Redis: a call that has ended has, and any other does where it runs
on alone. -/
theorem list_cache_transparent {now : Int} {s : CustomerPool} (hhex : ∀ s, HexDigest (E.sha1 s))
    (hsha : K.InjOn E.sha1)
    (hjson : ∀ answer raw, E.jsonEncode (.list answer) = some raw →
      E.jsonDecode raw = some (.list answer))
    (hempty : ∀ text ∈ K, ∀ v, db.redis (listRedisKey E text v) = none)
    (run : Pool.Steps E.exec (CustomerPool.start E) (CustomerPool.Lists K)
      (CustomerPool.idle db now) s) :
    (∀ keywords status page limit v keywords' status' page' limit' v', ListStatus status →
        ListStatus status' → listKey keywords status page limit ∈ K →
        listKey keywords' status' page' limit' ∈ K →
        listRedisKey E (listKey keywords status page limit) v =
          listRedisKey E (listKey keywords' status' page' limit') v' →
        page = page' ∧ limit = limit' ∧ ∀ r, CustomerModel.matchesFilters E keywords status r =
          CustomerModel.matchesFilters E keywords' status' r)
      ∧ s.db.customer = db.customer
      ∧ ∀ p ∈ s.procs, ∀ keywords status page limit, p.call.1 = .list keywords status page limit →
          ∀ R i,
            let answer :=
              ((CustomerPool.start E.uncached (p.call.1, R)).run E.uncached.exec i db).1
            (∀ r, p.rest.outcome? = some r → r = answer)
              ∧ (p.rest.run E.exec s.now s.db).1 = answer := by
  have hstart : Pool.Meeting (FaithfulStore E K db.customer) (ListReply E K db.customer)
      (ListStmt E K db.customer) (ListOutcome E db.customer) (CustomerPool.idle db now) := by
    refine ⟨⟨rfl, fun key e he keywords status page limit v _ hK hkey => ?_⟩, by
      simp [CustomerPool.idle]⟩
    subst hkey
    exact absurd (he.symm.trans (hempty _ hK v)) (by simp)
  have hmeeting := run.meeting (fun op now db h => h.reply op now)
    (fun op now db hop h => h.exec hop now) (fun s c hc => meets_start hhex hsha hjson hc) ?_ hstart
  · refine ⟨?_, hmeeting.store.table, ?_⟩
    · intro keywords status page limit v keywords' status' page' limit' v' h h' hK hK' hkey
      obtain ⟨hkeywords, hstatus, hpage, hlimit⟩ :=
        listKey_injective h h' (hsha hK hK' (listRedisKey_injective hhex hkey))
      exact ⟨hpage, hlimit, matchesFilters_congr hkeywords hstatus⟩
    · intro p hp keywords status page limit hcall R i answer
      have houtcome : ListOutcome E db.customer (p.call.1, R) answer := run_uncached _ i
      have hanswer := houtcome _ _ _ _ hcall
      refine ⟨fun r hr => ?_, ?_⟩
      · exact (hmeeting.outcome hp hr _ _ _ _ hcall).trans hanswer.symm
      · exact (hmeeting.run (fun op now db h => h.reply op now)
          (fun op now db hop h => h.exec hop now) hp _ _ _ _ hcall).trans hanswer.symm
  · intro s i e hfail c op k hi
    have hredis : op.onRedis = true := by
      simpa [CustomerPool.Lists, hi, Prog.statement?] using hfail
    cases op with
    | get | countGet => cases hredis
    | redisGet key =>
      intro raw hraw
      cases hraw
    | _ => trivial

end Runs

namespace CustomerSample

/-- What `list` answers about one customer. -/
def annList : CustomerList where
  data := [{ customer (ascii "Ann") with
    id := 1, avatarUrl := none, createdAt := some ⟨0⟩, updatedAt := none }]
  totalData := 1
  totalPage := 1

def annListJson : Bytes :=
  ascii "\x7b\"data\":[\x7b\"id\":1,\"name\":\"Ann\",\"email\":null,\"phone\":null," ++
    ascii "\"company\":null,\"status\":\"lead\",\"address\":null,\"notes\":null," ++
    ascii "\"avatar_url\":null,\"created_at\":\"1970-01-01 00:00:00\",\"updated_at\":null\x7d]," ++
    ascii "\"total_data\":1,\"total_page\":1\x7d"

/-- The texts of the keys of the sample. -/
def listTexts : List Bytes := [ascii "ann||1|20", ascii "||2|20"]

/-- As `env`, with the digests of `listTexts` and the JSON of one list. -/
def listEnv : CustomerEnv :=
  { env with
    sha1 := fun text =>
      if text = ascii "ann||1|20" then ascii "a52b46012d0d8e436b93e399750f73747ff69b08"
      else if text = ascii "||2|20" then ascii "83970f50702382bb2ae257a75cf7eae8ef09b9d5"
      else List.replicate 40 48
    jsonEncode := fun
      | .list answer => if answer = annList then some annListJson else none
      | .stats _ => none
    jsonDecode := fun raw => if raw = annListJson then some (.list annList) else none }

/-- A list that misses and fills the cache, and one with the same key that hits. -/
def twoLists : List CustomerAct :=
  .spawn (.list (ascii " ANN") none 1 20, entropy) :: List.replicate 5 (.step 0) ++
    .spawn (.list (ascii "ann") (some []) 1 20, entropy) :: List.replicate 2 (.step 1)

instance : DecidablePred (· ∈ {text | text ∈ listTexts}) :=
  inferInstanceAs (DecidablePred (· ∈ listTexts))

end CustomerSample

open CustomerSample in
theorem list_cache_transparent_sample :
    ∃ s : CustomerPool, s.log.length = 7
      ∧ s.procs.map (·.rest.outcome?) = List.replicate 2 (some (.ok (.cached (.list annList))))
      ∧ ∀ p ∈ s.procs, ∀ keywords status page limit, p.call.1 = .list keywords status page limit →
          ∀ R i,
            let answer := ((CustomerPool.start listEnv.uncached (p.call.1, R)).run
              listEnv.uncached.exec i fourCustomers).1
            (∀ r, p.rest.outcome? = some r → r = answer)
              ∧ (p.rest.run listEnv.exec s.now s.db).1 = answer := by
  have h : ∃ s ∈ Pool.acts listEnv.exec (CustomerPool.start listEnv)
      (CustomerPool.Lists {text | text ∈ listTexts}) twoLists (CustomerPool.idle fourCustomers 0),
      s.log.length = 7 ∧ s.procs.map (·.rest.outcome?) =
        List.replicate 2 (some (.ok (.cached (.list annList)))) := by
    decide +kernel
  obtain ⟨s, hs, hlog, houtcomes⟩ := h
  have hhex : ∀ text, HexDigest (listEnv.sha1 text) := by
    intro text
    simp only [listEnv]
    split_ifs <;> decide +kernel
  have hsha : Set.InjOn listEnv.sha1 {text | text ∈ listTexts} := by
    have hall : ∀ a ∈ listTexts, ∀ b ∈ listTexts, listEnv.sha1 a = listEnv.sha1 b → a = b := by
      decide +kernel
    exact fun a ha b hb heq => hall a ha b hb heq
  have hjson : ∀ answer raw, listEnv.jsonEncode (.list answer) = some raw →
      listEnv.jsonDecode raw = some (.list answer) := by
    intro answer raw hraw
    simp only [listEnv, Option.ite_none_right_eq_some, Option.some.injEq] at hraw ⊢
    obtain ⟨rfl, rfl⟩ := hraw
    exact ⟨rfl, rfl⟩
  exact ⟨s, hlog, houtcomes, (list_cache_transparent hhex hsha hjson (fun _ _ _ => rfl)
    (Pool.steps_of_acts hs)).2.2⟩

end SlimStarter
