import SlimStarter.Customer.Flaky

/-!
# The cache fails open

Whatever becomes of the commands of Redis, the calls of a service end as they would without a cache,
but that a list or the stats may be what an earlier one computed. After a write only what was
computed after it is left to serve, so that no result is older (`cache_fails_open`).

What Redis has to hold at the start, `Generations`, every run of the requests and the jobs keeps
(`generations_of_steps`), and so do the sessions (`generations_serveAll`).
-/

namespace SlimStarter

open CustomerService (assertUnique avatarPath cachedOn dropAvatar listKey writeOn)
open CacheRedis (configured fresh)

variable {E : CustomerEnv} {R : CustomerEntropy} {faults : ℕ → Fault} {i : Int}

/-- The part of a writer before its `bump`: where it throws, it has left the table as it was. -/
structure Writes {α : Type} (E : CustomerEnv) (p : CustomerProg α) : Prop where
  offRedis : Prog.Only CustomerStmt.OffRedis (fun _ => True) p
  unchanged : ∀ i db e, (p.run E.exec i db).1 = .error e →
    (p.run E.exec i db).2.customer = db.customer

section Writes

variable {α β : Type} {p : CustomerProg α}

theorem customer_run_of_plain (h : Prog.Only CustomerStmt.Plain (fun _ => True) p)
    (db : CustomerDb) : (p.run E.exec i db).2.customer = db.customer := by
  induction p generalizing db with
  | ret a => rfl
  | throw e => rfl
  | clock k ih => exact ih i (h i) db
  | call op k ih =>
    rw [Prog.run_call, ih _ (h.2 _)]
    exact customer_exec h.1.2 i db

theorem writes_throw {e : Failure} : Writes E (.throw e : CustomerProg α) :=
  ⟨trivial, fun _ _ _ _ => rfl⟩

theorem Writes.plain_bind {f : α → CustomerProg β}
    (hp : Prog.Only CustomerStmt.Plain (fun _ => True) p) (hf : ∀ a, Writes E (f a)) :
    Writes E (p >>= f) where
  offRedis := Prog.only_bind.mpr ((offRedis_of_plain hp).mono fun a _ => (hf a).offRedis)
  unchanged := by
    intro i db e he
    have hkept := customer_run_of_plain (E := E) (i := i) hp db
    rw [Prog.run_bind] at he ⊢
    rcases hrun : p.run E.exec i db with ⟨_ | a, db'⟩
    · rw [hrun] at hkept
      exact hkept
    · rw [hrun] at he hkept
      exact ((hf a).unchanged i db' e he).trans hkept

theorem isOk_dropAvatar (path : Option Bytes) (db : CustomerDb) :
    ((dropAvatar E path).run E.exec i db).1.isOk = true := by
  unfold dropAvatar UploadHelper.deleteUploadedFile
  split
  · rfl
  · split_ifs
    · rfl
    · split
      · rfl
      · simp only [Prog.stmt_bind, Prog.call_bind, Prog.run_call, CustomerEnv.exec, Prog.resume_ok]
        split_ifs <;> rfl

theorem Writes.commit {op : CustomerStmt} (hop : op.writes = true) {f : op.Res → CustomerProg α}
    (hf : ∀ r, Prog.Only CustomerStmt.OffRedis (fun _ => True) (f r))
    (hok : ∀ r i db, ((f r).run E.exec i db).1.isOk = true) : Writes E (issue op >>= f) where
  offRedis := by
    refine Prog.only_bind.mpr (Prog.only_stmt.mpr ⟨?_, fun r => hf r⟩)
    cases op <;> first | rfl | cases hop
  unchanged := by
    intro i db e he
    have hexec : ∃ r db', E.exec op i db = (.ok r, db') := by
      cases op <;> first | exact ⟨_, _, rfl⟩ | cases hop
    obtain ⟨r, db', hexec⟩ := hexec
    rw [Prog.stmt_bind, Prog.run_call, hexec, Prog.resume_ok] at he
    have := hok r i db'
    rw [he] at this
    cases this

theorem writes_insert (dto : CustomerData) : Writes E (CustomerService.insert dto) := by
  refine Writes.plain_bind (only_assertUnique _ _ _) fun _ => ?_
  rw [← bind_pure (issue _)]
  exact Writes.commit rfl (fun _ => trivial) fun _ _ _ => rfl

theorem writes_change (id : ℕ) (payload : CustomerData) :
    Writes E (CustomerService.change id payload) := by
  refine Writes.plain_bind (Prog.only_stmt.mpr ⟨⟨rfl, rfl⟩, fun _ => trivial⟩) fun found => ?_
  cases found
  · exact writes_throw
  · exact Writes.plain_bind (only_assertUnique _ _ _) fun _ =>
      Writes.commit rfl (fun _ => trivial) fun _ _ _ => rfl

theorem Writes.dropAvatar {op : CustomerStmt} (hop : op.writes = true) (path : Option Bytes) :
    Writes E (issue op >>= fun _ => dropAvatar E path) :=
  .commit hop (fun _ => offRedis_of_plain (only_dropAvatar path))
    fun _ _ db => isOk_dropAvatar path db

theorem Writes.found {id : ℕ} {e : Failure} {f : CustomerRow → CustomerProg α}
    (hf : ∀ customer, Writes E (f customer)) : Writes E (do
      let customer ← issue (.findById id)
      match customer with
      | none => .throw e
      | some customer => f customer) := by
  refine Writes.plain_bind (Prog.only_stmt.mpr ⟨⟨rfl, rfl⟩, fun _ => trivial⟩) fun customer => ?_
  cases customer with
  | none => exact writes_throw
  | some customer => exact hf customer

theorem writes_remove (id : ℕ) : Writes E (CustomerService.remove E id) :=
  .found fun _ => .dropAvatar rfl _

theorem writes_clearAvatar (id : ℕ) : Writes E (CustomerService.clearAvatar E id) :=
  .found fun _ => .dropAvatar rfl _

theorem writes_storeAvatar (id : ℕ) (file : UploadedFile) :
    Writes E (CustomerService.storeAvatar E R id file) := by
  refine .found fun customer => ?_
  split
  · exact writes_throw
  · refine Writes.plain_bind (only_moveUploadedFile R file _) fun path => ?_
    cases path with
    | none => exact writes_throw
    | some path => exact .dropAvatar rfl _

end Writes

theorem exec_uncached : E.uncached.exec = E.exec := by
  funext op i db
  cases op <;> rfl

theorem writeOn_uncached {α β : Type} (before : CustomerProg α) (after : α → CustomerProg β) :
    writeOn E.uncached fresh before after >>= OnCache.reply = before >>= after := by
  have hcache : configured E.uncached = false := rfl
  rw [writeOn_reply, bump_eq]
  simp only [hcache, Bool.false_eq_true, if_false, Prog.ret_bind]

/-- The name of the entry that a list or the stats are stored under. -/
def ServiceCall.entry (E : CustomerEnv) : ServiceCall → Option Bytes
  | list keywords status page limit =>
    some (entryName (ascii "list") (E.sha1 (listKey keywords status page limit)))
  | stats => some (entryName (ascii "stats") [])
  | _ => none

/-- What the call comes to without a cache. -/
def ServiceCall.alone (E : CustomerEnv) (R : CustomerEntropy) (i : Int) (db : CustomerDb)
    (call : ServiceCall) : Except Failure CustomerResult × CustomerDb :=
  (call.toCall.prog E.uncached R).run E.uncached.exec i db

/-- What the cache delivers of this outcome. -/
def Computed (E : CustomerEnv) (outcome : Except Failure CustomerResult) (a : Cached) : Prop :=
  ∃ value, outcome = .ok (.cached value) ∧ Delivered E value a

section Calls

variable {V : Bytes → Cached → Prop} {c : CacheRedis} {w : Flaky} {call : ServiceCall}

/-- A list or the stats come to what they come to without a cache, or to a value of `V`. -/
def ReadEnds (E : CustomerEnv) (V : Bytes → Cached → Prop) (name : Bytes) (w : Flaky)
    (alone : Except Failure CustomerResult × CustomerDb) (r : OnCache CustomerResult)
    (w' : Flaky) : Prop :=
  Sound E (fun name' a => V name' a ∨ name' = name ∧ Computed E alone.1 a) r.2 w'
    ∧ SameRecords w.db w'.db ∧ (r.1 = alone.1 ∨ ∃ a, r.1 = .ok (.cached a) ∧ V name a)

/-- A writer comes to what it comes to without a cache, and where it has written, the cache has
nothing to serve. -/
def WriteEnds (E : CustomerEnv) (V : Bytes → Cached → Prop) (w : Flaky)
    (alone : Except Failure CustomerResult × CustomerDb) (r : OnCache CustomerResult)
    (w' : Flaky) : Prop :=
  r.1 = alone.1 ∧ SameRecords alone.2 w'.db ∧ Sound E V r.2 w'
    ∧ (r.1.isOk = true ∨ w'.db.customer ≠ w.db.customer → Sound E (fun _ _ => False) r.2 w')

theorem returns_map_cachedOn (h : Sound E V c w) {producer : CustomerProg Cached}
    (hreads : Prog.Only (fun op => op.reads = true) (fun _ => True) producer)
    (entity discriminator : Bytes) :
    Returns E faults i (OnCache.map .cached <$> cachedOn E R c entity discriminator producer) w
      (ReadEnds E V (entryName entity discriminator) w
        (((.cached : Cached → CustomerResult) <$> producer).run E.exec i w.db)) := by
  unfold ReadEnds
  rw [Prog.run_map]
  refine Prog.yields_map.mpr ((returns_cachedOn h hreads entity discriminator).mono ?_)
  rintro ⟨outcome, c'⟩ w' ⟨hsound, hsame, houtcome⟩
  refine ⟨hsound.mono fun name a ha => ?_, hsame, houtcome.imp ?_ ?_⟩
  · refine ha.imp_right fun ⟨hname, value, hvalue, hdelivered⟩ => ⟨hname, value, ?_, hdelivered⟩
    simp only [hvalue, Except.map]
  · rintro rfl
    rfl
  · rintro ⟨a, rfl, ha⟩
    exact ⟨a, rfl, ha⟩

theorem returns_map_writeOn (h : Sound E V c w) {α β : Type} {before : CustomerProg α}
    {after : α → CustomerProg β} (hbefore : Writes E before)
    (hafter : ∀ a, Prog.Only CustomerStmt.Plain (fun _ => True) (after a))
    (f : β → CustomerResult) :
    Returns E faults i (OnCache.map f <$> writeOn E c before after) w
      (WriteEnds E V w ((f <$> (before >>= after)).run E.exec i w.db)) := by
  unfold WriteEnds
  rw [Prog.run_map]
  refine Prog.yields_map.mpr ((returns_writeOn h hbefore.offRedis
    fun a => offRedis_of_plain (hafter a)).mono ?_)
  rintro ⟨outcome, c'⟩ w' ⟨rfl, hsame, hsound, hnone⟩
  refine ⟨rfl, hsame, hsound, fun hwritten => ?_⟩
  rcases hrun : before.run E.exec i w.db with ⟨e | a, db⟩
  · -- It has thrown, and left the table as it was.
    have hkept := hbefore.unchanged i w.db e (by rw [hrun])
    obtain ⟨hcustomer, -⟩ := hsame
    rw [Prog.run_bind, hrun] at hcustomer hwritten
    rw [hrun] at hkept
    rcases hwritten with hok | hchanged
    · cases hok
    · exact absurd (hcustomer.trans hkept) hchanged
  · exact hnone a (by rw [hrun])

theorem returns_read {name : Bytes} (h : Sound E V c w) (hname : call.entry E = some name) :
    Returns E faults i (call.on E R c) w (ReadEnds E V name w (call.alone E R i w.db)) := by
  unfold ServiceCall.alone
  rw [exec_uncached]
  cases call with
  | list keywords status page limit =>
    obtain rfl := Option.some.inj hname
    rw [ServiceCall.toCall, CustomerCall.prog, CustomerService.list_uncached rfl]
    exact returns_map_cachedOn h (only_loadList keywords status page limit) _ _
  | stats =>
    obtain rfl := Option.some.inj hname
    rw [ServiceCall.toCall, CustomerCall.prog, CustomerService.stats_uncached rfl]
    exact returns_map_cachedOn h only_loadStats _ _
  | _ => cases hname

theorem returns_write (h : Sound E V c w) (hname : call.entry E = none) :
    Returns E faults i (call.on E R c) w (WriteEnds E V w (call.alone E R i w.db)) := by
  unfold ServiceCall.alone
  rw [exec_uncached, prog_eq_on]
  cases call with
  | create dto =>
    simp only [ServiceCall.on, map_reply, CustomerService.createOn, writeOn_uncached]
    exact returns_map_writeOn h (writes_insert dto) (fun id => only_serviceGet id) _
  | update id payload =>
    simp only [ServiceCall.on, map_reply, CustomerService.updateOn, writeOn_uncached]
    exact returns_map_writeOn h (writes_change id payload) (fun _ => only_serviceGet id) _
  | delete id =>
    simp only [ServiceCall.on, map_reply, CustomerService.deleteOn, writeOn_uncached]
    exact returns_map_writeOn h (writes_remove id) (fun _ => Prog.only_ret.mpr trivial) _
  | uploadAvatar id file =>
    simp only [ServiceCall.on, map_reply, CustomerService.uploadAvatarOn, writeOn_uncached]
    exact returns_map_writeOn h (writes_storeAvatar id file) (fun _ => only_serviceGet id) _
  | removeAvatar id =>
    simp only [ServiceCall.on, map_reply, CustomerService.removeAvatarOn, writeOn_uncached]
    exact returns_map_writeOn h (writes_clearAvatar id) (fun _ => only_serviceGet id) _
  | _ => cases hname

end Calls

/-! ## Visits -/

namespace Visit

variable (E : CustomerEnv) (p : Visit)

/-- What the call comes to without a cache. -/
def alone : Except Failure CustomerResult × CustomerDb :=
  p.call.alone E p.entropy p.instant p.before

/-- The call of a writer returned, or it has changed the table. -/
def Wrote : Prop :=
  p.call.entry E = none ∧ (p.outcome.isOk = true ∨ p.after.customer ≠ p.before.customer)

/-- The call ended as it would without a cache, but that a list or the stats may be a value of
`V`. -/
structure Ends (V : Bytes → Cached → Prop) : Prop where
  writer : p.call.entry E = none → p.outcome = (p.alone E).1 ∧ SameRecords (p.alone E).2 p.after
  reader : ∀ name, p.call.entry E = some name → SameRecords p.before p.after
    ∧ (p.outcome = (p.alone E).1 ∨ ∃ a, p.outcome = .ok (.cached a) ∧ V name a)

end Visit

/-- `V`, and what the visits have computed. -/
def Kept (E : CustomerEnv) (V : Bytes → Cached → Prop) (visits : List Visit) (name : Bytes)
    (a : Cached) : Prop :=
  V name a ∨ ∃ p ∈ visits, p.call.entry E = some name ∧ Computed E (p.alone E).1 a

section Sessions

variable {V : Bytes → Cached → Prop} {s : CustomerSession} {p : Visit} {l : List Visit}

theorem Kept.cons {name : Bytes} {a : Cached} (h : Kept E (Kept E V [p]) l name a) :
    Kept E V (p :: l) name a := by
  rcases h with (h | ⟨q, hq, hentry, ha⟩) | ⟨q, hq, hentry, ha⟩
  · exact .inl h
  · obtain rfl := List.mem_singleton.mp hq
    exact .inr ⟨q, by simp, hentry, ha⟩
  · exact .inr ⟨q, by simp [hq], hentry, ha⟩

theorem Visit.Ends.error (h : p.Ends E V) {e : Failure} (he : p.outcome = .error e) :
    (p.alone E).1 = .error e := by
  cases hentry : p.call.entry E with
  | none => exact (h.writer hentry).1.symm.trans he
  | some name =>
    rcases (h.reader name hentry).2 with halone | ⟨a, ha, -⟩
    · exact halone.symm.trans he
    · rw [he] at ha
      cases ha

theorem Visit.Ends.mono {V' : Bytes → Cached → Prop} (h : p.Ends E V)
    (hV : ∀ name a, V name a → V' name a) : p.Ends E V' :=
  ⟨h.writer, fun name hname => (h.reader name hname).imp_right fun hends =>
    hends.imp_right fun ⟨a, ha, hVa⟩ => ⟨a, ha, hV name a hVa⟩⟩

/-- What serving a request shows, and what it keeps. -/
theorem serve_spec (faults : ℕ → Fault) (h : Sound E V s.cache s.world) (call : ServiceCall)
    (R : CustomerEntropy) (i : Int) :
    let r := s.serve E faults call R i
    r.1.before = s.world.db ∧ r.1.after = r.2.world.db ∧ r.1.Ends E V
      ∧ Sound E (Kept E V [r.1]) r.2.cache r.2.world
      ∧ (r.1.Wrote E → Sound E (fun _ _ => False) r.2.cache r.2.world) := by
  cases hentry : call.entry E with
  | none =>
    have hreturns : Returns E faults i (call.on E R s.cache) s.world _ := returns_write h hentry
    obtain ⟨⟨outcome, c⟩, w, hrun, houtcome, hsame, hsound, hnone⟩ := Prog.yields_iff.mp hreturns
    unfold CustomerSession.serve
    rw [hrun]
    refine ⟨rfl, rfl, ⟨fun _ => ⟨houtcome, hsame⟩, fun name hname => ?_⟩,
      hsound.mono fun _ _ ha => .inl ha, fun hwrote => hnone hwrote.2⟩
    rw [hentry] at hname
    cases hname
  | some name =>
    have hreturns : Returns E faults i (call.on E R s.cache) s.world _ := returns_read h hentry
    obtain ⟨⟨outcome, c⟩, w, hrun, hsound, hsame, houtcome⟩ := Prog.yields_iff.mp hreturns
    unfold CustomerSession.serve
    rw [hrun]
    refine ⟨rfl, rfl, ⟨fun hnone => ?_, fun name' hname => ?_⟩, hsound.mono fun name' a ha => ?_,
      fun hwrote => ?_⟩
    · rw [hentry] at hnone
      cases hnone
    · obtain rfl := Option.some.inj (hentry.symm.trans hname)
      exact ⟨hsame, houtcome⟩
    · refine ha.imp_right ?_
      rintro ⟨rfl, hcomputed⟩
      exact ⟨_, List.mem_singleton_self _, hentry, hcomputed⟩
    · have hnone : call.entry E = none := hwrote.1
      rw [hentry] at hnone
      cases hnone

/-- A session keeps to what the cache may serve, and what it serves was kept or computed on the
way. -/
theorem serveAll_spec (faults : ℕ → Fault) (requests : List (ServiceCall × CustomerEntropy × Int))
    (h : Sound E V s.cache s.world) :
    let r := s.serveAll E faults requests
    Sound E (Kept E V r.1) r.2.cache r.2.world
      ∧ (∀ p ∈ r.1.head?, p.before = s.world.db)
      ∧ r.1.IsChain (fun p q => q.before = p.after)
      ∧ ∀ l₁ p l₂, r.1 = l₁ ++ p :: l₂ → p.Ends E (Kept E V l₁) := by
  induction requests generalizing s V with
  | nil =>
    exact ⟨h.mono fun _ _ ha => .inl ha, by simp [CustomerSession.serveAll], .nil,
      by simp [CustomerSession.serveAll]⟩
  | cons request requests ih =>
    obtain ⟨call, R, i⟩ := request
    obtain ⟨hbefore, hafter, hends, hsound, -⟩ := serve_spec faults h call R i
    obtain ⟨hfinal, hhead, hchain, hrest⟩ := ih hsound
    refine ⟨hfinal.mono fun _ _ ha => ha.cons, ?_, ?_, ?_⟩
    · simpa [CustomerSession.serveAll] using hbefore
    · refine List.isChain_cons.mpr ⟨fun q hq => ?_, hchain⟩
      exact (hhead q hq).trans hafter.symm
    · intro l₁ p l₂ heq
      rcases l₁ with _ | ⟨q, l₁⟩
      · obtain ⟨rfl, -⟩ := List.cons.inj heq
        exact hends.mono fun _ _ ha => .inl ha
      · obtain ⟨rfl, htail⟩ := List.cons.inj heq
        exact (hrest l₁ p l₂ htail).mono fun _ _ ha => ha.cons

/-- After a write, only what was computed after it is served. -/
theorem ends_after_write {requests : List (ServiceCall × CustomerEntropy × Int)}
    (h : Sound E V s.cache s.world) {l₀ l₁ l₂ : List Visit} {w v : Visit}
    (heq : (s.serveAll E faults requests).1 = l₀ ++ w :: (l₁ ++ v :: l₂)) (hw : w.Wrote E) :
    v.Ends E (Kept E (fun _ _ => False) l₁) := by
  induction requests generalizing s V l₀ with
  | nil => simp [CustomerSession.serveAll] at heq
  | cons request requests ih =>
    obtain ⟨call, R, i⟩ := request
    obtain ⟨-, -, -, hsound, hnone⟩ := serve_spec faults h call R i
    rcases l₀ with _ | ⟨q, l₀⟩
    · obtain ⟨rfl, htail⟩ := List.cons.inj heq
      obtain ⟨-, -, -, hrest⟩ := serveAll_spec faults requests (hnone hw)
      exact hrest l₁ v l₂ htail
    · obtain ⟨-, htail⟩ := List.cons.inj heq
      exact ih hsound htail

theorem Sound.generations {c : CacheRedis} {w : Flaky} (h : Sound E V c w) :
    ∃ n, Generations E (fun _ _ => True) n w.db.redis := by
  obtain ⟨n, hn, -⟩ := h.store
  exact ⟨n, hn.mono fun _ _ _ => trivial⟩

theorem sound_start {db : CustomerDb} {n : ℕ} (h : Generations E (fun _ _ => True) n db.redis) :
    Sound E (fun _ _ => True) (CustomerSession.start db).cache
      (CustomerSession.start db).world where
  commands := .nil
  enabled := by simp [CustomerSession.start]
  store := ⟨n, h.mono fun _ _ _ _ => trivial, by simp [CustomerSession.start, fresh]⟩

end Sessions

/-- Every run of the requests and the jobs, from an empty Redis, leads to generations. -/
theorem generations_of_steps {db : CustomerDb} {now : Int} {s : CustomerPool}
    (hdb : db.redis = Redis.empty)
    (run : Pool.Steps E.exec (CustomerPool.start E) (CustomerPool.VersionKept E)
      (CustomerPool.idle db now) s) : ∃ n, Generations E (fun _ _ => True) n s.db.redis := by
  obtain ⟨hf, n, hn⟩ := counted_steps hdb run
  refine ⟨n, hn.le, hn.counts, fun v name entry hentry => ?_⟩
  have hkey : CustomerKey E v (entryKey E v name) := ⟨name, rfl⟩
  obtain ⟨x, hx, hstored⟩ := hn.entries _ entry hkey.ne hentry
  obtain ⟨ttl, hop⟩ := exists_setex_of_stored hstored
  obtain ⟨g, hg, -, hread, -⟩ := exists_readVersion_of_key hf hx hkey (.inr ⟨ttl, _, hop⟩)
  have hle := hn.version_le g hg v hread
  rcases hle.lt_or_eq with hlt | rfl
  · exact .inl hlt
  · exact .inr ⟨rfl, fun _ _ => trivial⟩

/-- So does every session, from where it starts. -/
theorem generations_serveAll {db : CustomerDb} {n : ℕ}
    (h : Generations E (fun _ _ => True) n db.redis)
    (requests : List (ServiceCall × CustomerEntropy × Int)) :
    ∃ n', Generations E (fun _ _ => True) n'
      ((CustomerSession.start db).serveAll E faults requests).2.world.db.redis :=
  (serveAll_spec faults requests (sound_start h)).1.generations

/-- Visits of a service whose cache fails open, and the commands it issued, the last one first. -/
structure FailsOpen (E : CustomerEnv) (db : CustomerDb) (visits : List Visit)
    (commands : List Command) : Prop where
  exceptions : ∀ p ∈ visits, ∀ e, p.outcome = .error e → (p.alone E).1 = .error e
  writers : ∀ p ∈ visits, p.call.entry E = none →
    p.outcome = (p.alone E).1 ∧ SameRecords (p.alone E).2 p.after
  readers : ∀ p ∈ visits, p.call.entry E ≠ none → SameRecords p.before p.after
  commands : commands.Pairwise fun _ earlier => earlier.failed = false
  head : ∀ p ∈ visits.head?, p.before = db
  chain : visits.IsChain fun p q => q.before = p.after
  fresh : ∀ l₀ w l₁ v l₂, visits = l₀ ++ w :: (l₁ ++ v :: l₂) → w.Wrote E →
    ∀ a, v.outcome = .ok (.cached a) →
      ∃ p ∈ l₁ ++ [v], p.call.entry E = v.call.entry E ∧ Computed E (p.alone E).1 a

/-- What is served was computed in this visit, or in one of those before it. -/
theorem Visit.Ends.exists_computed {v : Visit} {l : List Visit}
    (h : v.Ends E (Kept E (fun _ _ => False) l)) {a : Cached} (ha : v.outcome = .ok (.cached a)) :
    ∃ p ∈ l ++ [v], p.call.entry E = v.call.entry E ∧ Computed E (p.alone E).1 a := by
  have hself : v.outcome = (v.alone E).1 →
      ∃ p ∈ l ++ [v], p.call.entry E = v.call.entry E ∧ Computed E (p.alone E).1 a :=
    fun halone => ⟨v, by simp, rfl, a, halone.symm.trans ha, .inl rfl⟩
  cases hentry : v.call.entry E with
  | none => exact hentry ▸ hself (h.writer hentry).1
  | some name =>
    rcases (h.reader name hentry).2 with halone | ⟨b, hb, hkept⟩
    · exact hentry ▸ hself halone
    · obtain rfl : a = b := by
        rw [ha] at hb
        injection hb with hb
        injection hb
      obtain ⟨p, hp, hname, hcomputed⟩ := hkept.resolve_left id
      exact ⟨p, by simp [hp], hname, hcomputed⟩

/-- Whatever becomes of the commands of Redis, the cache of a service fails open. -/
theorem cache_fails_open (E : CustomerEnv) (faults : ℕ → Fault) (db : CustomerDb) (n : ℕ)
    (h : Generations E (fun _ _ => True) n db.redis)
    (requests : List (ServiceCall × CustomerEntropy × Int)) :
    let r := (CustomerSession.start db).serveAll E faults requests
    FailsOpen E db r.1 r.2.world.commands := by
  have hstart := sound_start h
  obtain ⟨hsound, hhead, hchain, hends⟩ := serveAll_spec faults requests hstart
  have hall : ∀ p ∈ ((CustomerSession.start db).serveAll E faults requests).1,
      ∃ V, p.Ends E V := by
    intro p hp
    obtain ⟨l₁, l₂, heq⟩ := List.append_of_mem hp
    exact ⟨_, hends l₁ p l₂ heq⟩
  refine ⟨?_, ?_, ?_, hsound.commands, hhead, hchain, ?_⟩
  · intro p hp e he
    obtain ⟨V, hV⟩ := hall p hp
    exact hV.error he
  · intro p hp hentry
    obtain ⟨V, hV⟩ := hall p hp
    exact hV.writer hentry
  · intro p hp hentry
    obtain ⟨V, hV⟩ := hall p hp
    obtain ⟨name, hname⟩ := Option.ne_none_iff_exists'.mp hentry
    exact (hV.reader name hname).1
  · intro l₀ w l₁ v l₂ heq hw a ha
    exact (ends_after_write hstart heq hw).exists_computed ha

/-! ## A sample session -/

namespace CustomerSample

/-- The fourth command, the `INCR` of the write, throws. -/
def fourthFails (k : ℕ) : Fault := if k = 3 then .before (.runtime "Connection refused") else .none

/-- The stats, a new customer, and the stats again. -/
def visits : List Visit × CustomerSession :=
  (CustomerSession.start db).serveAll env fourthFails
    [(.stats, entropy, 1000), (.create (customer (ascii "Ada")), entropy, 1001),
      (.stats, entropy, 1002)]

end CustomerSample

open CustomerSample in
theorem cache_fails_open_sample :
    visits.1.filterMap (fun p => match p.outcome with
        | .ok (.cached (.stats s)) => some s
        | _ => none) = [leads 0, leads 1]
      ∧ visits.2.world.commands.map (·.failed) = [true, false, false, false]
      ∧ FailsOpen env db visits.1 visits.2.world.commands :=
  ⟨by decide +kernel, by decide +kernel,
    cache_fails_open env fourthFails db 0 (Generations.empty _) _⟩

end SlimStarter
