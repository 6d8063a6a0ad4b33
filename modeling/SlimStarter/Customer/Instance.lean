import SlimStarter.Lib.Yields
import SlimStarter.Customer.Pages

/-!
# A `CustomerService` with one instance of the cache

A service keeps its instance of `CacheRedis` from call to call, through its exceptions too. The
operations here take the instance and return it next to their outcome; a new instance for each call
gives the operations of `CustomerService` back (`prog_eq_on`).

`CustomerEnv.flaky` is a Redis whose commands can each throw, before they take effect or after, and
`CustomerSession` a service that serves one request after the other on such a Redis.
-/

namespace SlimStarter

open CacheRedis (fresh namespaced)
open CustomerService (cacheNamespace cacheTtl assertUnique avatarPath dropAvatar listKey loadList
  loadStats)

/-- The calls of a service that go through its cache. -/
inductive ServiceCall where
  | list (keywords : Bytes) (status : Option Bytes) (page limit : Int)
  | stats
  | create (dto : CustomerData)
  | update (id : ℕ) (payload : CustomerData)
  | delete (id : ℕ)
  | uploadAvatar (id : ℕ) (file : UploadedFile)
  | removeAvatar (id : ℕ)
deriving DecidableEq, Repr

/-- The call as one of those that the requests make. -/
def ServiceCall.toCall : ServiceCall → CustomerCall
  | list keywords status page limit => .list keywords status page limit
  | stats => .stats
  | create dto => .create dto
  | update id payload => .update id payload
  | delete id => .delete id
  | uploadAvatar id file => .uploadAvatar id file
  | removeAvatar id => .removeAvatar id

/-- The outcome of an operation and the instance of the cache after it. -/
abbrev OnCache (α : Type) : Type := Except Failure α × CacheRedis

namespace CacheRedis

variable (E : CustomerEnv) (R : CustomerEntropy) (c : CacheRedis)

/-- `rememberJson`, where the producer may throw. -/
def rememberOn (key : Bytes) (expire : Int) (producer : CustomerProg Cached) :
    CustomerProg (OnCache Cached) := do
  let (cached, c) ← getJson E c key
  match cached with
  | some cached => pure (.ok cached, c)
  | none => do
    let value ← Prog.capture producer
    match value with
    | .error e => pure (.error e, c)
    | .ok value => do
      let (_, c) ← setJson E R c key value expire
      pure (.ok value, c)

end CacheRedis

namespace CustomerService

variable (E : CustomerEnv) (R : CustomerEntropy) (c : CacheRedis)

/-- What `list` and `stats` have in common. -/
def cachedOn (entity discriminator : Bytes) (producer : CustomerProg Cached) :
    CustomerProg (OnCache Cached) := do
  let (cacheKey, c) ← namespaced E c cacheNamespace entity discriminator
  CacheRedis.rememberOn E R c cacheKey cacheTtl producer

def listOn (keywords : Bytes) (status : Option Bytes) (page limit : Int) :
    CustomerProg (OnCache Cached) :=
  cachedOn E R c (ascii "list") (E.sha1 (listKey keywords status page limit))
    (loadList E keywords status page limit)

def statsOn : CustomerProg (OnCache Cached) := cachedOn E R c (ascii "stats") [] (loadStats E)

/-- What the writers have in common: a part before the `bump`, and one after it. -/
def writeOn {α β : Type} (before : CustomerProg α) (after : α → CustomerProg β) :
    CustomerProg (OnCache β) := do
  let written ← Prog.capture before
  match written with
  | .error e => pure (.error e, c)
  | .ok a => do
    let (_, c) ← CacheRedis.bump E c cacheNamespace
    let result ← Prog.capture (after a)
    pure (result, c)

/-- `create` up to the `bump`. -/
def insert (dto : CustomerData) : CustomerProg ℕ := do
  assertUnique dto.name dto.email none
  issue (.create dto)

/-- `update` up to the `bump`. -/
def change (id : ℕ) (payload : CustomerData) : CustomerProg Unit := do
  let found ← issue (.exists id)
  if found then do
    assertUnique payload.name payload.email (some id)
    let _ ← issue (.update id (.data payload))
    pure ()
  else .throw (.notFoundException "Customer not found.")

/-- `delete` up to the `bump`. -/
def remove (id : ℕ) : CustomerProg Unit := do
  let customer ← issue (.findById id)
  match customer with
  | none => .throw (.notFoundException "Customer not found.")
  | some customer => do
    let _ ← issue (.deleteById id)
    dropAvatar E (avatarPath customer)

/-- `uploadAvatar` up to the `bump`. -/
def storeAvatar (id : ℕ) (file : UploadedFile) : CustomerProg Unit := do
  let customer ← issue (.findById id)
  match customer with
  | none => .throw (.notFoundException "Customer not found.")
  | some customer =>
    match avatarError E file with
    | some e => .throw e
    | none => do
      let path ← UploadHelper.moveUploadedFile E R file (ascii "avatars")
      match path with
      | none => .throw (.appException "The avatar could not be stored."
          HttpStatus.internalServerError)
      | some path => do
        let _ ← issue (.update id (.avatarPath (some path)))
        dropAvatar E ((avatarPath customer).filter (· ≠ path))

/-- `removeAvatar` up to the `bump`. -/
def clearAvatar (id : ℕ) : CustomerProg Unit := do
  let customer ← issue (.findById id)
  match customer with
  | none => .throw (.notFoundException "Customer not found.")
  | some customer => do
    let _ ← issue (.update id (.avatarPath none))
    dropAvatar E (avatarPath customer)

def createOn (dto : CustomerData) : CustomerProg (OnCache PublicCustomer) :=
  writeOn E c (insert dto) (get E)

def updateOn (id : ℕ) (payload : CustomerData) : CustomerProg (OnCache PublicCustomer) :=
  writeOn E c (change id payload) fun _ => get E id

def deleteOn (id : ℕ) : CustomerProg (OnCache Unit) := writeOn E c (remove E id) fun _ => pure ()

def uploadAvatarOn (id : ℕ) (file : UploadedFile) : CustomerProg (OnCache PublicCustomer) :=
  writeOn E c (storeAvatar E R id file) fun _ => get E id

def removeAvatarOn (id : ℕ) : CustomerProg (OnCache PublicCustomer) :=
  writeOn E c (clearAvatar E id) fun _ => get E id

end CustomerService

open CustomerService

/-- The outcome of an operation as one of a call. -/
def OnCache.map {α : Type} (f : α → CustomerResult) (r : OnCache α) : OnCache CustomerResult :=
  (r.1.map f, r.2)

/-- The program of a call on this instance. -/
def ServiceCall.on (E : CustomerEnv) (R : CustomerEntropy) (c : CacheRedis) :
    ServiceCall → CustomerProg (OnCache CustomerResult)
  | list keywords status page limit =>
    OnCache.map .cached <$> listOn E R c keywords status page limit
  | stats => OnCache.map .cached <$> statsOn E R c
  | create dto => OnCache.map .customer <$> createOn E c dto
  | update id payload => OnCache.map .customer <$> updateOn E c id payload
  | delete id => OnCache.map (fun _ => .void) <$> deleteOn E c id
  | uploadAvatar id file => OnCache.map .customer <$> uploadAvatarOn E R c id file
  | removeAvatar id => OnCache.map .customer <$> removeAvatarOn E c id

/-- Return the outcome, or throw it. -/
def OnCache.reply {α : Type} (r : OnCache α) : CustomerProg α :=
  match r.1 with
  | .ok a => pure a
  | .error e => .throw e

section Fresh

variable {E : CustomerEnv} {R : CustomerEntropy} {c : CacheRedis}

theorem rememberOn_reply (key : Bytes) (expire : Int) (producer : CustomerProg Cached) :
    CacheRedis.rememberOn E R c key expire producer >>= OnCache.reply =
      Prod.fst <$> CacheRedis.rememberJson E R c key expire producer := by
  unfold CacheRedis.rememberOn CacheRedis.rememberJson
  rw [bind_assoc, map_bind]
  refine bind_congr ?_
  rintro ⟨_ | cached, c'⟩
  · simp only [bind_assoc]
    rw [Prog.capture_bind fun e => rfl, map_bind]
    refine bind_congr fun value => ?_
    simp only [bind_assoc, map_bind]
    rfl
  · rfl

theorem cachedOn_reply (entity discriminator : Bytes) (producer : CustomerProg Cached) :
    cachedOn E R fresh entity discriminator producer >>= OnCache.reply = (do
      let (cacheKey, cache) ← namespaced E fresh cacheNamespace entity discriminator
      let (result, _) ← CacheRedis.rememberJson E R cache cacheKey cacheTtl producer
      pure result) := by
  unfold cachedOn
  rw [bind_assoc]
  refine bind_congr fun r => ?_
  rw [rememberOn_reply, ← bind_pure_comp]

theorem writeOn_reply {α β : Type} (before : CustomerProg α) (after : α → CustomerProg β) :
    writeOn E fresh before after >>= OnCache.reply = (do
      let a ← before
      bump E
      after a) := by
  unfold writeOn bump
  rw [bind_assoc, Prog.capture_bind fun e => rfl]
  refine bind_congr fun a => ?_
  simp only [bind_assoc]
  refine bind_congr fun r => ?_
  rw [Prog.capture_bind fun e => rfl]
  exact bind_pure _

theorem map_reply {α : Type} (f : α → CustomerResult) (p : CustomerProg (OnCache α)) :
    (OnCache.map f <$> p) >>= OnCache.reply = f <$> (p >>= OnCache.reply) := by
  rw [bind_map_left, map_bind]
  refine bind_congr ?_
  rintro ⟨_ | a, c⟩ <;> rfl

theorem create_eq (dto : CustomerData) :
    CustomerService.create E dto = createOn E fresh dto >>= OnCache.reply := by
  rw [createOn, writeOn_reply]
  unfold CustomerService.insert
  rw [bind_assoc]
  rfl

theorem update_eq (id : ℕ) (payload : CustomerData) :
    CustomerService.update E id payload = updateOn E fresh id payload >>= OnCache.reply := by
  rw [updateOn, writeOn_reply, change, bind_assoc, CustomerService.update]
  refine bind_congr fun found => ?_
  cases found
  · rfl
  · simp only [if_true, bind_assoc]
    rfl

theorem delete_eq (id : ℕ) :
    CustomerService.delete E id = deleteOn E fresh id >>= OnCache.reply := by
  rw [deleteOn, writeOn_reply, remove, bind_assoc, CustomerService.delete]
  refine bind_congr ?_
  rintro (_ | customer)
  · rfl
  · simp only [bind_assoc]
    refine bind_congr fun _ => bind_congr fun _ => ?_
    exact (bind_pure _).symm

theorem uploadAvatar_eq (id : ℕ) (file : UploadedFile) :
    CustomerService.uploadAvatar E R id file =
      uploadAvatarOn E R fresh id file >>= OnCache.reply := by
  rw [uploadAvatarOn, writeOn_reply, storeAvatar, bind_assoc, CustomerService.uploadAvatar]
  refine bind_congr ?_
  rintro (_ | customer)
  · rfl
  · cases avatarError E file with
    | some e => rfl
    | none =>
      simp only [bind_assoc]
      refine bind_congr ?_
      rintro (_ | path)
      · rfl
      · simp only [bind_assoc]

theorem removeAvatar_eq (id : ℕ) :
    CustomerService.removeAvatar E id = removeAvatarOn E fresh id >>= OnCache.reply := by
  rw [removeAvatarOn, writeOn_reply, clearAvatar, bind_assoc, CustomerService.removeAvatar]
  refine bind_congr ?_
  rintro (_ | customer)
  · rfl
  · simp only [bind_assoc]

/-- With a new instance of the cache, a call is what the requests make. -/
theorem prog_eq_on (call : ServiceCall) :
    call.toCall.prog E R = call.on E R fresh >>= OnCache.reply := by
  cases call with
  | list keywords status page limit =>
    rw [ServiceCall.on, map_reply, listOn, cachedOn_reply]
    rfl
  | stats =>
    rw [ServiceCall.on, map_reply, statsOn, cachedOn_reply]
    rfl
  | create dto => rw [ServiceCall.on, map_reply, ← create_eq]; rfl
  | update id payload => rw [ServiceCall.on, map_reply, ← update_eq]; rfl
  | delete id => rw [ServiceCall.on, map_reply, ← delete_eq]; rfl
  | uploadAvatar id file => rw [ServiceCall.on, map_reply, ← uploadAvatar_eq]; rfl
  | removeAvatar id => rw [ServiceCall.on, map_reply, ← removeAvatar_eq]; rfl

end Fresh

/-! ## A Redis that fails -/

/-- What becomes of a command: it is executed, or it throws before or after it takes effect. -/
inductive Fault where
  | none
  | before (e : Failure)
  | after (e : Failure)
deriving Repr

/-- A command that was issued, and whether it threw. -/
structure Command where
  op : CustomerStmt
  failed : Bool
deriving DecidableEq, Repr

/-- The database, and the commands that were issued, the last one first. -/
structure Flaky where
  db : CustomerDb
  commands : List Command

/-- Execute one statement, where the faults say what becomes of each command of Redis. -/
def CustomerEnv.flaky (E : CustomerEnv) (faults : ℕ → Fault) :
    Prog.Handler CustomerStmt CustomerStmt.Res Int Failure Flaky :=
  fun op i w =>
    let executed := E.exec op i w.db
    if op.onRedis then
      match faults w.commands.length with
      | .none => (executed.1, ⟨executed.2, ⟨op, !executed.1.isOk⟩ :: w.commands⟩)
      | .before e => (.error e, ⟨w.db, ⟨op, true⟩ :: w.commands⟩)
      | .after e => (.error e, ⟨executed.2, ⟨op, true⟩ :: w.commands⟩)
    else (executed.1, { w with db := executed.2 })

/-! ## Sessions -/

/-- A service: its instance of the cache, and what it works on. -/
structure CustomerSession where
  cache : CacheRedis
  world : Flaky

/-- A call that has ended: the database before it and after it, and what it came to. -/
structure Visit where
  call : ServiceCall
  entropy : CustomerEntropy
  instant : Int
  before : CustomerDb
  after : CustomerDb
  outcome : Except Failure CustomerResult

namespace CustomerSession

variable (E : CustomerEnv) (faults : ℕ → Fault)

/-- A service with a new instance of the cache. -/
def start (db : CustomerDb) : CustomerSession := ⟨fresh, db, []⟩

/-- Serve one request. Where the cache throws, the exception is what the call comes to. -/
def serve (s : CustomerSession) (call : ServiceCall) (R : CustomerEntropy) (i : Int) :
    Visit × CustomerSession :=
  match (call.on E R s.cache).run (E.flaky faults) i s.world with
  | (.ok (outcome, cache), world) => (⟨call, R, i, s.world.db, world.db, outcome⟩, ⟨cache, world⟩)
  | (.error e, world) => (⟨call, R, i, s.world.db, world.db, .error e⟩, ⟨s.cache, world⟩)

/-- Serve these requests, one after the other. -/
def serveAll (s : CustomerSession) :
    List (ServiceCall × CustomerEntropy × Int) → List Visit × CustomerSession
  | [] => ([], s)
  | (call, R, i) :: requests =>
    let (visit, s) := serve E faults s call R i
    let (visits, s) := serveAll s requests
    (visit :: visits, s)

end CustomerSession

end SlimStarter
