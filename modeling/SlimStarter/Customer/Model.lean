import Mathlib.Data.List.Sort
import SlimStarter.Lib.Prog
import SlimStarter.Lib.Table
import SlimStarter.Redis

/-!
# Customers

The `customer` table with the methods of `CustomerModel`, and what else the customer code issues:
Redis commands, operations on files, and the progress callback of a job. `CustomerStmt` names these
statements and `CustomerEnv.exec` executes one at an instant.

The database compares strings by their weights: byte equality on SQLite is the identity weight, and
`utf8mb4_unicode_ci` gives equal weights to texts that differ in case or accents only. The other
functions of PHP, of the database and of the JSON extension that the code only passes values
through are fields of `CustomerEnv` too, as are the settings it reads.
-/

namespace SlimStarter

/-- The fields of `CustomerCreateRequest`, of its `toArray()` and of a parsed import row. -/
structure CustomerData where
  name : Bytes
  email : Option Bytes
  phone : Option Bytes
  company : Option Bytes
  status : Bytes
  address : Option Bytes
  notes : Option Bytes
deriving DecidableEq, Repr

/-- A row as `createMany` takes it. -/
structure NewCustomer extends CustomerData where
  avatarPath : Option Bytes
  createdAt : LocalTime
  updatedAt : LocalTime
deriving DecidableEq, Repr

structure CustomerRow extends CustomerData where
  id : ℕ
  avatarPath : Option Bytes
  createdAt : LocalTime
  updatedAt : Option LocalTime
  deletedAt : Option LocalTime
deriving DecidableEq, Repr

/-- A row that was inserted with these columns. -/
def NewCustomer.row (c : NewCustomer) (id : ℕ) : CustomerRow :=
  { c with id, updatedAt := some c.updatedAt, deletedAt := none }

namespace CustomerStatus

def lead : Bytes := ascii "lead"
def prospect : Bytes := ascii "prospect"
def active : Bytes := ascii "active"
def inactive : Bytes := ascii "inactive"

/-- `CustomerStatus::DEFAULT`. -/
def default : Bytes := lead

def all : List Bytes := [lead, prospect, active, inactive]

def isValid (status : Bytes) : Bool := status ∈ all

end CustomerStatus

/-- What `toPublicArray` makes of a row. -/
structure PublicCustomer extends CustomerData where
  id : ℕ
  avatarUrl : Option Bytes
  createdAt : Option LocalTime
  updatedAt : Option LocalTime
deriving DecidableEq, Repr

structure CustomerList where
  data : List PublicCustomer
  totalData : ℕ
  totalPage : Int
deriving DecidableEq, Repr

structure CustomerStats where
  total : ℕ
  byStatus : List (Bytes × ℕ)
  createdLast7Days : ℕ
deriving DecidableEq, Repr

/-- The arrays that go through the cache. -/
inductive Cached where
  | list (l : CustomerList)
  | stats (s : CustomerStats)
deriving DecidableEq, Repr

/-- `weight` is the sort key by which the database compares strings, `lower` its `LOWER`, and `like`
its `LIKE ... ESCAPE '\'` on a subject and a pattern. `jsonEncode` is `none` where `json_encode`
fails, `jsonDecode` where the text is not that of an array. `putObject` says whether the object
storage accepts an upload. -/
structure CustomerEnv where
  zone : Zone
  weight : Bytes → Bytes
  lower : Bytes → Bytes
  like : Bytes → Bytes → Bool
  sha1 : Bytes → Bytes
  mbStrtolower : Bytes → Bytes
  filterVarEmail : Bytes → Bool
  jsonEncode : Cached → Option Bytes
  jsonDecode : Bytes → Option Cached
  redisServerHost : Bytes
  redisServerPort : Bytes
  redisServerPrefix : Bytes
  defaultUploadTarget : Bytes
  uploadDirectory : Bytes
  putObject : Bytes → Bool
  appBaseUrl : Bytes
  uploadAvatarMaxBytes : Int
  uploadAvatarExtensions : Bytes
  storageRoot : Bytes

/-- The table, the Redis keys and the files. The files are keyed by the bytes of their
canonical absolute paths: the code makes no other spelling of one. -/
structure CustomerDb where
  customer : Table CustomerRow
  redis : Redis.Store
  files : Bytes → Option Bytes

/-- The columns an `update` sets next to `updated_at`. -/
inductive CustomerChange where
  | data (d : CustomerData)
  | avatarPath (path : Option Bytes)
deriving DecidableEq, Repr

def CustomerChange.apply (change : CustomerChange) (r : CustomerRow) : CustomerRow :=
  match change with
  | .data d => { r with toCustomerData := d }
  | .avatarPath path => { r with avatarPath := path }

/-! ## `CustomerModel` -/

namespace CustomerModel

variable (E : CustomerEnv) (now : LocalTime) (t : Table CustomerRow)

/-- Equality of the database on two strings. -/
def sqlEq (a b : Bytes) : Bool := E.weight a = E.weight b

/-- `addcslashes($keyword, '%_\\')`. -/
def escapeLikeKeyword (keyword : Bytes) : Bytes :=
  keyword.flatMap fun b => if b = 37 ∨ b = 95 ∨ b = 92 then [92, b] else [b]

/-- The condition of `applyKeywordSearch` on name, email and company. -/
def matchesKeyword (keywords : Bytes) (r : CustomerRow) : Bool :=
  trim keywords = [] ||
    let pattern := [37] ++ strtolower (escapeLikeKeyword (trim keywords)) ++ [37]
    [some r.name, r.email, r.company].any fun column =>
      column.any fun value => E.like (E.lower value) pattern

/-- The condition of `applyFilters`. -/
def matchesFilters (keywords : Bytes) (status : Option Bytes) (r : CustomerRow) : Bool :=
  matchesKeyword E keywords r && status.all fun status => status = [] || sqlEq E r.status status

/-- The live rows that the filters select. -/
def selected (keywords : Bytes) (status : Option Bytes) : List CustomerRow :=
  t.rows.filter fun r => r.deletedAt.isNone && matchesFilters E keywords status r

/-- `LIMIT` and `OFFSET` as `Pagination::apply` sets them. -/
def paginate (page limit : Int) (rows : List CustomerRow) : List CustomerRow :=
  let limit := min 100 (max 1 limit)
  let page := max 1 page
  (rows.drop (limit * page - limit).toNat).take limit.toNat

/-- The product in `Pagination::offset` is no longer an integer, and its return type is not met. -/
def offsetOverflows (page limit : Int) : Bool :=
  intMax < min 100 (max 1 limit) * max 1 page

def get (keywords : Bytes) (status : Option Bytes) (page limit : Int) : List CustomerRow :=
  paginate page limit ((selected E t keywords status).insertionSort fun a b => a.id ≤ b.id)

def countGet (keywords : Bytes) (status : Option Bytes) : ℕ := (selected E t keywords status).length

def findById (id : ℕ) : Option CustomerRow := t.first fun r => r.id = id && r.deletedAt.isNone

def «exists» (id : ℕ) : Bool := (findById t id).isSome

/-- The condition of `existsByColumn`. -/
def taken (column : CustomerRow → Option Bytes) (value : Bytes) (exceptId : Option ℕ)
    (r : CustomerRow) : Bool :=
  (column r).any (sqlEq E · value) && r.deletedAt.isNone && exceptId.all (r.id ≠ ·)

def existsByColumn (column : CustomerRow → Option Bytes) (value : Bytes) (exceptId : Option ℕ) :
    Bool :=
  0 < t.affected (taken E column value exceptId)

def existsByName (name : Bytes) (exceptId : Option ℕ) : Bool :=
  existsByColumn E t (fun r => some r.name) name exceptId

def existsByEmail (email : Bytes) (exceptId : Option ℕ) : Bool :=
  existsByColumn E t (·.email) email exceptId

def create (data : CustomerData) : ℕ × Table CustomerRow :=
  (t.autoIncrement,
    t.insert (NewCustomer.row { data with avatarPath := none, createdAt := now, updatedAt := now }))

/-- `insertMany` inside its transaction: all rows at once. -/
def createMany (rows : List NewCustomer) : ℕ × Table CustomerRow :=
  (rows.length, rows.foldl (fun t c => t.insert (NewCustomer.row c)) t)

/-- `UPDATE customer ... WHERE customer.id = id`, soft-deleted rows included. -/
def update (id : ℕ) (change : CustomerChange) : ℕ × Table CustomerRow :=
  (t.affected (·.id = id),
    t.update (·.id = id) fun r => { change.apply r with updatedAt := some now })

def deleteById (id : ℕ) : Bool × Table CustomerRow :=
  (0 < t.affected (·.id = id), t.update (·.id = id) fun r => { r with deletedAt := some now })

def countCreatedSince (since : LocalTime) : ℕ :=
  t.affected fun r => ¬ r.createdAt < since && r.deletedAt.isNone

end CustomerModel

/-! ## Statements -/

/-- The statements of the customer code. -/
inductive CustomerStmt where
  | get (keywords : Bytes) (status : Option Bytes) (page limit : Int)
  | countGet (keywords : Bytes) (status : Option Bytes)
  | countCreatedSince (since : LocalTime)
  | findById (id : ℕ)
  | exists (id : ℕ)
  | existsByName (name : Bytes) (exceptId : Option ℕ)
  | existsByEmail (email : Bytes) (exceptId : Option ℕ)
  | create (data : CustomerData)
  | createMany (rows : List NewCustomer)
  | update (id : ℕ) (change : CustomerChange)
  | deleteById (id : ℕ)
  | redisGet (key : Bytes)
  | redisSetex (key : Bytes) (ttl : Int) (value : Bytes)
  | redisIncr (key : Bytes)
  | redisDel (key : Bytes)
  | moveTo (path contents : Bytes)
  | putObject (path contents : Bytes)
  | isFile (path : Bytes)
  | readFile (path : Bytes)
  | unlink (path : Bytes)
  | progress (percent : ℕ) (message : String)
deriving DecidableEq, Repr

@[reducible] def CustomerStmt.Res : CustomerStmt → Type
  | get .. => List CustomerRow
  | countGet .. => ℕ
  | countCreatedSince _ => ℕ
  | findById _ => Option CustomerRow
  | «exists» _ => Bool
  | existsByName .. => Bool
  | existsByEmail .. => Bool
  | create _ => ℕ
  | createMany _ => ℕ
  | update .. => ℕ
  | deleteById _ => Bool
  | redisGet _ => Option Bytes
  | redisSetex .. => Unit
  | redisIncr _ => Int
  | redisDel _ => ℕ
  | moveTo .. => Unit
  | putObject .. => Bool
  | isFile _ => Bool
  | readFile _ => Option Bytes
  | unlink _ => Bool
  | progress .. => Unit

namespace CustomerDb

/-- Reply with the first component, and put the table that comes with it in place. -/
def withTable {α : Type} (db : CustomerDb) (r : α × Table CustomerRow) :
    Except Failure α × CustomerDb :=
  (.ok r.1, { db with customer := r.2 })

def withRedis {α : Type} (db : CustomerDb) (r : Except Failure α × Redis.Store) :
    Except Failure α × CustomerDb :=
  (r.1, { db with redis := r.2 })

def withFile (db : CustomerDb) (path : Bytes) (contents : Option Bytes) : CustomerDb :=
  { db with files := Function.update db.files path contents }

end CustomerDb

open CustomerModel in
/-- Execute one statement at the instant `i`, on a database that takes every text. -/
def CustomerEnv.exec (E : CustomerEnv) :
    Prog.Handler CustomerStmt CustomerStmt.Res Int Failure CustomerDb :=
  fun op i db =>
    let now := E.zone.date i
    match op with
    | .get keywords status page limit => (.ok (get E db.customer keywords status page limit), db)
    | .countGet keywords status => (.ok (countGet E db.customer keywords status), db)
    | .countCreatedSince since => (.ok (countCreatedSince db.customer since), db)
    | .findById id => (.ok (findById db.customer id), db)
    | .exists id => (.ok («exists» db.customer id), db)
    | .existsByName name exceptId => (.ok (existsByName E db.customer name exceptId), db)
    | .existsByEmail email exceptId => (.ok (existsByEmail E db.customer email exceptId), db)
    | .create data => db.withTable (create now db.customer data)
    | .createMany rows => db.withTable (createMany db.customer rows)
    | .update id change => db.withTable (update now db.customer id change)
    | .deleteById id => db.withTable (deleteById now db.customer id)
    | .redisGet key => (.ok (Redis.get db.redis i key), db)
    | .redisSetex key ttl value => db.withRedis (Redis.setex db.redis i key ttl value)
    | .redisIncr key => db.withRedis (Redis.incr db.redis i key)
    | .redisDel key =>
      (.ok (Redis.del db.redis i key).1, { db with redis := (Redis.del db.redis i key).2 })
    | .moveTo path contents => (.ok (), db.withFile path (some contents))
    | .putObject path _ => (.ok (E.putObject path), db)
    | .isFile path => (.ok (db.files path).isSome, db)
    | .readFile path => (.ok (db.files path), db)
    | .unlink path => (.ok (db.files path).isSome, db.withFile path none)
    | .progress _ _ => (.ok (), db)

end SlimStarter
