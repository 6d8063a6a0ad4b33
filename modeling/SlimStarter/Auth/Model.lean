import SlimStarter.Lib.Prog
import SlimStarter.Lib.Table
import SlimStarter.Php
import SlimStarter.Exceptions

/-!
# Accounts and refresh tokens

The `user` and `refresh_token` tables with the methods of `UserModel` and `RefreshTokenModel`, each
one SQL statement. `AuthStmt` names these statements and `AuthEnv.exec` executes one on the tables
at an instant. The unique indexes `uq_user_email` and `uq_refresh_token_hash` make an insert fail
on any row with the same value, a soft-deleted one included.

The functions of PHP and of the JWT library that the code only passes values through are fields of
`AuthEnv`, as are the settings it reads.
-/

namespace SlimStarter

structure UserRow where
  id : ℕ
  name : Bytes
  email : Bytes
  passwordHash : Bytes
  type : Bytes
  lastLoginAt : Option LocalTime
  createdAt : LocalTime
  updatedAt : Option LocalTime
  deletedAt : Option LocalTime
deriving DecidableEq, Repr

structure RefreshTokenRow where
  id : ℕ
  userId : ℕ
  familyId : Bytes
  tokenHash : Bytes
  expiresAt : LocalTime
  revokedAt : Option LocalTime
  userAgent : Option Bytes
  ipAddress : Option Bytes
  createdAt : LocalTime
deriving DecidableEq, Repr

structure AuthDb where
  user : Table UserRow
  refreshToken : Table RefreshTokenRow
deriving DecidableEq, Repr

/-- The claims `buildAccessToken` signs. -/
structure AccessClaims where
  id : ℕ
  email : Bytes
  name : Bytes
  type : Bytes
deriving DecidableEq, Repr

/-- The setting the authentication code runs in. `sqlEq` is the equality of the database on the
`email` column, `passwordHash salt` is `password_hash` with its random salt (`none` where it
throws), `buildToken` the text of a token where it can be built, `accessTtlEnd now` is
`strtotime(JwtHelper::accessTtl())` and `ttlDays` the integer value of `REFRESH_TOKEN_TTL_DAYS`. -/
structure AuthEnv where
  zone : Zone
  sqlEq : Bytes → Bytes → Bool
  sha256 : Bytes → Bytes
  passwordHash : Bytes → Bytes → Option Bytes
  passwordVerify : Bytes → Bytes → Bool
  buildToken : AccessClaims → Int → Bytes
  accessTtlEnd : Int → Option Int
  ttlDays : Int

namespace UserModel

variable (eq : Bytes → Bytes → Bool) (now : LocalTime) (db : AuthDb)

def findById (id : ℕ) : Option UserRow :=
  db.user.first fun r => r.id = id && r.deletedAt.isNone

def findByEmail (email : Bytes) : Option UserRow :=
  db.user.first fun r => eq r.email email && r.deletedAt.isNone

def existsByEmail (email : Bytes) : Bool :=
  0 < db.user.affected fun r => eq r.email email && r.deletedAt.isNone

def create (name email passwordHash type : Bytes) : Except Failure ℕ × AuthDb :=
  -- `uq_user_email` covers every row, soft-deleted ones too.
  if 0 < db.user.affected fun r => eq r.email email then (.error .database, db)
  else (.ok db.user.autoIncrement, { db with user := db.user.insert fun id =>
    { id, name, email, passwordHash, type, lastLoginAt := none, createdAt := now,
      updatedAt := some now, deletedAt := none } })

/-- `UPDATE user ... WHERE user.id = id`. -/
def updateById (id : ℕ) (f : UserRow → UserRow) : ℕ × AuthDb :=
  (db.user.affected (·.id = id), { db with user := db.user.update (·.id = id) f })

def updateProfile (id : ℕ) (name : Bytes) : ℕ × AuthDb :=
  updateById db id fun r => { r with name, updatedAt := some now }

def updatePassword (id : ℕ) (passwordHash : Bytes) : ℕ × AuthDb :=
  updateById db id fun r => { r with passwordHash, updatedAt := some now }

def touchLastLogin (id : ℕ) : ℕ × AuthDb :=
  updateById db id fun r => { r with lastLoginAt := some now }

end UserModel

/-! ## `RefreshTokenModel` -/

namespace RefreshTokenModel

variable (now : LocalTime) (db : AuthDb)

def create (userId : ℕ) (familyId tokenHash : Bytes) (expiresAt : LocalTime)
    (userAgent ipAddress : Option Bytes) : Except Failure ℕ × AuthDb :=
  if 0 < db.refreshToken.affected (·.tokenHash = tokenHash) then (.error .database, db)
  else (.ok db.refreshToken.autoIncrement,
    { db with refreshToken := db.refreshToken.insert fun id =>
      { id, userId, familyId, tokenHash, expiresAt, revokedAt := none,
        userAgent := userAgent.map (·.take 255), ipAddress, createdAt := now } })

def findByHash (tokenHash : Bytes) : Option RefreshTokenRow :=
  db.refreshToken.first (·.tokenHash = tokenHash)

/-- `UPDATE refresh_token SET revoked_at = now WHERE p AND revoked_at IS NULL`. -/
def revokeWhere (p : RefreshTokenRow → Bool) : ℕ × AuthDb :=
  let hit : RefreshTokenRow → Bool := fun r => p r && r.revokedAt.isNone
  (db.refreshToken.affected hit,
    { db with
      refreshToken := db.refreshToken.update hit fun r => { r with revokedAt := some now } })

def revoke (id : ℕ) : ℕ × AuthDb := revokeWhere now db (·.id = id)

def revokeFamily (familyId : Bytes) : ℕ × AuthDb := revokeWhere now db (·.familyId = familyId)

def revokeAllForUser (userId : ℕ) : ℕ × AuthDb := revokeWhere now db (·.userId = userId)

def revokeAllForUserExceptFamily (userId : ℕ) (familyId : Bytes) : ℕ × AuthDb :=
  revokeWhere now db fun r => r.userId = userId && r.familyId ≠ familyId

def revokeExpiredForUser (userId : ℕ) : ℕ × AuthDb :=
  revokeWhere now db fun r => r.userId = userId && r.expiresAt < now

end RefreshTokenModel

/-! ## Statements -/

/-- The statements of the authentication code. `buildToken` stands for `JwtHelper::buildToken`,
which touches no table but can fail like the others: it throws where the claims are no UTF-8 or the
settings are missing. -/
inductive AuthStmt where
  | findUserById (id : ℕ)
  | findByEmail (email : Bytes)
  | existsByEmail (email : Bytes)
  | createUser (name email passwordHash type : Bytes)
  | updateProfile (id : ℕ) (name : Bytes)
  | updatePassword (id : ℕ) (passwordHash : Bytes)
  | touchLastLogin (id : ℕ)
  | createToken (userId : ℕ) (familyId tokenHash : Bytes) (expiresAt : LocalTime)
      (userAgent ipAddress : Option Bytes)
  | findByHash (tokenHash : Bytes)
  | revoke (id : ℕ)
  | revokeFamily (familyId : Bytes)
  | revokeAllForUser (userId : ℕ)
  | revokeAllForUserExceptFamily (userId : ℕ) (familyId : Bytes)
  | revokeExpiredForUser (userId : ℕ)
  | buildToken (claims : AccessClaims)
deriving DecidableEq, Repr

@[reducible] def AuthStmt.Res : AuthStmt → Type
  | findUserById _ => Option UserRow
  | findByEmail _ => Option UserRow
  | existsByEmail _ => Bool
  | findByHash _ => Option RefreshTokenRow
  | buildToken _ => Bytes
  | _ => ℕ

/-- An `UPDATE` that did not fail replies with the number of rows it changed. -/
def updated (r : ℕ × AuthDb) : Except Failure ℕ × AuthDb := (.ok r.1, r.2)

/-- Execute one statement at the instant `i`. -/
def AuthEnv.exec (E : AuthEnv) : Prog.Handler AuthStmt AuthStmt.Res Int Failure AuthDb :=
  fun op i db =>
    let now := E.zone.date i
    match op with
    | .findUserById id => (.ok (UserModel.findById db id), db)
    | .findByEmail email => (.ok (UserModel.findByEmail E.sqlEq db email), db)
    | .existsByEmail email => (.ok (UserModel.existsByEmail E.sqlEq db email), db)
    | .createUser name email passwordHash type =>
      UserModel.create E.sqlEq now db name email passwordHash type
    | .updateProfile id name => updated (UserModel.updateProfile now db id name)
    | .updatePassword id passwordHash => updated (UserModel.updatePassword now db id passwordHash)
    | .touchLastLogin id => updated (UserModel.touchLastLogin now db id)
    | .createToken userId familyId tokenHash expiresAt userAgent ipAddress =>
      RefreshTokenModel.create now db userId familyId tokenHash expiresAt userAgent ipAddress
    | .findByHash tokenHash => (.ok (RefreshTokenModel.findByHash db tokenHash), db)
    | .revoke id => updated (RefreshTokenModel.revoke now db id)
    | .revokeFamily familyId => updated (RefreshTokenModel.revokeFamily now db familyId)
    | .revokeAllForUser userId => updated (RefreshTokenModel.revokeAllForUser now db userId)
    | .revokeAllForUserExceptFamily userId familyId =>
      updated (RefreshTokenModel.revokeAllForUserExceptFamily now db userId familyId)
    | .revokeExpiredForUser userId =>
      updated (RefreshTokenModel.revokeExpiredForUser now db userId)
    | .buildToken claims => (.ok (E.buildToken claims i), db)

end SlimStarter
