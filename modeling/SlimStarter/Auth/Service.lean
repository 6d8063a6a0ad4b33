import SlimStarter.Auth.Model

/-!
# `AuthService`

The session operations as programs over the statements of `Auth.Model`. Each draws its random bytes
from an `Entropy` fixed when the call starts: a call mints at most one refresh token, one family id
and one salt. `AuthCall` gathers the operations, so that a run can mix them.

The part of `refresh` past its checks has names of its own: `rotate` from the look-up of the
account on, `rotateAs` from the revocation of the presented token on.
-/

namespace SlimStarter

open Prog (time)

abbrev AuthProg (α : Type) : Type := Prog AuthStmt AuthStmt.Res Int Failure α

/-- Issue one statement. -/
abbrev sql (op : AuthStmt) : AuthProg op.Res := Prog.stmt op

/-- The random bytes of a call: `bin2hex(random_bytes(32))`, `bin2hex(random_bytes(16))` and the
salt of `password_hash`. -/
structure Entropy where
  token : Bytes
  family : Bytes
  salt : Bytes
deriving DecidableEq, Repr

structure RegisterRequest where
  name : Bytes
  email : Bytes
  password : Bytes
  passwordConfirmation : Bytes
deriving DecidableEq, Repr

structure LoginRequest where
  email : Bytes
  password : Bytes
deriving DecidableEq, Repr

structure ChangePasswordRequest where
  currentPassword : Bytes
  newPassword : Bytes
  newPasswordConfirmation : Bytes
deriving DecidableEq, Repr

structure PublicUser where
  id : ℕ
  name : Bytes
  email : Bytes
  type : Bytes
  lastLoginAt : Option LocalTime
  createdAt : LocalTime
deriving DecidableEq, Repr

structure Session where
  accessToken : Bytes
  tokenType : String
  expiresIn : Int
  refreshToken : Bytes
  user : PublicUser
deriving DecidableEq, Repr

namespace UserType

def admin : Bytes := ascii "admin"
def staff : Bytes := ascii "staff"

end UserType

/-- `RefreshCookie::ttlSeconds`. -/
def ttlSeconds (days : Int) : Int := (if days < 1 then 30 else days) * 86400

namespace AuthService

variable (E : AuthEnv) (R : Entropy)

def toPublicArray (user : UserRow) : PublicUser where
  id := user.id
  name := user.name
  email := user.email
  type := user.type
  lastLoginAt := user.lastLoginAt
  createdAt := user.createdAt

def accessTokenLifetime (now : Int) : Int :=
  match E.accessTtlEnd now with
  | none => 900
  | some expiresAt => max 60 (expiresAt - now)

def buildAccessToken (user : UserRow) : AuthProg Bytes :=
  sql (.buildToken ⟨user.id, user.email, user.name, user.type⟩)

/-- `password_hash($password, PASSWORD_DEFAULT)`. -/
def passwordHash (password : Bytes) : AuthProg Bytes :=
  match E.passwordHash R.salt password with
  | some hash => pure hash
  | none => .throw .valueError

def createSession (user : UserRow) (userAgent ipAddress familyId : Option Bytes) :
    AuthProg Session := do
  let now ← time
  let _ ← sql (.createToken user.id (familyId.getD R.family) (E.sha256 R.token)
    (E.zone.date (now + ttlSeconds E.ttlDays)) userAgent ipAddress)
  let accessToken ← buildAccessToken user
  let now ← time
  pure { accessToken, tokenType := "Bearer", expiresIn := accessTokenLifetime E now,
         refreshToken := R.token, user := toPublicArray user }

def register (dto : RegisterRequest) (userAgent ipAddress : Option Bytes) : AuthProg Session := do
  let taken ← sql (.existsByEmail dto.email)
  if taken then
    .throw (.validation "Email is already registered." [("email", "Email is already registered.")])
  else do
    let hash ← passwordHash E R dto.password
    let userId ← sql (.createUser dto.name dto.email hash UserType.staff)
    let user ← sql (.findUserById userId)
    match user with
    | none => .throw (.appException "The account could not be created."
        HttpStatus.internalServerError)
    | some user => createSession E R user userAgent ipAddress none

def login (dto : LoginRequest) (userAgent ipAddress : Option Bytes) : AuthProg Session := do
  let user ← sql (.findByEmail dto.email)
  match user with
  | none => .throw (.appException "Invalid email or password." HttpStatus.unauthorized)
  | some user =>
    if E.passwordVerify dto.password user.passwordHash then do
      let _ ← sql (.touchLastLogin user.id)
      let _ ← sql (.revokeExpiredForUser user.id)
      createSession E R user userAgent ipAddress none
    else .throw (.appException "Invalid email or password." HttpStatus.unauthorized)

/-- `$expiresAt !== false && $expiresAt <= time()`. -/
def isExpired (expiresAt : Option Int) (now : Int) : Bool :=
  match expiresAt with
  | some expiresAt => expiresAt ≤ now
  | none => false

/-- `refresh` from the revocation of the presented token on. -/
def rotateAs (row : RefreshTokenRow) (user : UserRow) (userAgent ipAddress : Option Bytes) :
    AuthProg Session := do
  let _ ← sql (.revoke row.id)
  createSession E R user userAgent ipAddress (some row.familyId)

/-- `refresh` from the look-up of the account on. -/
def rotate (row : RefreshTokenRow) (userAgent ipAddress : Option Bytes) : AuthProg Session := do
  let user ← sql (.findUserById row.userId)
  match user with
  | none => .throw (.appException "The account is no longer available." HttpStatus.unauthorized)
  | some user => rotateAs E R row user userAgent ipAddress

def refresh (token : Bytes) (userAgent ipAddress : Option Bytes) : AuthProg Session := do
  let row ← sql (.findByHash (E.sha256 token))
  match row with
  | none => .throw (.appException "Session is invalid or has expired." HttpStatus.unauthorized)
  | some row =>
    if row.revokedAt.isSome then do
      -- A rotated token came back: the whole family goes.
      let _ ← sql (.revokeFamily row.familyId)
      .throw (.appException "Session is no longer valid. Please sign in again."
        HttpStatus.unauthorized)
    else do
      let now ← time
      if isExpired (E.zone.strtotime row.expiresAt) now then do
        let _ ← sql (.revoke row.id)
        .throw (.appException "Session has expired. Please sign in again." HttpStatus.unauthorized)
      else rotate E R row userAgent ipAddress

def logout (token : Bytes) : AuthProg Unit := do
  let row ← sql (.findByHash (E.sha256 token))
  match row with
  | none => pure ()
  | some row => do
    let _ ← sql (.revokeFamily row.familyId)
    pure ()

def user (id : ℕ) : AuthProg PublicUser := do
  let user ← sql (.findUserById id)
  match user with
  | none => .throw (.appException "The account is no longer available." HttpStatus.unauthorized)
  | some user => pure (toPublicArray user)

def updateProfile (id : ℕ) (name : Bytes) : AuthProg PublicUser := do
  let found ← sql (.findUserById id)
  match found with
  | none => .throw (.notFoundException "User not found.")
  | some _ => do
    let _ ← sql (.updateProfile id name)
    user id

/-- The tail of `changePassword`: revoke what the kept family does not cover. -/
def revokeOthers (id : ℕ) (keepFamily : Option Bytes) : AuthProg Unit := do
  match keepFamily with
  | some keepFamily => do
    let _ ← sql (.revokeAllForUserExceptFamily id keepFamily)
    pure ()
  | none => do
    let _ ← sql (.revokeAllForUser id)
    pure ()

def changePassword (id : ℕ) (dto : ChangePasswordRequest) (currentRefreshToken : Option Bytes) :
    AuthProg Unit := do
  let user ← sql (.findUserById id)
  let incorrect : AuthProg Unit := .throw (.validation "Current password is incorrect."
    [("current_password", "Current password is incorrect.")])
  match user with
  | none => incorrect
  | some user =>
    if E.passwordVerify dto.currentPassword user.passwordHash then do
      let hash ← passwordHash E R dto.newPassword
      let _ ← sql (.updatePassword id hash)
      match currentRefreshToken with
      | none => revokeOthers id none
      | some token => do
        let row ← sql (.findByHash (E.sha256 token))
        revokeOthers id (row.map (·.familyId))
    else incorrect

end AuthService

/-! ## Calls -/

inductive AuthCall where
  | register (dto : RegisterRequest) (userAgent ipAddress : Option Bytes)
  | login (dto : LoginRequest) (userAgent ipAddress : Option Bytes)
  | refresh (token : Bytes) (userAgent ipAddress : Option Bytes)
  | logout (token : Bytes)
  | user (id : ℕ)
  | updateProfile (id : ℕ) (name : Bytes)
  | changePassword (id : ℕ) (dto : ChangePasswordRequest) (currentRefreshToken : Option Bytes)
deriving DecidableEq, Repr

inductive AuthResult where
  | session (s : Session)
  | user (u : PublicUser)
  | void
deriving DecidableEq, Repr

/-- The program of a call. -/
def AuthCall.prog (E : AuthEnv) (R : Entropy) : AuthCall → AuthProg AuthResult
  | register dto userAgent ipAddress =>
    .session <$> AuthService.register E R dto userAgent ipAddress
  | login dto userAgent ipAddress => .session <$> AuthService.login E R dto userAgent ipAddress
  | refresh token userAgent ipAddress =>
    .session <$> AuthService.refresh E R token userAgent ipAddress
  | logout token => (fun _ => .void) <$> AuthService.logout E token
  | user id => .user <$> AuthService.user id
  | updateProfile id name => .user <$> AuthService.updateProfile id name
  | changePassword id dto currentRefreshToken =>
    (fun _ => .void) <$> AuthService.changePassword E R id dto currentRefreshToken

end SlimStarter
