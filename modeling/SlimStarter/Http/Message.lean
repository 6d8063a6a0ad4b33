import SlimStarter.Auth.Service
import SlimStarter.Customer.Export

/-!
# Requests and responses

A request as the controllers read it, the payloads that the request classes make of it with their
checks, the response envelopes, and the refresh cookie. `JwtHelper.requestUser` is the user that the
`Authorization` header of a request stands for at an instant, and `requestError` what is thrown in
its place.

Verifying a token is the work of the JWT library: `AppEnv.verify` is what it makes of a token at an
instant, where the secret of the application is set, and `AppEnv.secretError` says where it is not.
-/

namespace SlimStarter

structure Request where
  method : Bytes
  path : Bytes
  authorization : Bytes
  userAgent : Bytes
  healthToken : Bytes
  remoteAddr : Mixed
  refreshToken : Mixed
  query : Bytes → Mixed
  body : Bytes → Mixed
  files : Bytes → Option UploadedFile

/-- The payload of a job, by the fields that its dispatch sets. -/
inductive JobPayload where
  | export (keywords : Bytes) (status : Option Bytes) (requestedBy : ℕ)
  | import (file : Bytes) (requestedBy : ℕ)
deriving DecidableEq, Repr

namespace JobPayload

/-- `(string) ($payload['keywords'] ?? '')`. -/
def keywords : JobPayload → Bytes
  | .export keywords .. => keywords
  | .import .. => []

/-- `$payload['status'] ?? null`. -/
def status : JobPayload → Option Bytes
  | .export _ status _ => status
  | .import .. => none

/-- `(string) ($payload['file'] ?? '')`. -/
def file : JobPayload → Bytes
  | .export .. => []
  | .import file _ => file

end JobPayload

inductive JobResult where
  | exported (result : ExportResult)
  | imported (result : ImportResult)
deriving DecidableEq, Repr

/-- What the queue keeps account of while a job waits, runs and ends. -/
structure JobState where
  status : Bytes
  attempts : ℕ
  maxAttempts : ℕ
  progress : ℕ
  progressMessage : Option String
  result : Option JobResult
  errorMessage : Option String
  createdAt : LocalTime
  startedAt : Option LocalTime
  completedAt : Option LocalTime
deriving DecidableEq, Repr

structure JobData where
  id : ℕ
  type : Bytes
  payload : JobPayload
  state : JobState
deriving DecidableEq, Repr

namespace JobType

def customerExport : Bytes := ascii "customer.export"
def customerImport : Bytes := ascii "customer.import"

end JobType

/-- `JobStatus::Completed`. -/
def JobStatus.completed : Bytes := ascii "completed"

/-! ## Responses -/

/-- What an envelope carries under `data`. -/
inductive Payload where
  | null
  | empty
  | errors (errors : List (String × String))
  | session (accessToken : Bytes) (tokenType : String) (expiresIn : Int) (user : PublicUser)
  | user (user : PublicUser)
  | customers (rows : List PublicCustomer)
  | customer (customer : PublicCustomer)
  | cached (result : Cached)
  | queuedExport (jobId : ℕ) (status : String) (totalRows : ℕ)
  | queuedImport (jobId : ℕ) (status : String) (fileName : Bytes)
  | job (job : JobData) (downloadUrl : Option Bytes)
  | jobStatus (status : Bytes)
  | application (name version : Bytes)
  | message (text : String)
deriving DecidableEq, Repr

inductive Content where
  | empty
  | envelope (status : Bool) (message : String) (data : Payload) (extra : List (String × Int))
  | encodingFailed (message : String)
  | health (status : String) (timestamp : Int) (environment : Option Bytes)
      (checks : List (String × Bool))
  | problem (message : String) (code : ℕ) (details : Option (String × String))
  | bareProblem (code : ℕ)
  | csv (fileName contents : Bytes)
  | template (name : String)
deriving DecidableEq, Repr

structure Response where
  httpStatus : ℕ
  content : Content
  setCookie : List Bytes
deriving DecidableEq, Repr

/-- What an exception tells of itself: its message, the short name of its class, and its place. -/
structure ErrorDetails where
  message : String
  className : String
  file : String
deriving DecidableEq, Repr

/-- The setting of the application. `verify` is what the JWT library makes of a token at an instant,
`secretError` the message of the exception that `JwtHelper::secretKey` throws, if it does,
`describe` what an exception tells of itself, `jsonEncodes` whether `json_encode` takes a content,
`toInt` PHP's cast to an integer, `newJob` the state in which the queue keeps a new job, and
`rawurldecode` decodes a route argument. The rest are values of the environment. -/
structure AppEnv where
  auth : AuthEnv
  customer : CustomerEnv
  verify : Bytes → Int → Option AccessClaims
  secretError : Option String
  displayErrorDetails : Bool
  describe : Failure → ErrorDetails
  jsonEncodes : Content → Bool
  toInt : Mixed → Int
  newJob : LocalTime → JobState
  rawurldecode : Bytes → Bytes
  datetime : LocalTime → Bytes
  appEnvironment : Option Bytes
  appName : Option Bytes
  appVersion : Option Bytes
  authCookieSamesite : Option Bytes
  authCookieSecure : Mixed
  healthcheckToken : Bytes
  uploadImportMaxBytes : Int

variable (E : AppEnv)

namespace JsonResponse

def defaultSuccessMessage : String := "Data ditemukan"

def withJson (content : Content) (httpStatus : ℕ) : Response :=
  if E.jsonEncodes content then ⟨httpStatus, content, []⟩
  else ⟨HttpStatus.internalServerError, .encodingFailed "Failed to encode response", []⟩

def success (data : Payload) (message : String) (extra : List (String × Int)) (httpStatus : ℕ) :
    Response :=
  withJson E (.envelope true message data extra) httpStatus

def error (message : String) (data : Payload) (httpStatus : ℕ) : Response :=
  withJson E (.envelope false message data []) httpStatus

end JsonResponse

namespace BaseController

/-- `errorResponse`: the errors of a `ValidationException` go under `data`. -/
def errorResponse (exception : AppException) : Response :=
  JsonResponse.error E exception.message (.errors exception.errors) exception.httpStatus

def validationError (errors : List (String × String)) : Response :=
  JsonResponse.error E "Validation failed." (.errors errors) HttpStatus.badRequest

end BaseController

namespace RefreshCookie

def name : Bytes := ascii "refresh_token"

/-- `filter_var($s, FILTER_VALIDATE_BOOLEAN)`. -/
def validateBoolean (s : Bytes) : Bool :=
  strtolower (trim s) ∈ [ascii "1", ascii "true", ascii "on", ascii "yes"]

def sameSite : Bytes :=
  let configured := strtolower (trim (E.authCookieSamesite.getD (ascii "Lax")))
  if configured = ascii "strict" then ascii "Strict"
  else if configured = ascii "none" then ascii "None"
  else ascii "Lax"

def secureAttribute : List (Bytes × Bytes) :=
  let secure :=
    match E.authCookieSecure with
    | .string s => if trim s = [] then none else some (validateBoolean s)
    | .other cast => some (validateBoolean cast)
    | .null => none
  let environment := strtolower (E.appEnvironment.getD (ascii "production"))
  if secure.getD (environment ∉ [ascii "development", ascii "testing", ascii "local"]) then
    [(ascii "Secure", [])]
  else []

/-- The value and the attributes of a cookie, in their order. -/
structure Cookie where
  name : Bytes
  value : Bytes
  attributes : List (Bytes × Bytes)
deriving DecidableEq, Repr

def create (token : Bytes) : Cookie where
  name := name
  value := token
  attributes := [(ascii "Path", ascii "/"),
    (ascii "Max-Age", intString (ttlSeconds E.auth.ttlDays)), (ascii "HttpOnly", []),
    (ascii "SameSite", sameSite E)] ++ secureAttribute E

def clear : Cookie where
  name := name
  value := []
  attributes := [(ascii "Path", ascii "/"), (ascii "Max-Age", ascii "0"),
    (ascii "Expires", ascii "Thu, 01 Jan 1970 00:00:00 GMT"), (ascii "HttpOnly", []),
    (ascii "SameSite", sameSite E)] ++ secureAttribute E

/-- The token of the request's cookie, null where it is absent or blank. -/
def fromRequest (request : Request) : Option Bytes :=
  match request.refreshToken with
  | .string token => if trim token = [] then none else some token
  | _ => none

/-- An upper-case hexadecimal digit. -/
def hexDigit (d : ℕ) : UInt8 := UInt8.ofNat (if d < 10 then 48 + d else 55 + d)

def rawurlencode (s : Bytes) : Bytes :=
  s.flatMap fun b =>
    if isDigit b || (65 ≤ b && b ≤ 90) || (97 ≤ b && b ≤ 122) || b ∈ [45, 46, 95, 126] then [b]
    else [37, hexDigit (b.toNat / 16), hexDigit (b.toNat % 16)]

/-- The value of a `Set-Cookie` header. -/
def toHeader (cookie : Cookie) : Bytes :=
  implode (ascii "; ") ((cookie.name ++ ascii "=" ++ rawurlencode cookie.value) ::
    cookie.attributes.map fun (name, value) =>
      if value = [] then name else name ++ ascii "=" ++ value)

end RefreshCookie

/-! ## Tokens and payloads -/

/-- The `user` attribute of a request. -/
structure RequestUser where
  id : ℕ
  email : Bytes
  name : Bytes
  type : Bytes
  loggedIn : Bool
deriving DecidableEq, Repr

namespace JwtHelper

/-- The bytes of `\s`. -/
def isSpace (b : UInt8) : Bool := b = 32 || (9 ≤ b && b ≤ 13)

/-- What `/^Bearer\s+(.+)$/i` captures in a trimmed header. -/
def bearer (header : Bytes) : Option Bytes :=
  let rest := header.drop 6
  -- `\s+` gives its last byte back where it would take everything.
  let gap := min (rest.takeWhile isSpace).length (rest.length - 1)
  let token := rest.drop gap
  if strtolower (header.take 6) = ascii "bearer" ∧ 0 < gap ∧ 10 ∉ token then some token else none

/-- The claims of a token, where the method returns any. -/
def claims (token : Bytes) (now : Int) : Option AccessClaims :=
  if trim token = [] ∨ E.secretError.isSome then none else E.verify token now

def userFromClaims (claims : AccessClaims) : RequestUser where
  id := claims.id
  email := claims.email
  name := claims.name
  type := claims.type
  loggedIn := true

/-- The token that the `Authorization` header presents. -/
def presented (request : Request) : Bytes :=
  let header := trim request.authorization
  ((bearer header).map trim).getD header

def requestUser (request : Request) (now : Int) : Option RequestUser :=
  if trim request.authorization = [] then none
  else ((claims E (presented request) now).filter (·.id ≠ 0)).map userFromClaims

/-- What `requestUser` throws: the secret is read before a token that is not blank is parsed. -/
def requestError (request : Request) : Option Failure :=
  if trim request.authorization = [] ∨ trim (presented request) = [] then none
  else E.secretError.map .runtime

variable {E}

/-- A user comes from the claims of the presented token. -/
theorem requestUser_eq_some {request : Request} {now : Int} {user : RequestUser}
    (h : requestUser E request now = some user) :
    ∃ claims, E.verify (presented request) now = some claims ∧ userFromClaims claims = user := by
  unfold requestUser at h
  split_ifs at h with hblank
  obtain ⟨claims, hclaims, huser⟩ := Option.map_eq_some_iff.mp h
  obtain ⟨hclaims, -⟩ := Option.filter_eq_some_iff.mp hclaims
  unfold JwtHelper.claims at hclaims
  split_ifs at hclaims with htoken
  exact ⟨claims, hclaims, huser⟩

end JwtHelper

/-- `filter_var($s, FILTER_VALIDATE_INT)`. -/
def filterVarInt (s : Bytes) : Option Int :=
  let isBlank (b : UInt8) : Bool := b = 32 || b = 9 || b = 10 || b = 11 || b = 13
  let s := (s.dropWhile isBlank).rdropWhile isBlank
  let negative := s.head? = some 45
  let digits := if s.head? = some 45 ∨ s.head? = some 43 then s.drop 1 else s
  if ctypeDigit digits ∧ (digits = [48] ∨ digits.head? ≠ some 48) then
    let n := digitsValue digits
    if negative then if n ≤ intMax + 1 then some (-n) else none
    else if n ≤ intMax then some n else none
  else none

/-- The positive integer of a route argument, 0 where it is none. -/
def positiveId (arg : Option Bytes) : ℕ :=
  match arg.bind filterVarInt with
  | some id => if 0 < id then id.toNat else 0
  | none => 0

/-- The error of a field that is required to have at most `max` characters. -/
def requiredText (field label : String) (max : ℕ) (value : Bytes) : List (String × String) :=
  if value = [] then [(field, s!"{label} is required.")]
  else if max < mbStrlen value then [(field, s!"{label} must not exceed {max} characters.")]
  else []

namespace RegisterRequest

def minPasswordLength : ℕ := 8

def maxPasswordLength : ℕ := 72

def fromRequest (body : Bytes → Mixed) : RegisterRequest where
  name := trim (body (ascii "name")).cast
  email := strtolower (trim (body (ascii "email")).cast)
  password := (body (ascii "password")).cast
  passwordConfirmation := (body (ascii "password_confirmation")).cast

def emailError (dto : RegisterRequest) : List (String × String) :=
  if dto.email = [] then [("email", "Email is required.")]
  else if !E.customer.filterVarEmail dto.email then
    [("email", "A valid email address is required.")]
  else if 190 < mbStrlen dto.email then [("email", "Email must not exceed 190 characters.")]
  else []

/-- The error of a password that is not of an accepted length. -/
def passwordError (field label : String) (password : Bytes) : List (String × String) :=
  if password = [] then [(field, s!"{label} is required.")]
  else if password.length < minPasswordLength then
    [(field, s!"{label} must be at least {minPasswordLength} characters.")]
  else if maxPasswordLength < password.length then
    [(field, s!"{label} must not exceed {maxPasswordLength} characters.")]
  else []

/-- The error of a confirmation that does not repeat the password. -/
def confirmationError (field label : String) (password confirmation : Bytes) :
    List (String × String) :=
  if confirmation = [] then [(field, s!"{label} is required.")]
  else if password ≠ confirmation then [(field, s!"{label} does not match.")]
  else []

def validate (dto : RegisterRequest) : List (String × String) :=
  requiredText "name" "Name" 120 dto.name ++ emailError E dto
    ++ passwordError "password" "Password" dto.password
    ++ confirmationError "password_confirmation" "Password confirmation" dto.password
        dto.passwordConfirmation

end RegisterRequest

namespace LoginRequest

def fromRequest (body : Bytes → Mixed) : LoginRequest where
  email := strtolower (trim (body (ascii "email")).cast)
  password := (body (ascii "password")).cast

def validate (dto : LoginRequest) : List (String × String) :=
  (if dto.email = [] then [("email", "Email is required.")]
    else if !E.customer.filterVarEmail dto.email then
      [("email", "A valid email address is required.")]
    else []) ++
  if dto.password = [] then [("password", "Password is required.")] else []

end LoginRequest

namespace UpdateProfileRequest

/-- The name of the payload, its only field. -/
def fromRequest (body : Bytes → Mixed) : Bytes := trim (body (ascii "name")).cast

def validate (name : Bytes) : List (String × String) := requiredText "name" "Name" 120 name

end UpdateProfileRequest

namespace ChangePasswordRequest

def fromRequest (body : Bytes → Mixed) : ChangePasswordRequest where
  currentPassword := (body (ascii "current_password")).cast
  newPassword := (body (ascii "new_password")).cast
  newPasswordConfirmation := (body (ascii "new_password_confirmation")).cast

def newPasswordError (dto : ChangePasswordRequest) : List (String × String) :=
  let error := RegisterRequest.passwordError "new_password" "New password" dto.newPassword
  if error ≠ [] then error
  else if dto.newPassword = dto.currentPassword then
    [("new_password", "New password must differ from the current password.")]
  else []

def validate (dto : ChangePasswordRequest) : List (String × String) :=
  (if dto.currentPassword = [] then [("current_password", "Current password is required.")]
    else []) ++ newPasswordError dto
    ++ RegisterRequest.confirmationError "new_password_confirmation" "New password confirmation"
        dto.newPassword dto.newPasswordConfirmation

end ChangePasswordRequest

/-- The `status` filter of a list or an export: trimmed and in lower case, null where blank. -/
def statusFilter (value : Mixed) : Option Bytes :=
  let rawStatus := strtolower (trim value.cast)
  if rawStatus = [] then none else some rawStatus

/-- The error of a `status` filter that names no status. -/
def statusFilterError (status : Option Bytes) : List (String × String) :=
  if status.any fun status => !CustomerStatus.isValid status then
    [("status", "Status must be one of: " ++ text (implode (ascii ", ") CustomerStatus.all) ++ ".")]
  else []

structure CustomerExportRequest where
  keywords : Bytes
  status : Option Bytes
deriving DecidableEq, Repr

namespace CustomerExportRequest

def fromRequest (body : Bytes → Mixed) : CustomerExportRequest where
  keywords := trim (body (ascii "keywords")).cast
  status := statusFilter (body (ascii "status"))

def validate (dto : CustomerExportRequest) : List (String × String) := statusFilterError dto.status

end CustomerExportRequest

/-- `Pagination::sanitize` with its defaults, of the query values `page` and `limit`. -/
def Pagination.sanitize (page limit : Mixed) : Int × Int :=
  let pageNumber := if page = .null then 1 else E.toInt page
  let limitNumber :=
    if limit = .null ∨ limit = .string [] ∨ E.toInt limit ≤ 0 then 20 else E.toInt limit
  (max 1 pageNumber, min 100 (if limitNumber < 1 then 20 else limitNumber))

structure CustomerListRequest where
  keywords : Bytes
  status : Option Bytes
  page : Int
  limit : Int
deriving DecidableEq, Repr

namespace CustomerListRequest

def fromRequest (query : Bytes → Mixed) : CustomerListRequest :=
  let (page, limit) := Pagination.sanitize E (query (ascii "page")) (query (ascii "limit"))
  { keywords := trim (query (ascii "keywords")).cast
    status := statusFilter (query (ascii "status"))
    page, limit }

def validate (dto : CustomerListRequest) : List (String × String) := statusFilterError dto.status

end CustomerListRequest

structure CustomerUpdateRequest where
  id : ℕ
  payload : CustomerCreateRequest
deriving DecidableEq, Repr

namespace CustomerUpdateRequest

def fromRequest (body : Bytes → Mixed) (id : Option Bytes) : CustomerUpdateRequest where
  id := positiveId id
  payload := CustomerCreateRequest.fromRequest body

def validate (dto : CustomerUpdateRequest) : List (String × String) :=
  (if dto.id = 0 then [("id", "A positive id is required.")] else [])
    ++ dto.payload.validate E.customer

end CustomerUpdateRequest

end SlimStarter
