import SlimStarter.Lib.Rely
import SlimStarter.Http.Message

/-!
# The application

A request goes through the route table to a controller, inside the middleware of its route, and a
worker runs the queued jobs. `AppStmt` gathers what all of these issue, `AppEnv.exec` executes one
statement on the tables, the files and the queue, and `AppCall` names what can run: a request, a
job, or the queue taking account of a job.

The queue itself is a library: a dispatch adds a job, the account of a job is any, and a worker may
run any queued job any number of times.
-/

namespace SlimStarter

open Prog (time)

structure AppDb where
  auth : AuthDb
  customer : CustomerDb
  job : Table JobData

/-- The statements of the application. `selectOne` is the query of the health check, and
`storageWritable` its look at the storage directory. -/
inductive AppStmt where
  | auth (op : AuthStmt)
  | customer (op : CustomerStmt)
  | export (op : ExportStmt)
  | dispatch (type : Bytes) (payload : JobPayload)
  | getStatus (jobId : ℕ)
  | record (jobId : ℕ) (state : JobState)
  | selectOne
  | storageWritable
deriving DecidableEq, Repr

@[reducible] def AppStmt.Res : AppStmt → Type
  | auth op => op.Res
  | customer op => op.Res
  | «export» op => op.Res
  | dispatch .. => ℕ
  | getStatus _ => Option JobData
  | record .. => ℕ
  | selectOne => Unit
  | storageWritable => Bool

abbrev AppProg (α : Type) : Type := Prog AppStmt AppStmt.Res Int Failure α

variable (E : AppEnv)

/-- Execute one statement at the instant `i`. -/
def AppEnv.exec : Prog.Handler AppStmt AppStmt.Res Int Failure AppDb :=
  fun op i db =>
    match op with
    | .auth op => ((E.auth.exec op i db.auth).1, { db with auth := (E.auth.exec op i db.auth).2 })
    | .customer op =>
      ((E.customer.exec op i db.customer).1,
        { db with customer := (E.customer.exec op i db.customer).2 })
    | .export op =>
      ((E.customer.execExport op i db.customer).1,
        { db with customer := (E.customer.execExport op i db.customer).2 })
    | .dispatch type payload =>
      (.ok db.job.autoIncrement, { db with job := db.job.insert fun id =>
        { id, type, payload, state := E.newJob (E.customer.zone.date i) } })
    | .getStatus jobId => (.ok (db.job.first (·.id = jobId)), db)
    | .record jobId state =>
      (.ok (db.job.affected (·.id = jobId)),
        { db with job := db.job.update (·.id = jobId) fun job => { job with state } })
    | .selectOne => (.ok (), db)
    | .storageWritable => (.ok true, db)

/-- Issue one statement. -/
abbrev perform (op : AppStmt) : AppProg op.Res := Prog.stmt op

def onAuth {α : Type} (p : AuthProg α) : AppProg α := p.translate .auth fun _ r => r

def onCustomers {α : Type} (p : CustomerProg α) : AppProg α := p.translate .customer fun _ r => r

def onExports {α : Type} (p : ExportProg α) : AppProg α := p.translate .export fun _ r => r

/-- The random values of a call. -/
structure AppEntropy where
  auth : Entropy
  customer : CustomerEntropy
deriving DecidableEq, Repr

namespace CustomerTransferService

def exportMaxRows : ℕ := 100000

def requestExport (dto : CustomerExportRequest) (userId : ℕ) : AppProg Payload := do
  let total ← perform (.customer (.countGet dto.keywords dto.status))
  if exportMaxRows < total then
    .throw (.validation "The selection is too large to export." [("keywords",
      s!"Export is limited to {exportMaxRows} customers per file; " ++
        "narrow the filters and try again.")])
  else do
    let jobId ← perform (.dispatch JobType.customerExport (.export dto.keywords dto.status userId))
    pure (.queuedExport jobId "pending" total)

/-- What `assertImportFile` throws. -/
def importFileError (file : UploadedFile) : Option Failure :=
  let megabytes := -(-E.uploadImportMaxBytes / 1048576)
  if file.error ≠ 0 then
    some (.validation "Import upload failed."
      [("file", "The file could not be uploaded; please try again.")])
  else if file.size.any (E.uploadImportMaxBytes < ·) then
    some (.validation "Import file is too large."
      [("file", s!"Import files must not exceed {megabytes} MB.")])
  else if strtolower (pathinfoExtension file.clientFilename) ≠ ascii "csv" then
    some (.validation "Import file type is not allowed."
      [("file", "Only .csv files can be imported.")])
  else none

def normalizeHeader (header : Csv.Record) : List Bytes :=
  header.map fun column =>
    let column := column.getD []
    strtolower (trim (if [0xEF, 0xBB, 0xBF] <+: column then column.drop 3 else column))

def assertImportHeader (path : Bytes) : AppProg Unit := do
  let contents ← perform (.customer (.readFile path))
  match contents with
  | none => .throw (.appException "The import file could not be read."
      HttpStatus.internalServerError)
  | some contents =>
    if (Csv.records contents).head?.any fun header => ascii "name" ∈ normalizeHeader header then
      pure ()
    else .throw (.validation "Import CSV is missing a name column."
      [("file", "The CSV header must contain a name column.")])

/-- The upload helper of an import keeps its files below the storage directory. -/
def importUploads : CustomerEnv :=
  { E.customer with uploadDirectory := implode [47] [E.customer.storageRoot, ascii "imports"] }

def requestImport (R : CustomerEntropy) (file : UploadedFile) (userId : ℕ) : AppProg Payload := do
  match importFileError E file with
  | some e => .throw e
  | none => do
    let relativePath ← onCustomers (UploadHelper.store (importUploads E) R file [])
    match relativePath with
    | none => .throw (.appException "The import file could not be stored."
        HttpStatus.internalServerError)
    | some relativePath => do
      let fileName := basename relativePath
      assertImportHeader (CustomerImportJob.customerImportFile E.customer fileName)
      let jobId ← perform (.dispatch JobType.customerImport (.import fileName userId))
      pure (.queuedImport jobId "pending" fileName)

end CustomerTransferService

/-! ## Controllers and middleware -/

/-- What a controller is given: the request, its `user` attribute, the `id` of its route and the
random values. -/
structure Context where
  request : Request
  user : Option RequestUser
  id : Option Bytes
  entropy : AppEntropy

namespace Controller

variable (c : Context)

/-- Respond with what the service returns, or with the error envelope of its `AppException`. -/
def attempt {α : Type} (service : AppProg α) (response : α → Response) : AppProg Response :=
  Prog.tryCatch (response <$> service) fun
    | .app exception => pure (BaseController.errorResponse E exception)
    | e => .throw e

/-- Refuse a payload with errors. -/
def validated (errors : List (String × String)) (next : AppProg Response) : AppProg Response :=
  if errors = [] then next else pure (BaseController.validationError E errors)

/-- Refuse a request without a user. -/
def authenticated (next : RequestUser → AppProg Response) : AppProg Response :=
  match c.user with
  | none => pure (JsonResponse.error E "Authentication required." .empty HttpStatus.unauthorized)
  | some user => next user

namespace Auth

def userAgent : Option Bytes :=
  if trim c.request.userAgent = [] then none else some (trim c.request.userAgent)

def ipAddress : Option Bytes :=
  match c.request.remoteAddr with
  | .string address => if trim address = [] then none else some address
  | _ => none

def sessionResponse (session : Session) (message : String) (status : ℕ) : Response :=
  let response := JsonResponse.success E
    (.session session.accessToken session.tokenType session.expiresIn session.user) message []
    status
  if session.refreshToken = [] then response
  else { response with setCookie := response.setCookie ++
    [RefreshCookie.toHeader (RefreshCookie.create E session.refreshToken)] }

def clearCookie (response : Response) : Response :=
  { response with
    setCookie := response.setCookie ++ [RefreshCookie.toHeader (RefreshCookie.clear E)] }

def register : AppProg Response :=
  let dto := RegisterRequest.fromRequest c.request.body
  validated E (RegisterRequest.validate E dto) <|
    attempt E (onAuth (AuthService.register E.auth c.entropy.auth dto (userAgent c) (ipAddress c)))
      fun session => sessionResponse E session "Account created." HttpStatus.created

def login : AppProg Response :=
  let dto := LoginRequest.fromRequest c.request.body
  validated E (LoginRequest.validate E dto) <|
    attempt E (onAuth (AuthService.login E.auth c.entropy.auth dto (userAgent c) (ipAddress c)))
      fun session => sessionResponse E session "Signed in." HttpStatus.ok

def refresh : AppProg Response :=
  match RefreshCookie.fromRequest c.request with
  | none => pure (clearCookie E
      (JsonResponse.error E "No active session." .empty HttpStatus.unauthorized))
  | some token =>
    Prog.tryCatch ((sessionResponse E · "Session refreshed." HttpStatus.ok) <$>
        onAuth (AuthService.refresh E.auth c.entropy.auth token (userAgent c) (ipAddress c))) fun
      | .app exception => pure (clearCookie E (BaseController.errorResponse E exception))
      | e => .throw e

def logout : AppProg Response :=
  let response := clearCookie E (JsonResponse.success E .empty "Signed out." [] HttpStatus.ok)
  match RefreshCookie.fromRequest c.request with
  | none => pure response
  | some token => (fun _ => response) <$> onAuth (AuthService.logout E.auth token)

def me : AppProg Response :=
  authenticated E c fun authUser =>
    attempt E (onAuth (AuthService.user authUser.id))
      fun user =>
        JsonResponse.success E (.user user) JsonResponse.defaultSuccessMessage [] HttpStatus.ok

def updateProfile : AppProg Response :=
  authenticated E c fun authUser =>
    let name := UpdateProfileRequest.fromRequest c.request.body
    validated E (UpdateProfileRequest.validate name) <|
      attempt E (onAuth (AuthService.updateProfile authUser.id name))
        fun user => JsonResponse.success E (.user user) "Profile updated." [] HttpStatus.ok

def changePassword : AppProg Response :=
  authenticated E c fun authUser =>
    let dto := ChangePasswordRequest.fromRequest c.request.body
    validated E (ChangePasswordRequest.validate dto) <|
      attempt E (onAuth (AuthService.changePassword E.auth c.entropy.auth authUser.id dto
          (RefreshCookie.fromRequest c.request)))
        fun _ => JsonResponse.success E .empty "Password changed." [] HttpStatus.ok

end Auth

namespace Customer

def list : AppProg Response :=
  let dto := CustomerListRequest.fromRequest E c.request.query
  validated E dto.validate do
    let result ← onCustomers (CustomerService.list E.customer c.entropy.customer dto.keywords
      dto.status dto.page dto.limit)
    match result with
    | .list result => pure (JsonResponse.success E (.customers result.data) "Customers retrieved."
        [("total_page", result.totalPage), ("total_data", result.totalData)] HttpStatus.ok)
    | .stats _ => pure (JsonResponse.success E .null "Customers retrieved." [] HttpStatus.ok)

def stats : AppProg Response := do
  let result ← onCustomers (CustomerService.stats E.customer c.entropy.customer)
  pure (JsonResponse.success E (.cached result) JsonResponse.defaultSuccessMessage [] HttpStatus.ok)

def «show» : AppProg Response :=
  attempt E (onCustomers (CustomerService.get E.customer (positiveId c.id)))
    fun customer => JsonResponse.success E (.customer customer)
      JsonResponse.defaultSuccessMessage [] HttpStatus.ok

def create : AppProg Response :=
  let dto := CustomerCreateRequest.fromRequest c.request.body
  validated E (dto.validate E.customer) <|
    attempt E (onCustomers (CustomerService.create E.customer dto.toArray))
      fun customer =>
        JsonResponse.success E (.customer customer) "Customer created." [] HttpStatus.created

def update : AppProg Response :=
  let dto := CustomerUpdateRequest.fromRequest c.request.body c.id
  validated E (dto.validate E) <|
    attempt E (onCustomers (CustomerService.update E.customer dto.id dto.payload.toArray))
      fun customer =>
        JsonResponse.success E (.customer customer) "Customer updated." [] HttpStatus.ok

def delete : AppProg Response :=
  attempt E (onCustomers (CustomerService.delete E.customer (positiveId c.id)))
    fun _ => JsonResponse.success E .empty "Customer deleted." [] HttpStatus.ok

def uploadAvatar : AppProg Response :=
  match c.request.files (ascii "avatar") with
  | none => pure (BaseController.validationError E [("avatar", "An avatar file is required.")])
  | some avatar =>
    attempt E (onCustomers (CustomerService.uploadAvatar E.customer c.entropy.customer
        (positiveId c.id) avatar))
      fun customer => JsonResponse.success E (.customer customer) "Avatar updated." [] HttpStatus.ok

def removeAvatar : AppProg Response :=
  attempt E (onCustomers (CustomerService.removeAvatar E.customer (positiveId c.id)))
    fun customer => JsonResponse.success E (.customer customer) "Avatar removed." [] HttpStatus.ok

end Customer

namespace CustomerTransfer

def «export» : AppProg Response :=
  authenticated E c fun authUser =>
    let dto := CustomerExportRequest.fromRequest c.request.body
    validated E dto.validate <|
      attempt E (CustomerTransferService.requestExport dto authUser.id)
        fun result => JsonResponse.success E result "Export queued." [] HttpStatus.accepted

def «import» : AppProg Response :=
  authenticated E c fun authUser =>
    match c.request.files (ascii "file") with
    | none => pure (BaseController.validationError E [("file", "A CSV file is required.")])
    | some file =>
      attempt E (CustomerTransferService.requestImport E c.entropy.customer file authUser.id)
        fun result => JsonResponse.success E result "Import queued." [] HttpStatus.accepted

/-- The job that a route argument names, `none` where there is none. -/
def findJob (jobId : ℕ) : AppProg (Option JobData) :=
  if 0 < jobId then perform (.getStatus jobId) else pure none

/-- `download` of a completed export. -/
def sendFile (path : Bytes) : AppProg Response := do
  let isFile ← perform (.customer (.isFile path))
  if isFile then do
    let contents ← perform (.customer (.readFile path))
    pure ⟨HttpStatus.ok, .csv (basename path) (contents.getD []), []⟩
  else pure (JsonResponse.error E "The export file is no longer available." .empty
    HttpStatus.notFound)

def download : AppProg Response := do
  let jobId := positiveId c.id
  let job ← findJob jobId
  match job with
  | none => pure (JsonResponse.error E "Export not found." .empty HttpStatus.notFound)
  | some job =>
    if job.type ≠ JobType.customerExport then
      pure (JsonResponse.error E "Export not found." .empty HttpStatus.notFound)
    else if job.state.status ≠ JobStatus.completed then
      pure (JsonResponse.error E "Export is not completed yet." (.jobStatus job.state.status)
        HttpStatus.conflict)
    else sendFile E (CustomerExportJob.customerExportFile E.customer jobId)

end CustomerTransfer

namespace Job

/-- The `download_url` of a completed export. -/
def downloadUrl (job : JobData) : Option Bytes :=
  if job.type = JobType.customerExport ∧ job.state.status = JobStatus.completed then
    some (E.customer.appBaseUrl.rdropWhile (· = 47) ++ ascii "/customer/export/" ++ natString job.id
      ++ ascii "/download")
  else none

def status : AppProg Response := do
  let job ← CustomerTransfer.findJob (positiveId c.id)
  match job with
  | none => pure (JsonResponse.error E "Job not found." .empty HttpStatus.notFound)
  | some job => pure (JsonResponse.success E (.job job (downloadUrl E job))
      JsonResponse.defaultSuccessMessage [] HttpStatus.ok)

end Job

namespace Health

def checkDatabase : AppProg Bool :=
  Prog.tryCatch ((fun _ => true) <$> perform .selectOne) fun _ => pure false

/-- The response to the checks, at the instant it is made. -/
def report (environment : Option Bytes) (checks : List (String × Bool)) : AppProg Response := do
  let now ← time
  let healthy := checks.all (·.2)
  pure (JsonResponse.withJson E
    (.health (if healthy then "ok" else "degraded") now environment checks)
    (if healthy then HttpStatus.ok else HttpStatus.serviceUnavailable))

def liveness : AppProg Response := report E none []

def readiness : AppProg Response := do
  let database ← checkDatabase
  report E none [("database", database)]

def detailed : AppProg Response := do
  let database ← checkDatabase
  let storage ← perform .storageWritable
  report E (some (E.appEnvironment.getD (ascii "production")))
    [("database", database), ("storage", storage)]

end Health

namespace Hello

def getStatus : AppProg Response :=
  pure (JsonResponse.success E (.application (E.appName.getD (ascii "Slim 4 Starter Pack"))
    (E.appVersion.getD (ascii "dev"))) "Application is running" [] HttpStatus.ok)

def getStatusAPI : AppProg Response :=
  pure (JsonResponse.success E (.message "Hello world!") JsonResponse.defaultSuccessMessage []
    HttpStatus.ok)

def openSwaggerUI : AppProg Response := pure ⟨HttpStatus.ok, .template "swagger/view.twig", []⟩

end Hello

end Controller

/-- The rest of a request's handling, given its `user` attribute. -/
abbrev RequestHandler : Type := Option RequestUser → AppProg Response

/-- What comes of a request without a user. -/
def AuthenticationMiddleware.refuse (request : Request) : AppProg Response :=
  match JwtHelper.requestError E request with
  | some e => .throw e
  | none => pure (JsonResponse.error E "Authorization token is missing or invalid." .empty
      HttpStatus.unauthorized)

def AuthenticationMiddleware.process (request : Request) (handler : RequestHandler) :
    RequestHandler := fun _ => do
  let now ← time
  match JwtHelper.requestUser E request now with
  | none => refuse E request
  | some user => handler (some user)

def AuthorizationMiddleware.process (allowedTypes : List Bytes) (handler : RequestHandler) :
    RequestHandler := fun
  | none => pure (JsonResponse.error E "Authentication required." .empty HttpStatus.unauthorized)
  | some user =>
    if allowedTypes ≠ [] ∧ user.type ∉ allowedTypes then
      pure (JsonResponse.error E "Access denied." .empty HttpStatus.forbidden)
    else handler (some user)

def HealthTokenMiddleware.process (request : Request) (handler : RequestHandler) :
    RequestHandler := fun user =>
  -- `?:` takes an empty setting for an absent one.
  let environment := strtolower ((E.appEnvironment.filter (· ≠ [])).getD (ascii "production"))
  if E.healthcheckToken = [] ∧ environment ∈ [ascii "development", ascii "testing"] then
    handler user
  else if E.healthcheckToken = [] then
    pure (JsonResponse.error E "Health diagnostics are not configured." .empty
      HttpStatus.serviceUnavailable)
  else if request.healthToken = [] ∨ request.healthToken ≠ E.healthcheckToken then
    pure (JsonResponse.error E "Health diagnostic authorization required." .empty
      HttpStatus.unauthorized)
  else handler user

inductive Middleware where
  | authentication
  | authorization (allowedTypes : List Bytes)
  | healthToken
deriving DecidableEq, Repr

def Middleware.process (request : Request) : Middleware → RequestHandler → RequestHandler
  | authentication => AuthenticationMiddleware.process E request
  | authorization allowedTypes => AuthorizationMiddleware.process E allowedTypes
  | healthToken => HealthTokenMiddleware.process E request

/-! ## Routes -/

/-- The callables of the route table. -/
inductive Action where
  | getStatus | getStatusAPI | openSwaggerUI | preflight | notFound
  | liveness | readiness | detailed
  | register | login | refresh | logout | me | updateProfile | changePassword
  | list | stats | download | show | export | import
  | create | update | delete | uploadAvatar | removeAvatar
  | jobStatus
deriving DecidableEq, Repr

open Controller in
def Action.run (c : Context) : Action → AppProg Response
  | getStatus => Hello.getStatus E
  | getStatusAPI => Hello.getStatusAPI E
  | openSwaggerUI => Hello.openSwaggerUI
  | preflight => pure ⟨HttpStatus.ok, .empty, []⟩
  | notFound => .throw (.appException "Not found." HttpStatus.notFound)
  | liveness => Health.liveness E
  | readiness => Health.readiness E
  | detailed => Health.detailed E
  | register => Controller.Auth.register E c
  | login => Controller.Auth.login E c
  | refresh => Controller.Auth.refresh E c
  | logout => Controller.Auth.logout E c
  | me => Controller.Auth.me E c
  | updateProfile => Controller.Auth.updateProfile E c
  | changePassword => Controller.Auth.changePassword E c
  | list => Customer.list E c
  | stats => Customer.stats E c
  | download => CustomerTransfer.download E c
  | «show» => Customer.show E c
  | «export» => CustomerTransfer.export E c
  | «import» => CustomerTransfer.import E c
  | create => Customer.create E c
  | update => Customer.update E c
  | delete => Customer.delete E c
  | uploadAvatar => Customer.uploadAvatar E c
  | removeAvatar => Customer.removeAvatar E c
  | jobStatus => Job.status E c

/-- A part of a route's path: a text, or the placeholder `{id}`. -/
inductive Segment where
  | literal (s : Bytes)
  | id
deriving DecidableEq, Repr

/-- The path of a route: its parts, or any path but `/`. -/
inductive Pattern where
  | segments (l : List Segment)
  | all
deriving DecidableEq, Repr

/-- A route; `add` has its middleware in the order of the calls of `add`, innermost first. -/
structure Route where
  methods : List Bytes
  pattern : Pattern
  action : Action
  add : List Middleware
deriving DecidableEq, Repr

/-- The route of a method and of a path that is written with `{id}`. -/
def Route.of (method path : String) (action : Action) (add : List Middleware) : Route where
  methods := [ascii method]
  pattern := .segments ((explode 47 (ascii path)).tail.map fun s =>
    if s = ascii "\x7bid\x7d" then .id else .literal s)
  action := action
  add := add

def adminOnly : Middleware := .authorization [UserType.admin]

/-- The manifest of `Routes.php`, and then `NotFound.php`. -/
def routes : List Route :=
  [ -- core.php
    .of "GET" "/" .getStatus [],
    .of "GET" "/status" .getStatusAPI [],
    .of "GET" "/swaggerui" .openSwaggerUI [],
    ⟨[ascii "OPTIONS"], .all, .preflight, []⟩,
    -- health.php
    .of "GET" "/health" .liveness [],
    .of "GET" "/health/ready" .readiness [],
    .of "GET" "/health/detailed" .detailed [.healthToken],
    -- auth.php
    .of "POST" "/auth/register" .register [],
    .of "POST" "/auth/login" .login [],
    .of "POST" "/auth/refresh" .refresh [],
    .of "POST" "/auth/logout" .logout [],
    .of "GET" "/auth/me" .me [.authentication],
    .of "PUT" "/auth/profile" .updateProfile [.authentication],
    .of "POST" "/auth/change-password" .changePassword [.authentication],
    -- customer.php
    .of "GET" "/customer" .list [.authentication],
    .of "GET" "/customer/stats" .stats [.authentication],
    .of "GET" "/customer/export/\x7bid\x7d/download" .download [.authentication],
    .of "GET" "/customer/\x7bid\x7d" .show [.authentication],
    .of "POST" "/customer/export" .export [.authentication],
    .of "POST" "/customer/import" .import [adminOnly, .authentication],
    .of "POST" "/customer" .create [adminOnly, .authentication],
    .of "PUT" "/customer/\x7bid\x7d" .update [adminOnly, .authentication],
    .of "DELETE" "/customer/\x7bid\x7d" .delete [adminOnly, .authentication],
    .of "POST" "/customer/\x7bid\x7d/avatar" .uploadAvatar [adminOnly, .authentication],
    .of "DELETE" "/customer/\x7bid\x7d/avatar" .removeAvatar [adminOnly, .authentication],
    -- jobs.php
    .of "GET" "/jobs/\x7bid\x7d" .jobStatus [.authentication],
    -- NotFound.php
    ⟨["GET", "POST", "PUT", "DELETE", "PATCH"].map ascii, .all, .notFound, []⟩]

namespace Pattern

/-- A path without placeholders is looked up as a text, before the others are tried. -/
def isStatic : Pattern → Bool
  | segments l => .id ∉ l
  | all => false

/-- The argument, if any, of the parts of a path that match. -/
def matchSegments : List Segment → List Bytes → Option (Option Bytes)
  | [], [] => some none
  -- `$` also matches before a final line feed.
  | [.literal s], [part] => if part = s ∨ part = s ++ [10] then some none else none
  | .literal s :: l, part :: parts => if part = s then matchSegments l parts else none
  | .id :: l, part :: parts =>
    if part = [] then none else (matchSegments l parts).map fun _ => some part
  | _, _ => none

/-- The argument, if any, of a path that matches. -/
def «match» (path : Bytes) : Pattern → Option (Option Bytes)
  | segments l =>
    if (segments l).isStatic then
      if path = l.flatMap (fun | .literal s => 47 :: s | .id => []) then some none else none
    else if path.head? = some 47 then matchSegments l (explode 47 path).tail
    else none
  | all =>
    let rest := path.tail
    let line := if rest.getLast? = some 10 then rest.dropLast else rest
    if path.head? = some 47 ∧ line ≠ [] ∧ 10 ∉ line then some none else none

end Pattern

/-- The route of a method and a path, with its argument. -/
def findRoute (method path : Bytes) : Option (Route × Option Bytes) :=
  let candidates := routes.filter (method ∈ ·.methods)
  (candidates.filter (·.pattern.isStatic) ++ candidates.filter (!·.pattern.isStatic)).findSome?
    fun route => (route.pattern.match path).map fun id => (route, id)

/-- What `handle` makes of a route that was found: the action inside the middleware. -/
def Route.handle (request : Request) (R : AppEntropy) (id : Option Bytes) (route : Route) :
    AppProg Response :=
  route.add.foldl (fun handler m => m.process E request handler)
    (fun user => route.action.run E ⟨request, user, id.map E.rawurldecode, R⟩) none

namespace App

/-- The status code of the response to an exception. -/
def statusCode : Failure → ℕ
  | .app exception =>
    if 400 ≤ exception.httpStatus ∧ exception.httpStatus ≤ 599 then exception.httpStatus
    else HttpStatus.internalServerError
  | _ => HttpStatus.internalServerError

/-- The error handler, given the exception that it is to respond to. -/
def errorHandler (e : Failure) : Response :=
  let data : Content :=
    if E.displayErrorDetails then
      .problem (E.describe e).message (statusCode e)
        (some ((E.describe e).className, (E.describe e).file))
    else .problem "An unexpected server error occurred." (statusCode e) none
  ⟨statusCode e, if E.jsonEncodes data then data else .bareProblem (statusCode e), []⟩

/-- The handling of a request inside the error middleware. A `HEAD` request takes the route of a
`GET` where it has none, and a method that a path has no route for is not allowed. -/
def handle (request : Request) (R : AppEntropy) : AppProg Response :=
  let found := findRoute request.method request.path <|>
    if request.method = ascii "HEAD" then findRoute (ascii "GET") request.path else none
  match found with
  | some (route, id) =>
    Prog.tryCatch (route.handle E request R id) fun e => pure (errorHandler E e)
  | none =>
    let allowed := routes.any fun route => (route.pattern.match request.path).isSome
    pure (errorHandler E (.appException "" (if allowed then 405 else HttpStatus.notFound)))

end App

/-- The job registry: the handler of the type of a job, given its payload. -/
def JobRegistry.handle (job : JobData) : AppProg JobResult :=
  if job.type = JobType.customerExport then
    .exported <$> onExports (CustomerExportJob.handle E.customer E.datetime job.id
      job.payload.keywords job.payload.status true)
  else if job.type = JobType.customerImport then
    .imported <$> onCustomers (CustomerImportJob.handle E.customer job.payload.file true)
  else .throw (.runtime "No handler is registered for the job.")

/-- A request with the instant it arrives at, a job that a worker runs, or an entry of the queue in
the account of a job. -/
inductive AppCall where
  | request (arrival : Int) (request : Request)
  | work (job : JobData)
  | record (jobId : ℕ) (state : JobState)

inductive AppResult where
  | response (response : Response)
  | job (result : JobResult)
  | void
deriving DecidableEq, Repr

/-- The program of a call. -/
def AppCall.prog (R : AppEntropy) : AppCall → AppProg AppResult
  | .request _ received => .response <$> App.handle E received R
  | .work job => .job <$> JobRegistry.handle E job
  | .record jobId state => (fun _ => .void) <$> perform (.record jobId state)

section Runs

variable {E} {α : Type} {i : Int} {db : AppDb}

theorem run_onCustomers (p : CustomerProg α) (i : Int) (db : AppDb) :
    (onCustomers p).run E.exec i db = ((p.run E.customer.exec i db.customer).1,
      { db with customer := (p.run E.customer.exec i db.customer).2 }) := by
  refine Prog.run_translate AppDb.customer (fun db c => { db with customer := c })
    (fun op now db => ⟨?_, rfl⟩) (fun _ => rfl) (fun _ _ => rfl) (fun _ _ _ => rfl) p db
  show Except.map (fun r => r) (E.customer.exec op now db.customer).1 = _
  cases (E.customer.exec op now db.customer).1 <;> rfl

theorem run_onExports (p : ExportProg α) (i : Int) (db : AppDb) :
    (onExports p).run E.exec i db = ((p.run E.customer.execExport i db.customer).1,
      { db with customer := (p.run E.customer.execExport i db.customer).2 }) := by
  refine Prog.run_translate AppDb.customer (fun db c => { db with customer := c })
    (fun op now db => ⟨?_, rfl⟩) (fun _ => rfl) (fun _ _ => rfl) (fun _ _ _ => rfl) p db
  show Except.map (fun r => r) (E.customer.execExport op now db.customer).1 = _
  cases (E.customer.execExport op now db.customer).1 <;> rfl

theorem run_attempt_db {service : AppProg α} {response : α → Response} :
    ((Controller.attempt E service response).run E.exec i db).2 = (service.run E.exec i db).2 := by
  rw [Controller.attempt, Prog.run_tryCatch, Prog.run_map]
  rcases service.run E.exec i db with ⟨e | a, db'⟩
  · cases e <;> rfl
  · rfl

section Handle

variable {request : Request} {R : AppEntropy} {route : Route} {id : Option Bytes}
variable {user : RequestUser} (hroute : findRoute request.method request.path = some (route, id))
variable (huser : JwtHelper.requestUser E request i = some user)
variable (hadd : route.add = [.authentication]
  ∨ route.add = [adminOnly, .authentication] ∧ user.type = UserType.admin)

include hroute huser hadd

/-- The response to a request whose token lets it pass the middleware of its route is the one of
the action, or of the error handler where the action throws. -/
theorem App.run_handle : (App.handle E request R).run E.exec i db =
    match (route.action.run E ⟨request, some user, id.map E.rawurldecode, R⟩).run E.exec i db with
    | (.ok response, db') => (.ok response, db')
    | (.error e, db') => (.ok (errorHandler E e), db') := by
  have hhandle : (route.handle E request R id).run E.exec i db =
      (route.action.run E ⟨request, some user, id.map E.rawurldecode, R⟩).run E.exec i db := by
    unfold Route.handle
    rcases hadd with hadd | ⟨hadd, hadmin⟩
    · rw [hadd]
      simp only [List.foldl_cons, List.foldl_nil, Middleware.process,
        AuthenticationMiddleware.process, Prog.time_bind, Prog.run_clock, huser]
    · rw [hadd]
      simp only [List.foldl_cons, List.foldl_nil, Middleware.process, adminOnly,
        AuthenticationMiddleware.process, AuthorizationMiddleware.process, Prog.time_bind,
        Prog.run_clock, huser, hadmin, List.mem_singleton, not_true_eq_false, and_false, if_false]
  unfold App.handle
  simp only [hroute]
  change (Prog.tryCatch (route.handle E request R id) _).run E.exec i db = _
  rw [Prog.run_tryCatch, hhandle]
  rcases (route.action.run E ⟨request, some user, id.map E.rawurldecode, R⟩).run E.exec i db with
    ⟨e | response, db'⟩ <;> rfl

theorem App.run_handle_db : ((App.handle E request R).run E.exec i db).2 =
    ((route.action.run E ⟨request, some user, id.map E.rawurldecode, R⟩).run E.exec i db).2 := by
  rw [App.run_handle hroute huser hadd]
  rcases (route.action.run E ⟨request, some user, id.map E.rawurldecode, R⟩).run E.exec i db with
    ⟨e | response, db'⟩ <;> rfl

end Handle

end Runs

end SlimStarter
