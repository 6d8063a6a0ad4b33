import SlimStarter.Lib.Throws
import SlimStarter.Http.Access

/-!
# What requests are answered

The controllers document the statuses of their endpoints in their `OA\Response` attributes
(`Action.documented`). Whatever the statements of a request reply or fail with, it ends with a
response whose status is documented or 500, but for the two cases of `Action.undocumented` and the
routes without documentation (`requests_answered`).
-/

namespace SlimStarter

open Prog (FailsWith Throws Meets)

/-- Not an `AppException`: what the libraries throw, and PHP itself. -/
def Failure.IsFault (e : Failure) : Prop := ∀ exception, e ≠ .app exception

/-- An `AppException` has one of these statuses. -/
def Failure.Refuses (codes : List ℕ) (e : Failure) : Prop :=
  ∀ exception, e = .app exception → exception.httpStatus ∈ codes

/-- The program throws an `AppException` with one of these statuses only. -/
abbrev Refuses {Op : Type} {Res : Op → Type} {α : Type} (codes : List ℕ)
    (p : Prog Op Res Int Failure α) : Prop :=
  Throws Failure.IsFault (Failure.Refuses codes) p

namespace Failure

theorem IsFault.refuses {codes : List ℕ} {e : Failure} (h : e.IsFault) : e.Refuses codes :=
  fun exception he => absurd he (h exception)

theorem refuses_app {codes : List ℕ} {exception : AppException}
    (h : exception.httpStatus ∈ codes) : (Failure.app exception).Refuses codes := by
  rintro _ ⟨⟩
  exact h

theorem Refuses.mono {codes codes' : List ℕ} (hcodes : ∀ code ∈ codes, code ∈ codes')
    {e : Failure} (h : e.Refuses codes) : e.Refuses codes' :=
  fun exception he => hcodes _ (h exception he)

end Failure

section Programs

variable {Op : Type} {Res : Op → Type} {α : Type} {codes : List ℕ}

theorem refuses_call {op : Op} {f : Res op → Prog Op Res Int Failure α}
    (h : ∀ a, Refuses codes (f a)) : Refuses codes (.call op (Prog.resume f)) :=
  Prog.throws_call_resume (fun _ he => he.refuses) h

theorem refuses_stmt (op : Op) :
    Refuses codes (Prog.stmt op : Prog Op Res Int Failure (Res op)) :=
  Prog.throws_stmt (fun _ he => he.refuses) op

theorem Refuses.mono {codes' : List ℕ} {p : Prog Op Res Int Failure α} (h : Refuses codes p)
    (hcodes : ∀ code ∈ codes, code ∈ codes') : Refuses codes' p :=
  Throws.mono h fun _ he => he.mono hcodes

end Programs

theorem refuses_onAuth {α : Type} {codes : List ℕ} {p : AuthProg α} (h : Refuses codes p) :
    Refuses codes (onAuth p) :=
  Meets.translate h

theorem refuses_onCustomers {α : Type} {codes : List ℕ} {p : CustomerProg α}
    (h : Refuses codes p) : Refuses codes (onCustomers p) :=
  Meets.translate h

namespace AuthService

variable {F : AuthEnv} {R : Entropy}

theorem refuses_createSession (user : UserRow) (userAgent ipAddress familyId : Option Bytes) :
    Refuses [] (createSession F R user userAgent ipAddress familyId) := by
  unfold createSession buildAccessToken
  simp only [Prog.time_bind, Prog.stmt_bind]
  exact fun _ => refuses_call fun _ => refuses_call fun _ _ => trivial

theorem refuses_passwordHash {codes : List ℕ} (password : Bytes) :
    Refuses codes (passwordHash F R password) := by
  unfold passwordHash
  cases F.passwordHash R.salt password with
  | none => exact fun exception he => by cases he
  | some hash => trivial

theorem refuses_register (dto : RegisterRequest) (userAgent ipAddress : Option Bytes) :
    Refuses [400, 500] (register F R dto userAgent ipAddress) := by
  unfold register
  simp only [Prog.stmt_bind]
  refine refuses_call fun taken => ?_
  split_ifs
  · exact Failure.refuses_app (by decide)
  · refine (refuses_passwordHash _).bind fun hash => ?_
    refine refuses_call fun userId => refuses_call fun user => ?_
    cases user with
    | none => exact Failure.refuses_app (by decide)
    | some user => exact (refuses_createSession _ _ _ _).mono (by simp)

theorem refuses_login (dto : LoginRequest) (userAgent ipAddress : Option Bytes) :
    Refuses [401] (login F R dto userAgent ipAddress) := by
  unfold login
  simp only [Prog.stmt_bind]
  refine refuses_call fun user => ?_
  cases user with
  | none => exact Failure.refuses_app (by decide)
  | some user =>
    simp only
    split_ifs
    · exact refuses_call fun _ => refuses_call fun _ =>
        (refuses_createSession _ _ _ _).mono (by simp)
    · exact Failure.refuses_app (by decide)

theorem refuses_refresh (token : Bytes) (userAgent ipAddress : Option Bytes) :
    Refuses [401] (refresh F R token userAgent ipAddress) := by
  unfold refresh
  simp only [Prog.stmt_bind, Prog.time_bind]
  refine refuses_call fun row => ?_
  cases row with
  | none => exact Failure.refuses_app (by decide)
  | some row =>
    simp only
    split_ifs
    · exact refuses_call fun _ => Failure.refuses_app (by decide)
    · intro now
      simp only
      split_ifs
      · exact refuses_call fun _ => Failure.refuses_app (by decide)
      · unfold rotate
        rw [Prog.stmt_bind]
        refine refuses_call fun user => ?_
        cases user with
        | none => exact Failure.refuses_app (by decide)
        | some user =>
          simp only [rotateAs, Prog.stmt_bind]
          exact refuses_call fun _ => (refuses_createSession _ _ _ _).mono (by simp)

theorem refuses_logout (token : Bytes) : Refuses [] (logout F token) := by
  unfold logout
  simp only [Prog.stmt_bind]
  refine refuses_call fun row => ?_
  cases row with
  | none => trivial
  | some row => exact refuses_call fun _ => trivial

theorem refuses_user (id : ℕ) : Refuses [401] (user id) := by
  unfold user
  simp only [Prog.stmt_bind]
  refine refuses_call fun user => ?_
  cases user with
  | none => exact Failure.refuses_app (by decide)
  | some user => trivial

theorem refuses_updateProfile (id : ℕ) (name : Bytes) :
    Refuses [401, 404] (updateProfile id name) := by
  unfold updateProfile
  simp only [Prog.stmt_bind]
  refine refuses_call fun found => ?_
  cases found with
  | none => exact Failure.refuses_app (by decide)
  | some found => exact refuses_call fun _ => (refuses_user id).mono (by simp)

theorem refuses_changePassword (id : ℕ) (dto : ChangePasswordRequest)
    (currentRefreshToken : Option Bytes) :
    Refuses [400] (changePassword F R id dto currentRefreshToken) := by
  have hothers : ∀ keepFamily, Refuses [400] (revokeOthers id keepFamily) := by
    intro keepFamily
    unfold revokeOthers
    cases keepFamily <;> exact (refuses_stmt _).bind fun _ => trivial
  unfold changePassword
  simp only [Prog.stmt_bind]
  refine refuses_call fun user => ?_
  cases user with
  | none => exact Failure.refuses_app (by decide)
  | some user =>
    simp only
    split_ifs
    · refine (refuses_passwordHash _).bind fun hash => refuses_call fun _ => ?_
      cases currentRefreshToken with
      | none => exact hothers none
      | some token => exact refuses_call fun row => hothers _
    · exact Failure.refuses_app (by decide)

end AuthService

section Cache

variable {F : CustomerEnv} {R : CustomerEntropy} {c : CacheRedis} {codes : List ℕ}

theorem refuses_redis {β : Type} {p : CustomerProg β} (f : Failure → β) :
    Refuses codes (Prog.tryCatch p fun e => pure (f e)) :=
  Prog.throws_tryCatch fun _ => trivial

theorem refuses_cacheGet (key : Bytes) : Refuses codes (CacheRedis.get F c key) := by
  unfold CacheRedis.get
  split
  · trivial
  · exact refuses_redis fun _ => _

theorem refuses_cached {entity discriminator : Bytes} {ttl : Int} {producer : CustomerProg Cached}
    (h : Refuses codes producer) : Refuses codes (do
      let (cacheKey, cache) ← CacheRedis.namespaced F CacheRedis.fresh
        CustomerService.cacheNamespace entity discriminator
      let (result, _) ← CacheRedis.rememberJson F R cache cacheKey ttl producer
      pure result : CustomerProg Cached) := by
  have hnamespaced : Refuses codes (CacheRedis.namespaced F CacheRedis.fresh
      CustomerService.cacheNamespace entity discriminator) := by
    unfold CacheRedis.namespaced CacheRedis.version
    split
    · trivial
    · exact Throws.bind (Throws.bind (refuses_cacheGet _) fun _ => Prog.throws_ret _)
        fun _ => Prog.throws_ret _
  have hset : ∀ c key value, Refuses codes (CacheRedis.setJson F R c key value ttl) := by
    intro c key value
    unfold CacheRedis.setJson
    split
    · trivial
    · unfold CacheRedis.set
      split_ifs
      · trivial
      · split
        · trivial
        · exact refuses_redis fun _ => _
  refine hnamespaced.bind fun ⟨key, cache⟩ => ?_
  refine Throws.bind ?_ fun _ => trivial
  unfold CacheRedis.rememberJson CacheRedis.getJson
  refine Throws.bind ?_ fun ⟨found, cache⟩ => ?_
  · exact (refuses_cacheGet key).bind fun _ => trivial
  · cases found with
    | some found => trivial
    | none => exact h.bind fun value => (hset _ _ _).bind fun _ => trivial

end Cache

namespace CustomerService

variable {F : CustomerEnv} {R : CustomerEntropy}

theorem refuses_list (keywords : Bytes) (status : Option Bytes) (page limit : Int) :
    Refuses [] (list F R keywords status page limit) := by
  refine refuses_cached ?_
  unfold loadList
  simp only [Prog.stmt_bind]
  refine refuses_call fun totalData => ?_
  split_ifs
  · exact fun exception he => by cases he
  · exact refuses_call fun _ => trivial

theorem refuses_stats : Refuses [] (stats F R) := by
  have hcounts : ∀ statuses, Refuses [] (statusCounts statuses) := by
    intro statuses
    induction statuses with
    | nil => trivial
    | cons status statuses ih =>
      exact (refuses_stmt _).bind fun _ => ih.bind fun _ => trivial
  refine refuses_cached ((hcounts _).bind fun byStatus => ?_)
  simp only [Prog.stmt_bind, Prog.time_bind]
  exact refuses_call fun total now => refuses_call fun _ => trivial

theorem refuses_get (id : ℕ) : Refuses [404] (get F id) := by
  unfold get
  simp only [Prog.stmt_bind]
  refine refuses_call fun customer => ?_
  cases customer with
  | none => exact Failure.refuses_app (by decide)
  | some customer => trivial

theorem refuses_bump {codes : List ℕ} : Refuses codes (bump F) := by
  unfold bump CacheRedis.bump
  refine Throws.bind ?_ fun _ => trivial
  split
  · trivial
  · exact refuses_redis fun _ => _

theorem refuses_assertUnique (name : Bytes) (email : Option Bytes) (exceptId : Option ℕ) :
    Refuses [400] (assertUnique name email exceptId) := by
  have hrefused : ∀ nameTaken emailTaken, Refuses [400]
      (if uniqueErrors nameTaken emailTaken = [] then pure ()
        else .throw (.validation "Validation failed." (uniqueErrors nameTaken emailTaken)) :
        CustomerProg Unit) := by
    intro nameTaken emailTaken
    split_ifs
    · trivial
    · exact Failure.refuses_app (List.mem_singleton.mpr rfl)
  unfold assertUnique
  refine (refuses_stmt _).bind fun nameTaken => ?_
  cases email with
  | none => exact hrefused nameTaken false
  | some email => exact (refuses_stmt _).bind fun emailTaken => hrefused nameTaken emailTaken

theorem refuses_dropAvatar {codes : List ℕ} (path : Option Bytes) :
    Refuses codes (dropAvatar F path) := by
  unfold dropAvatar UploadHelper.deleteUploadedFile
  cases path with
  | none => trivial
  | some path =>
    refine Throws.bind ?_ fun _ => trivial
    split_ifs
    · trivial
    · cases UploadHelper.absolutePath F path with
      | none => trivial
      | some absolute =>
        refine (refuses_stmt _).bind fun isFile => ?_
        split_ifs
        · exact refuses_stmt _
        · trivial

theorem refuses_create (dto : CustomerData) : Refuses [400, 404] (create F dto) := by
  unfold create
  refine ((refuses_assertUnique _ _ _).mono (by simp)).bind fun _ =>
    (refuses_stmt _).bind fun id => refuses_bump.bind fun _ => (refuses_get id).mono (by simp)

theorem refuses_update (id : ℕ) (payload : CustomerData) :
    Refuses [400, 404] (update F id payload) := by
  unfold update
  refine (refuses_stmt _).bind fun found => ?_
  split_ifs
  · exact ((refuses_assertUnique _ _ _).mono (by simp)).bind fun _ =>
      (refuses_stmt _).bind fun _ => refuses_bump.bind fun _ => (refuses_get id).mono (by simp)
  · exact Failure.refuses_app (by decide)

theorem refuses_delete (id : ℕ) : Refuses [404] (delete F id) := by
  unfold delete
  refine (refuses_stmt _).bind fun customer => ?_
  cases customer with
  | none => exact Failure.refuses_app (by decide)
  | some customer =>
    exact (refuses_stmt _).bind fun _ => (refuses_dropAvatar _).bind fun _ => refuses_bump

theorem avatarError_refuses {file : UploadedFile} {e : Failure} (h : avatarError F file = some e) :
    e.Refuses [400] := by
  unfold avatarError at h
  simp only at h
  split_ifs at h <;>
  · obtain rfl := Option.some.inj h
    exact Failure.refuses_app (List.mem_singleton.mpr rfl)

theorem refuses_store {codes : List ℕ} (file : UploadedFile) (path : Bytes) :
    Refuses codes (UploadHelper.store F R file path) := by
  unfold UploadHelper.store
  simp only
  split_ifs <;> exact (refuses_stmt _).bind fun _ => trivial

theorem refuses_uploadAvatar (id : ℕ) (file : UploadedFile) :
    Refuses [400, 404, 500] (uploadAvatar F R id file) := by
  unfold uploadAvatar
  refine (refuses_stmt _).bind fun customer => ?_
  cases customer with
  | none => exact Failure.refuses_app (by decide)
  | some customer =>
    cases herror : avatarError F file with
    | some e => exact (avatarError_refuses herror).mono (by simp)
    | none =>
      refine Throws.bind ((refuses_store _ _).bind fun _ => trivial) fun path => ?_
      cases path with
      | none => exact Failure.refuses_app (by decide)
      | some path =>
        exact (refuses_stmt _).bind fun _ => (refuses_dropAvatar _).bind fun _ =>
          refuses_bump.bind fun _ => (refuses_get id).mono (by simp)

theorem refuses_removeAvatar (id : ℕ) : Refuses [404] (removeAvatar F id) := by
  unfold removeAvatar
  refine (refuses_stmt _).bind fun customer => ?_
  cases customer with
  | none => exact Failure.refuses_app (by decide)
  | some customer =>
    exact (refuses_stmt _).bind fun _ => (refuses_dropAvatar _).bind fun _ =>
      refuses_bump.bind fun _ => refuses_get id

end CustomerService

namespace CustomerTransferService

variable {E : AppEnv} {R : CustomerEntropy}

theorem refuses_requestExport (dto : CustomerExportRequest) (userId : ℕ) :
    Refuses [400] (requestExport dto userId) := by
  unfold requestExport
  refine (refuses_stmt _).bind fun total => ?_
  split_ifs
  · exact Failure.refuses_app (List.mem_singleton.mpr rfl)
  · exact (refuses_stmt _).bind fun _ => trivial

theorem importFileError_refuses {file : UploadedFile} {e : Failure}
    (h : importFileError E file = some e) : e.Refuses [400] := by
  unfold importFileError at h
  simp only at h
  split_ifs at h <;>
  · obtain rfl := Option.some.inj h
    exact Failure.refuses_app (List.mem_singleton.mpr rfl)

theorem refuses_assertImportHeader (path : Bytes) :
    Refuses [400, 500] (assertImportHeader path) := by
  unfold assertImportHeader
  refine (refuses_stmt _).bind fun contents => ?_
  cases contents with
  | none => exact Failure.refuses_app (by decide)
  | some contents =>
    simp only
    split_ifs
    · trivial
    · exact Failure.refuses_app (by decide)

theorem refuses_requestImport (file : UploadedFile) (userId : ℕ) :
    Refuses [400, 500] (requestImport E R file userId) := by
  unfold requestImport
  cases herror : importFileError E file with
  | some e => exact (importFileError_refuses herror).mono (by simp)
  | none =>
    refine Throws.bind (refuses_onCustomers (CustomerService.refuses_store _ _))
      fun relativePath => ?_
    cases relativePath with
    | none => exact Failure.refuses_app (by decide)
    | some relativePath =>
      exact (refuses_assertImportHeader _).bind fun _ => (refuses_stmt _).bind fun _ => trivial

end CustomerTransferService

/-! ## Responses -/

/-- An envelope says whether it is a success, and nothing else comes with an error. A problem
document has the status of the response; it has the fixed text, or, where the setting says so, what
an exception of that status tells of itself. -/
def Response.WellFormed (E : AppEnv) (response : Response) : Prop :=
  match response.content with
  | .envelope status _ _ _ => status = true ↔ response.httpStatus < 400
  | .encodingFailed _ => response.httpStatus = HttpStatus.internalServerError
  | .health status _ _ _ => status = "ok" ↔ response.httpStatus < 400
  | .problem message code details => code = response.httpStatus ∧ 400 ≤ code ∧ code ≤ 599
      ∧ if E.displayErrorDetails then
          ∃ e, App.statusCode e = code ∧ message = (E.describe e).message
            ∧ details = some ((E.describe e).className, (E.describe e).file)
        else message = "An unexpected server error occurred." ∧ details = none
  | .bareProblem code => code = response.httpStatus ∧ 400 ≤ code ∧ code ≤ 599
  | .empty | .csv _ _ | .template _ => response.httpStatus = HttpStatus.ok

/-- A response with one of these statuses, or with that of a server error, that sets a cookie only
where `cookies`. -/
structure Response.Answers (E : AppEnv) (codes : List ℕ) (cookies : Bool) (response : Response) :
    Prop where
  status : response.httpStatus ∈ codes ∨ response.httpStatus = HttpStatus.internalServerError
  wellFormed : response.WellFormed E
  cookie : response.setCookie ≠ [] → cookies = true

/-- Such a response, or an exception that the error handler makes one of. -/
def Answering (E : AppEnv) (codes : List ℕ) (cookies : Bool) : Except Failure Response → Prop
  | .ok response => response.Answers E codes cookies
  | .error e => e.Refuses codes

/-- While no statement fails with an `AppException`, the program ends so. -/
abbrev AnswersWith (E : AppEnv) (codes : List ℕ) (cookies : Bool) (p : AppProg Response) : Prop :=
  Meets (FailsWith Failure.IsFault) (fun _ => True) (Answering E codes cookies) p

namespace Response

variable {E : AppEnv} {codes : List ℕ} {cookies : Bool} {data : Payload} {message : String}

theorem answers_success {extra : List (String × Int)} {httpStatus : ℕ} (hcode : httpStatus ∈ codes)
    (hsuccess : httpStatus < 400) :
    (JsonResponse.success E data message extra httpStatus).Answers E codes cookies := by
  unfold JsonResponse.success JsonResponse.withJson
  split_ifs
  · exact ⟨.inl hcode, by simpa [WellFormed] using hsuccess, fun h => absurd rfl h⟩
  · exact ⟨.inr rfl, rfl, fun h => absurd rfl h⟩

theorem answers_error {httpStatus : ℕ}
    (hcode : httpStatus ∈ codes ∨ httpStatus = HttpStatus.internalServerError)
    (herror : 400 ≤ httpStatus) :
    (JsonResponse.error E message data httpStatus).Answers E codes cookies := by
  unfold JsonResponse.error JsonResponse.withJson
  split_ifs
  · exact ⟨hcode, by simpa [WellFormed] using herror, fun h => absurd rfl h⟩
  · exact ⟨.inr rfl, rfl, fun h => absurd rfl h⟩

theorem statusCode_bounds (e : Failure) : 400 ≤ App.statusCode e ∧ App.statusCode e ≤ 599 := by
  cases e with
  | app exception =>
    simp only [App.statusCode]
    split_ifs with hcode
    · exact hcode
    · decide
  | _ => exact show 400 ≤ 500 ∧ 500 ≤ 599 by decide

theorem answers_errorHandler {e : Failure} (h : e.Refuses codes) :
    (App.errorHandler E e).Answers E codes cookies := by
  obtain ⟨hle, hge⟩ := statusCode_bounds e
  refine ⟨?_, ?_, fun h => absurd rfl h⟩
  · cases e with
    | app exception =>
      show App.statusCode (.app exception) ∈ codes ∨ App.statusCode (.app exception) = _
      simp only [App.statusCode]
      split_ifs
      · exact .inl (h exception rfl)
      · exact .inr rfl
    | _ => exact .inr rfl
  · unfold App.errorHandler
    simp only
    split_ifs with hdetails hencodes hencodes
    · refine ⟨rfl, hle, hge, ?_⟩
      rw [if_pos hdetails]
      exact ⟨e, rfl, rfl, rfl⟩
    · exact ⟨rfl, hle, hge⟩
    · refine ⟨rfl, hle, hge, ?_⟩
      rw [if_neg hdetails]
      exact ⟨rfl, rfl⟩
    · exact ⟨rfl, hle, hge⟩

theorem Answers.withCookie {response : Response} (h : response.Answers E codes cookies)
    (setCookie : List Bytes) : Answers E codes true { response with setCookie } :=
  ⟨h.status, h.wellFormed, fun _ => rfl⟩

end Response

section Controllers

variable {E : AppEnv} {c : Context} {α : Type} {codes : List ℕ} {cookies : Bool}

theorem answers_bind {p : AppProg α} {f : α → AppProg Response} (hp : Refuses codes p)
    (hf : ∀ a, AnswersWith E codes cookies (f a)) : AnswersWith E codes cookies (p >>= f) :=
  hp.meets_bind (fun _ he => he) hf

/-- The response to what a service returns, or the error envelope of what it refuses. -/
theorem answers_attempt {service : AppProg α} {response : α → Response} {refusals : List ℕ}
    (hservice : Refuses refusals service)
    (hrefusals : ∀ code ∈ refusals, (code ∈ codes ∨ code = HttpStatus.internalServerError)
      ∧ 400 ≤ code)
    (hresponse : ∀ a, (response a).Answers E codes cookies) :
    AnswersWith E codes cookies (Controller.attempt E service response) := by
  unfold Controller.attempt
  refine Prog.meets_tryCatch.mpr (Prog.meets_map.mpr (Meets.mono hservice fun r hr => ?_))
  cases r with
  | ok a => exact hresponse a
  | error e =>
    cases e with
    | app exception =>
      obtain ⟨hcode, herror⟩ := hrefusals _ (hr exception rfl)
      exact Response.answers_error hcode herror
    | database | valueError | typeError | runtime _ => exact fun exception he => by cases he

theorem answers_validated {errors : List (String × String)} {next : AppProg Response}
    (hcode : HttpStatus.badRequest ∈ codes) (h : AnswersWith E codes cookies next) :
    AnswersWith E codes cookies (Controller.validated E errors next) := by
  unfold Controller.validated
  split_ifs
  · exact h
  · exact Response.answers_error (.inl hcode) (by decide)

theorem answers_authenticated {next : RequestUser → AppProg Response}
    (hcode : HttpStatus.unauthorized ∈ codes)
    (h : ∀ user, AnswersWith E codes cookies (next user)) :
    AnswersWith E codes cookies (Controller.authenticated E c next) := by
  unfold Controller.authenticated
  cases c.user with
  | none => exact Response.answers_error (.inl hcode) (by decide)
  | some user => exact h user

theorem refuses_findJob (jobId : ℕ) :
    Refuses codes (Controller.CustomerTransfer.findJob jobId) := by
  unfold Controller.CustomerTransfer.findJob
  split_ifs
  · exact refuses_stmt _
  · trivial

theorem answers_sendFile {path : Bytes} (hok : HttpStatus.ok ∈ codes)
    (hcode : HttpStatus.notFound ∈ codes) :
    AnswersWith E codes cookies (Controller.CustomerTransfer.sendFile E path) := by
  unfold Controller.CustomerTransfer.sendFile
  refine answers_bind (refuses_stmt _) fun isFile => ?_
  split_ifs
  · exact answers_bind (refuses_stmt _) fun _ => ⟨.inl hok, rfl, fun h => absurd rfl h⟩
  · exact Response.answers_error (.inl hcode) (by decide)

theorem answers_sessionResponse {session : Session} {message : String} {status : ℕ}
    (hcode : status ∈ codes) (hsuccess : status < 400) :
    (Controller.Auth.sessionResponse E session message status).Answers E codes true := by
  have hsession : ∀ data, (JsonResponse.success E data message [] status).Answers E codes true :=
    fun _ => Response.answers_success hcode hsuccess
  unfold Controller.Auth.sessionResponse
  simp only
  split_ifs
  · exact hsession _
  · exact (hsession _).withCookie _

theorem answers_report {environment : Option Bytes} {checks : List (String × Bool)}
    (hok : HttpStatus.ok ∈ codes)
    (hcode : HttpStatus.serviceUnavailable ∈ codes ∨ checks = []) :
    AnswersWith E codes cookies (Controller.Health.report E environment checks) := by
  unfold Controller.Health.report
  rw [Prog.time_bind]
  intro now
  show Response.Answers E codes cookies _
  have hanswers : ∀ status code, code ∈ codes → (status = "ok" ↔ code < 400) →
      (JsonResponse.withJson E (.health status now environment checks) code).Answers E codes
        cookies := by
    intro status code hcode hstatus
    unfold JsonResponse.withJson
    split_ifs
    · exact ⟨.inl hcode, hstatus, fun h => absurd rfl h⟩
    · exact ⟨.inr rfl, rfl, fun h => absurd rfl h⟩
  cases hhealthy : checks.all (·.2) with
  | true => simpa [hhealthy] using hanswers "ok" _ hok (by decide)
  | false =>
    have hunavailable : HttpStatus.serviceUnavailable ∈ codes := by
      refine hcode.resolve_right ?_
      rintro rfl
      cases hhealthy
    simpa [hhealthy] using hanswers "degraded" _ hunavailable (by decide)

theorem refuses_checkDatabase : Refuses codes Controller.Health.checkDatabase :=
  Prog.throws_tryCatch fun _ => trivial

end Controllers

namespace Action

/-- The statuses of the `OA\Response` attributes of a controller's method. -/
def documented : Action → List ℕ
  | getStatus | getStatusAPI | openSwaggerUI | liveness | logout => [200]
  | readiness => [200, 503]
  | detailed => [200, 401, 503]
  | register => [201, 400]
  | login | updateProfile | changePassword | list => [200, 400, 401]
  | refresh | me | stats => [200, 401]
  | «show» | jobStatus => [200, 401, 404]
  | create => [201, 400, 401, 403]
  | update | uploadAvatar => [200, 400, 401, 403, 404]
  | delete | removeAvatar => [200, 401, 403, 404]
  | «export» => [202, 400, 401]
  | «import» => [202, 400, 401, 403]
  | download => [200, 401, 404, 409]
  | preflight | notFound => []

/-- What the attributes leave out: the account of a token or a customer just created can be gone,
and two routes have no controller. -/
def undocumented : Action → List ℕ
  | updateProfile | create | notFound => [404]
  | preflight => [200]
  | _ => []

/-- The endpoints that set or clear the refresh cookie. -/
def setsCookie : Action → Bool
  | register | login | refresh | logout => true
  | _ => false

abbrev answers (action : Action) : List ℕ := action.documented ++ action.undocumented

end Action

section Actions

variable {E : AppEnv} {c : Context}

theorem answers_refresh :
    AnswersWith E Action.refresh.answers true (Controller.Auth.refresh E c) := by
  unfold Controller.Auth.refresh Controller.Auth.clearCookie
  cases RefreshCookie.fromRequest c.request with
  | none =>
    have hresponse : (JsonResponse.error E "No active session." .empty
        HttpStatus.unauthorized).Answers E Action.refresh.answers true :=
      Response.answers_error (.inl (by decide)) (by decide)
    exact hresponse.withCookie _
  | some token =>
    refine Prog.meets_tryCatch.mpr (Prog.meets_map.mpr
      (Meets.mono (refuses_onAuth (AuthService.refuses_refresh _ _ _)) fun r hr => ?_))
    cases r with
    | ok session => exact answers_sessionResponse (by decide) (by decide)
    | error e =>
      cases e with
      | app exception =>
        have hstatus : exception.httpStatus = 401 := by simpa using hr exception rfl
        have hresponse : (BaseController.errorResponse E exception).Answers
            E Action.refresh.answers true :=
          Response.answers_error (.inl (by rw [hstatus]; decide)) (by rw [hstatus]; decide)
        exact hresponse.withCookie _
      | database | valueError | typeError | runtime _ => exact fun exception he => by cases he

theorem answers_logout : AnswersWith E Action.logout.answers true (Controller.Auth.logout E c) := by
  have hsuccess : (JsonResponse.success E .empty "Signed out." [] HttpStatus.ok).Answers
      E Action.logout.answers true := Response.answers_success (by decide) (by decide)
  have hresponse : (Controller.Auth.clearCookie E
      (JsonResponse.success E .empty "Signed out." [] HttpStatus.ok)).Answers
        E Action.logout.answers true := hsuccess.withCookie _
  unfold Controller.Auth.logout
  simp only
  cases RefreshCookie.fromRequest c.request with
  | none => exact hresponse
  | some token =>
    simp only [← bind_pure_comp]
    exact answers_bind (refuses_onAuth ((AuthService.refuses_logout token).mono (by simp)))
      fun _ => hresponse

theorem answers_download :
    AnswersWith E Action.download.answers false (Controller.CustomerTransfer.download E c) := by
  unfold Controller.CustomerTransfer.download
  refine answers_bind (refuses_findJob _) fun job => ?_
  cases job with
  | none => exact Response.answers_error (.inl (by decide)) (by decide)
  | some job =>
    simp only
    split_ifs
    · exact Response.answers_error (.inl (by decide)) (by decide)
    · exact Response.answers_error (.inl (by decide)) (by decide)
    · exact answers_sendFile (by decide) (by decide)

theorem Action.answering (action : Action) :
    AnswersWith E action.answers action.setsCookie (action.run E c) := by
  have hsuccess : ∀ {codes cookies data message extra}, HttpStatus.ok ∈ codes →
      (JsonResponse.success E data message extra HttpStatus.ok).Answers E codes cookies :=
    fun hok => Response.answers_success hok (by decide)
  cases action with
  | getStatus | getStatusAPI => exact hsuccess (by decide)
  | openSwaggerUI | preflight => exact ⟨.inl (by decide), rfl, fun h => absurd rfl h⟩
  | notFound => exact Failure.refuses_app (by decide)
  | liveness => exact answers_report (by decide) (.inr rfl)
  | readiness =>
    exact answers_bind refuses_checkDatabase fun _ => answers_report (by decide) (.inl (by decide))
  | detailed =>
    exact answers_bind refuses_checkDatabase fun _ => answers_bind (refuses_stmt _) fun _ =>
      answers_report (by decide) (.inl (by decide))
  | register =>
    exact answers_validated (by decide) (answers_attempt
      (refuses_onAuth (AuthService.refuses_register _ _ _)) (by decide)
      fun _ => answers_sessionResponse (by decide) (by decide))
  | login =>
    exact answers_validated (by decide) (answers_attempt
      (refuses_onAuth (AuthService.refuses_login _ _ _)) (by decide)
      fun _ => answers_sessionResponse (by decide) (by decide))
  | refresh => exact answers_refresh
  | logout => exact answers_logout
  | me =>
    exact answers_authenticated (by decide) fun _ => answers_attempt
      (refuses_onAuth (AuthService.refuses_user _)) (by decide) fun _ => hsuccess (by decide)
  | updateProfile =>
    exact answers_authenticated (by decide) fun _ => answers_validated (by decide) (answers_attempt
      (refuses_onAuth (AuthService.refuses_updateProfile _ _)) (by decide)
      fun _ => hsuccess (by decide))
  | changePassword =>
    exact answers_authenticated (by decide) fun _ => answers_validated (by decide) (answers_attempt
      (refuses_onAuth (AuthService.refuses_changePassword _ _ _)) (by decide)
      fun _ => hsuccess (by decide))
  | list =>
    refine answers_validated (by decide) (answers_bind (refuses_onCustomers
      ((CustomerService.refuses_list _ _ _ _).mono (by simp))) fun result => ?_)
    cases result <;> exact hsuccess (by decide)
  | stats =>
    exact answers_bind (refuses_onCustomers (CustomerService.refuses_stats.mono (by simp)))
      fun _ => hsuccess (by decide)
  | download => exact answers_download
  | «show» =>
    exact answers_attempt (refuses_onCustomers (CustomerService.refuses_get _)) (by decide)
      fun _ => hsuccess (by decide)
  | «export» =>
    exact answers_authenticated (by decide) fun _ => answers_validated (by decide) (answers_attempt
      (CustomerTransferService.refuses_requestExport _ _) (by decide)
      fun _ => Response.answers_success (by decide) (by decide))
  | «import» =>
    refine answers_authenticated (by decide) fun user => ?_
    cases c.request.files (ascii "file") with
    | none => exact Response.answers_error (.inl (by decide)) (by decide)
    | some file =>
      exact answers_attempt (CustomerTransferService.refuses_requestImport _ _) (by decide)
        fun _ => Response.answers_success (by decide) (by decide)
  | create =>
    exact answers_validated (by decide) (answers_attempt
      (refuses_onCustomers (CustomerService.refuses_create _)) (by decide)
      fun _ => Response.answers_success (by decide) (by decide))
  | update =>
    exact answers_validated (by decide) (answers_attempt
      (refuses_onCustomers (CustomerService.refuses_update _ _)) (by decide)
      fun _ => hsuccess (by decide))
  | delete =>
    exact answers_attempt (refuses_onCustomers (CustomerService.refuses_delete _)) (by decide)
      fun _ => hsuccess (by decide)
  | uploadAvatar =>
    show AnswersWith E _ _ (Controller.Customer.uploadAvatar E c)
    unfold Controller.Customer.uploadAvatar
    cases c.request.files (ascii "avatar") with
    | none => exact Response.answers_error (.inl (by decide)) (by decide)
    | some avatar =>
      exact answers_attempt (refuses_onCustomers (CustomerService.refuses_uploadAvatar _ _))
        (by decide) fun _ => hsuccess (by decide)
  | removeAvatar =>
    exact answers_attempt (refuses_onCustomers (CustomerService.refuses_removeAvatar _)) (by decide)
      fun _ => hsuccess (by decide)
  | jobStatus =>
    refine answers_bind (refuses_findJob _) fun job => ?_
    cases job with
    | none => exact Response.answers_error (.inl (by decide)) (by decide)
    | some job => exact hsuccess (by decide)

end Actions

theorem routes_answers : ∀ route ∈ routes, ∀ middleware ∈ route.add,
    ∀ code ∈ middleware.answers, code ∈ route.action.answers := by
  decide +kernel

section Requests

variable {E : AppEnv} {request : Request} {R : AppEntropy}

theorem Route.answering {route : Route} (hroute : route ∈ routes) (id : Option Bytes) :
    AnswersWith E route.action.answers route.action.setsCookie (route.handle E request R id) := by
  refine Middleware.foldl_of E request
    (P := AnswersWith E route.action.answers route.action.setsCookie)
    (fun message exception he => by cases he) (fun _ h => h) ?_
    (fun user => Action.answering _) none
  intro middleware hmiddleware message code hcode
  have hdocumented := routes_answers route hroute middleware hmiddleware code hcode
  exact Response.answers_error (.inl hdocumented) (Middleware.answers_ge hcode)

/-- The statuses of the request's route, or that there is none. -/
def Request.answers (request : Request) : List ℕ :=
  match request.route with
  | some route => route.action.answers
  | none => [404, 405]

def Request.setsCookie (request : Request) : Bool :=
  match request.route with
  | some route => route.action.setsCookie
  | none => false

/-- The response of a request; there is no exception left. -/
def Request.Answered (E : AppEnv) (request : Request) : Except Failure Response → Prop
  | .ok response => response.Answers E request.answers request.setsCookie
  | .error _ => False

theorem App.answered : Meets (FailsWith Failure.IsFault) (fun _ => True) (request.Answered E)
    (App.handle E request R) := by
  unfold Request.Answered Request.answers Request.setsCookie
  obtain ⟨route, id, hroute, hmem, hhandle⟩ | ⟨hroute, code, hcode, hhandle⟩ :=
    App.handle_cases E request R
  · rw [hhandle, hroute]
    refine Prog.meets_tryCatch.mpr (Meets.mono (Route.answering hmem id) fun r hr => ?_)
    cases r with
    | ok response => exact hr
    | error e => exact Response.answers_errorHandler hr
  · rw [hhandle, hroute]
    exact Response.answers_errorHandler (Failure.refuses_app hcode)

end Requests

/-! ## Runs -/

variable {E : AppEnv}

/-- No statement fails with an `AppException`: these are the code's own. -/
def AppPool.Faulty (_ : AppPool) : AppAct → Prop
  | .fail _ e => e.IsFault
  | _ => True

theorem exec_failsWith (op : AppStmt) (now : Int) (db : AppDb) :
    FailsWith Failure.IsFault op (E.exec op now db).1 := by
  rintro e he exception rfl
  cases op with
  | auth op =>
    cases op with
    | createUser name email passwordHash type =>
      simp only [AppEnv.exec, AuthEnv.exec, UserModel.create] at he
      split_ifs at he
      cases he
    | createToken userId familyId tokenHash expiresAt userAgent ipAddress =>
      simp only [AppEnv.exec, AuthEnv.exec, RefreshTokenModel.create] at he
      split_ifs at he
      cases he
    | _ => cases he
  | customer op =>
    cases op with
    | redisSetex key ttl value =>
      simp only [AppEnv.exec, CustomerEnv.exec, CustomerDb.withRedis, Redis.setex] at he
      split_ifs at he
      cases he
    | redisIncr key =>
      simp only [AppEnv.exec, CustomerEnv.exec, CustomerDb.withRedis, Redis.incr] at he
      split at he
      · cases he
      · split at he
        · cases he
        · split_ifs at he
          cases he
    | _ => cases he
  | «export» op => cases op <;> cases he
  | _ => cases he

/-- What a call comes to. -/
def AppCall.Answered (E : AppEnv) : AppCall → Except Failure AppResult → Prop
  | .request _ received, r => ∃ response, r = .ok (.response response)
      ∧ response.Answers E received.answers received.setsCookie
  | _, _ => True

theorem AppCall.meets_answered (c : AppCall × AppEntropy) :
    Meets (FailsWith Failure.IsFault) (fun _ => True) (c.1.Answered E) (AppPool.start E c) := by
  obtain ⟨call, R⟩ := c
  cases call with
  | request arrival received =>
    refine Prog.meets_map.mpr (Meets.mono App.answered fun r hr => ?_)
    cases r with
    | ok response => exact ⟨response, rfl, hr⟩
    | error e => exact hr.elim
  | work job => exact Prog.meets_true _
  | record jobId state => exact Prog.meets_true _

theorem AppPool.answered {db : AppDb} {now : Int} {s : AppPool}
    (run : Pool.Steps E.exec (AppPool.start E) AppPool.Faulty (AppPool.idle db now) s) :
    Pool.Meeting (fun _ => True) (FailsWith Failure.IsFault) (fun _ => True)
      (fun c => c.1.Answered E) s :=
  run.meeting (fun op now db _ => exec_failsWith op now db) (fun _ _ _ _ _ => trivial)
    (fun s c _ => AppCall.meets_answered c)
    (fun s i e he c op k _ e' heq => Except.error.inj heq ▸ he)
    ⟨trivial, fun p hp => by simp [AppPool.idle] at hp⟩

/-- In every interleaving with any other calls, and whatever statements fail, a request that is left
to run on is answered: with a status that is documented, or 500, and an envelope that says whether
it is a success, or a problem document, which tells of the failure only where the setting says so.
Only the endpoints of the sessions set a cookie. -/
theorem requests_answered {db : AppDb} {now : Int} {s : AppPool}
    (run : Pool.Steps E.exec (AppPool.start E) AppPool.Faulty (AppPool.idle db now) s)
    {p : Proc (AppCall × AppEntropy) AppStmt AppStmt.Res Int Failure AppResult} (hp : p ∈ s.procs)
    {arrival : Int} {request : Request} (hcall : p.call.1 = .request arrival request) :
    ∃ response, (p.rest.run E.exec s.now s.db).1 = .ok (.response response)
      ∧ response.Answers E request.answers request.setsCookie := by
  have hanswered := (AppPool.answered run).run
    (fun op now db _ => exec_failsWith (E := E) op now db) (fun _ _ _ _ _ => trivial) hp
  rw [hcall] at hanswered
  exact hanswered

namespace AppSample

def deleteCustomer : Request :=
  { post "/customer/1" (ascii "Bearer " ++ claims.email) [] with method := ascii "DELETE" }

/-- A customer is created, and deleted before it is read back. -/
def overtaken : List AppAct :=
  .spawn (.request 0 createCustomer, entropy) :: List.replicate 3 (.step 0)
    ++ .spawn (.request 0 deleteCustomer, entropy) :: List.replicate 2 (.step 1)

def isFail : AppAct → Bool
  | .fail _ _ => true
  | _ => false

theorem faulty_of_not_isFail (s : AppPool) (a : AppAct) (h : isFail a = false) :
    AppPool.Faulty s a := by
  rcases a with _ | _ | _ | _
  all_goals trivial

/-- The action of a request. -/
def action : AppCall → Option Action
  | .request _ received => received.route.map (·.action)
  | _ => none

/-- The status of a response. -/
def status : Except Failure AppResult → Option ℕ
  | .ok (.response response) => some response.httpStatus
  | _ => none

end AppSample

open AppSample in
/-- The creation that is overtaken is answered with a status that is not documented. -/
theorem requests_answered_sample : ∃ s : AppPool, ∃ p ∈ s.procs, ∃ arrival request response,
    p.call.1 = .request arrival request
      ∧ request.route.map (·.action) = some .create
      ∧ (p.rest.run env.exec s.now s.db).1 = .ok (.response response)
      ∧ response.httpStatus = HttpStatus.notFound
      ∧ response.Answers env request.answers request.setsCookie := by
  have h : ∃ s ∈ Pool.acts env.exec (AppPool.start env) (fun _ a => isFail a = false) overtaken
      (AppPool.idle db 0), s.procs.any fun p => action p.call.1 = some .create
        && status (p.rest.run env.exec s.now s.db).1 = some HttpStatus.notFound := by
    decide +kernel
  obtain ⟨s, hs, hany⟩ := h
  obtain ⟨p, hp, hends⟩ := List.any_eq_true.mp hany
  simp only [Bool.and_eq_true, decide_eq_true_eq] at hends
  obtain ⟨haction, hstatus⟩ := hends
  cases hcall : p.call.1 with
  | request arrival request =>
    obtain ⟨response, hrun, hanswers⟩ :=
      requests_answered ((Pool.steps_of_acts hs).mono faulty_of_not_isFail) hp hcall
    rw [hcall] at haction
    rw [hrun] at hstatus
    exact ⟨s, p, hp, arrival, request, response, hcall, haction, hrun, Option.some.inj hstatus,
      hanswers⟩
  | work job => simp [hcall, action] at haction
  | record jobId state => simp [hcall, action] at haction

end SlimStarter
