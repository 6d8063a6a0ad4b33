import SlimStarter.Lib.Composed
import SlimStarter.Http.App

/-!
# What the application is put together of

`Action.Uses` says of a property what it has to hold of, so that it holds of an action: the services
that the action calls, and the statements that the controllers issue themselves. Then a property
that goes with composition holds of the action (`Action.run_of`) and of its route
(`Route.handle_of`), whatever becomes of the request on its way.
-/

namespace SlimStarter

open Prog (Composed)

variable {E : AppEnv} {c : Context}

variable (E c) in
def Action.Uses (P : (α : Type) → AppProg α → Prop) : Action → Prop
  | register => ∀ dto userAgent ipAddress,
    P _ (onAuth (AuthService.register E.auth c.entropy.auth dto userAgent ipAddress))
  | login => ∀ dto userAgent ipAddress,
    P _ (onAuth (AuthService.login E.auth c.entropy.auth dto userAgent ipAddress))
  | refresh => ∀ token userAgent ipAddress,
    P _ (onAuth (AuthService.refresh E.auth c.entropy.auth token userAgent ipAddress))
  | logout => ∀ token, P _ (onAuth (AuthService.logout E.auth token))
  | me => ∀ id, P _ (onAuth (AuthService.user id))
  | updateProfile => ∀ id name, P _ (onAuth (AuthService.updateProfile id name))
  | changePassword => ∀ id dto token,
    P _ (onAuth (AuthService.changePassword E.auth c.entropy.auth id dto token))
  | list => ∀ keywords status page limit,
    P _ (onCustomers
      (CustomerService.list E.customer c.entropy.customer keywords status page limit))
  | stats => P _ (onCustomers (CustomerService.stats E.customer c.entropy.customer))
  | «show» => ∀ id, P _ (onCustomers (CustomerService.get E.customer id))
  | create => ∀ dto, P _ (onCustomers (CustomerService.create E.customer dto))
  | update => ∀ id payload, P _ (onCustomers (CustomerService.update E.customer id payload))
  | delete => ∀ id, P _ (onCustomers (CustomerService.delete E.customer id))
  | uploadAvatar => ∀ id file,
    P _ (onCustomers (CustomerService.uploadAvatar E.customer c.entropy.customer id file))
  | removeAvatar => ∀ id, P _ (onCustomers (CustomerService.removeAvatar E.customer id))
  | «export» => ∀ dto userId, P _ (CustomerTransferService.requestExport dto userId)
  | «import» =>
    (∀ file, P _ (onCustomers (UploadHelper.store (CustomerTransferService.importUploads E)
      c.entropy.customer file [])))
    ∧ (∀ path, P _ (perform (.customer (.readFile path))))
    ∧ ∀ payload, P _ (perform (.dispatch JobType.customerImport payload))
  | download => (∀ jobId, P _ (perform (.getStatus jobId)))
    ∧ (∀ path, P _ (perform (.customer (.isFile path))))
    ∧ ∀ path, P _ (perform (.customer (.readFile path)))
  | jobStatus => ∀ jobId, P _ (perform (.getStatus jobId))
  | readiness => P _ (perform .selectOne)
  | detailed => P _ (perform .selectOne) ∧ P _ (perform .storageWritable)
  | getStatus | getStatusAPI | openSwaggerUI | preflight | notFound | liveness => True

section Actions

variable {P : (α : Type) → AppProg α → Prop} (hP : Composed P) {α : Type}

include hP

theorem Controller.attempt_of {service : AppProg α} {response : α → Response} (h : P _ service) :
    P _ (Controller.attempt E service response) := by
  refine hP.tryCatch (hP.map h _) fun e => ?_
  cases e with
  | app exception => exact hP.ret _
  | _ => exact hP.throw _

theorem Controller.validated_of {errors : List (String × String)} {next : AppProg Response}
    (h : P _ next) : P _ (Controller.validated E errors next) := by
  unfold Controller.validated
  split_ifs
  · exact h
  · exact hP.ret _

theorem Controller.authenticated_of {next : RequestUser → AppProg Response}
    (h : ∀ user, P _ (next user)) : P _ (Controller.authenticated E c next) := by
  unfold Controller.authenticated
  cases c.user with
  | none => exact hP.ret _
  | some user => exact h user

theorem Controller.findJob_of (h : ∀ jobId, P _ (perform (.getStatus jobId))) (jobId : ℕ) :
    P _ (Controller.CustomerTransfer.findJob jobId) := by
  unfold Controller.CustomerTransfer.findJob
  split_ifs
  · exact h jobId
  · exact hP.ret none

theorem requestImport_of {R : CustomerEntropy} (file : UploadedFile) (userId : ℕ)
    (hstore : P _ (onCustomers (UploadHelper.store (CustomerTransferService.importUploads E) R file
      [])))
    (hread : ∀ path, P _ (perform (.customer (.readFile path))))
    (hdispatch : ∀ payload, P _ (perform (.dispatch JobType.customerImport payload))) :
    P _ (CustomerTransferService.requestImport E R file userId) := by
  have hheader : ∀ path, P _ (CustomerTransferService.assertImportHeader path) := by
    intro path
    refine hP.bind (hread path) fun contents => ?_
    cases contents with
    | none => exact hP.throw _
    | some contents =>
      simp only
      split_ifs
      · exact hP.ret ()
      · exact hP.throw _
  unfold CustomerTransferService.requestImport
  cases CustomerTransferService.importFileError E file with
  | some e => exact hP.throw e
  | none =>
    refine hP.bind hstore fun relativePath => ?_
    cases relativePath with
    | none => exact hP.throw _
    | some relativePath =>
      exact hP.bind (hheader _) fun _ => hP.bind (hdispatch _) fun _ => hP.ret _

/-- What holds of all that an action uses holds of the action. -/
theorem Action.run_of {action : Action} (h : action.Uses E c P) : P _ (action.run E c) := by
  have hreport : ∀ environment checks, P _ (Controller.Health.report E environment checks) :=
    fun _ _ => hP.clock fun _ => hP.ret _
  have hcheck : P _ (perform .selectOne) → P _ Controller.Health.checkDatabase :=
    fun h => hP.tryCatch (hP.map h _) fun _ => hP.ret false
  cases action with
  | register | login =>
    exact Controller.validated_of hP (Controller.attempt_of hP (h _ _ _))
  | refresh =>
    show P _ (Controller.Auth.refresh E c)
    unfold Controller.Auth.refresh
    cases RefreshCookie.fromRequest c.request with
    | none => exact hP.ret _
    | some token =>
      refine hP.tryCatch (hP.map (h _ _ _) _) fun e => ?_
      cases e with
      | app exception => exact hP.ret _
      | _ => exact hP.throw _
  | logout =>
    show P _ (Controller.Auth.logout E c)
    unfold Controller.Auth.logout
    cases RefreshCookie.fromRequest c.request with
    | none => exact hP.ret _
    | some token => exact hP.map (h token) _
  | me =>
    exact Controller.authenticated_of hP fun _ => Controller.attempt_of hP (h _)
  | updateProfile =>
    exact Controller.authenticated_of hP fun _ =>
      Controller.validated_of hP (Controller.attempt_of hP (h _ _))
  | changePassword =>
    exact Controller.authenticated_of hP fun _ =>
      Controller.validated_of hP (Controller.attempt_of hP (h _ _ _))
  | list =>
    refine Controller.validated_of hP (hP.bind (h _ _ _ _) fun result => ?_)
    cases result <;> exact hP.ret _
  | stats => exact hP.bind h fun _ => hP.ret _
  | «show» | delete | removeAvatar => exact Controller.attempt_of hP (h _)
  | create => exact Controller.validated_of hP (Controller.attempt_of hP (h _))
  | update => exact Controller.validated_of hP (Controller.attempt_of hP (h _ _))
  | uploadAvatar =>
    show P _ (Controller.Customer.uploadAvatar E c)
    unfold Controller.Customer.uploadAvatar
    cases c.request.files (ascii "avatar") with
    | none => exact hP.ret _
    | some avatar => exact Controller.attempt_of hP (h _ _)
  | «export» =>
    exact Controller.authenticated_of hP fun _ =>
      Controller.validated_of hP (Controller.attempt_of hP (h _ _))
  | «import» =>
    obtain ⟨hstore, hread, hdispatch⟩ := h
    refine Controller.authenticated_of hP fun user => ?_
    cases c.request.files (ascii "file") with
    | none => exact hP.ret _
    | some file =>
      exact Controller.attempt_of hP (requestImport_of hP _ _ (hstore _) hread hdispatch)
  | download =>
    obtain ⟨hstatus, hisFile, hread⟩ := h
    refine hP.bind (Controller.findJob_of hP hstatus _) fun job => ?_
    cases job with
    | none => exact hP.ret _
    | some job =>
      simp only
      split_ifs
      · exact hP.ret _
      · exact hP.ret _
      · refine hP.bind (hisFile _) fun isFile => ?_
        split_ifs
        · exact hP.bind (hread _) fun _ => hP.ret _
        · exact hP.ret _
  | jobStatus =>
    refine hP.bind (Controller.findJob_of hP h _) fun job => ?_
    cases job <;> exact hP.ret _
  | readiness => exact hP.bind (hcheck h) fun _ => hreport _ _
  | detailed =>
    exact hP.bind (hcheck h.1) fun _ => hP.bind h.2 fun _ => hreport _ _
  | liveness => exact hreport _ _
  | notFound => exact hP.throw _
  | getStatus | getStatusAPI | openSwaggerUI | preflight => exact hP.ret _

end Actions

/-! ## Requests -/

/-- The statuses that a middleware answers with. -/
def Middleware.answers : Middleware → List ℕ
  | authentication => [401]
  | authorization _ => [401, 403]
  | healthToken => [401, 503]

theorem Middleware.answers_ge {middleware : Middleware} {code : ℕ}
    (h : code ∈ middleware.answers) : 400 ≤ code := by
  cases middleware <;>
    simp only [Middleware.answers, List.mem_cons, List.not_mem_nil, or_false] at h <;>
    omega

section Requests

variable (E) (request : Request) {handler : RequestHandler} {P : AppProg Response → Prop}
variable (hthrow : ∀ message, P (.throw (.runtime message)))
variable (hclock : ∀ k : Int → AppProg Response, (∀ now, P (k now)) → P (.clock k))

include hthrow hclock

omit hclock in
theorem AuthenticationMiddleware.refuse_of
    (hrefuse : ∀ message, P (.ret (JsonResponse.error E message .empty 401))) :
    P (AuthenticationMiddleware.refuse E request) := by
  simp only [AuthenticationMiddleware.refuse, JwtHelper.requestError]
  split_ifs
  · exact hrefuse _
  · cases E.secretError with
    | none => exact hrefuse _
    | some message => exact hthrow message

/-- A middleware refuses the request, or fails, or lets it pass. -/
theorem Middleware.process_of {middleware : Middleware}
    (hrefuse : ∀ message, ∀ code ∈ middleware.answers,
      P (.ret (JsonResponse.error E message .empty code)))
    (h : ∀ user, P (handler user)) (user : Option RequestUser) :
    P (middleware.process E request handler user) := by
  cases middleware with
  | authentication =>
    simp only [Middleware.process, AuthenticationMiddleware.process, Prog.time_bind]
    refine hclock _ fun now => ?_
    cases JwtHelper.requestUser E request now with
    | none =>
      exact AuthenticationMiddleware.refuse_of E request hthrow
        fun message => hrefuse message 401 (by decide)
    | some user => exact h _
  | authorization allowedTypes =>
    cases user with
    | none => exact hrefuse _ 401 List.mem_cons_self
    | some user =>
      simp only [Middleware.process, AuthorizationMiddleware.process]
      split_ifs
      · exact hrefuse _ 403 (List.mem_cons_of_mem _ List.mem_cons_self)
      · exact h _
  | healthToken =>
    simp only [Middleware.process, HealthTokenMiddleware.process]
    split_ifs
    · exact h user
    · exact hrefuse _ 503 (by decide)
    · exact hrefuse _ 401 (by decide)
    · exact h user

theorem Middleware.foldl_of {add : List Middleware}
    (hrefuse : ∀ middleware ∈ add, ∀ message, ∀ code ∈ middleware.answers,
      P (.ret (JsonResponse.error E message .empty code)))
    (h : ∀ user, P (handler user)) (user : Option RequestUser) :
    P (add.foldl (fun handler m => m.process E request handler) handler user) := by
  induction add generalizing handler with
  | nil => exact h user
  | cons middleware add ih =>
    obtain ⟨hmiddleware, hadd⟩ := List.forall_mem_cons.mp hrefuse
    exact ih hadd (Middleware.process_of E request hthrow hclock hmiddleware h)

end Requests

section Composed

variable {P : (α : Type) → AppProg α → Prop} (hP : Composed P) {request : Request} {R : AppEntropy}

include hP

theorem Route.handle_of {route : Route} {id : Option Bytes}
    (h : ∀ user, route.action.Uses E ⟨request, user, id.map E.rawurldecode, R⟩ P) :
    P _ (route.handle E request R id) :=
  Middleware.foldl_of E request (fun _ => hP.throw _) (fun _ => hP.clock)
    (fun _ _ _ _ _ => hP.ret _) (fun user => Action.run_of hP (h user)) none

theorem JobRegistry.handle_of {job : JobData}
    (hexport : ∀ p : ExportProg ExportResult, P _ (onExports p))
    (himport : ∀ p : CustomerProg ImportResult, P _ (onCustomers p)) :
    P _ (JobRegistry.handle E job) := by
  unfold JobRegistry.handle
  split_ifs
  · exact hP.map (hexport _) _
  · exact hP.map (himport _) _
  · exact hP.throw _

end Composed

end SlimStarter
