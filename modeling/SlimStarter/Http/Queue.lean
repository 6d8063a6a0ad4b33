import SlimStarter.Lib.Ending
import SlimStarter.Http.Answered

/-!
# Jobs are queued once

A request queues a job by its last statement, and then it is answered 202. So in every run the rows
of the queue are the ones of the start and then one for each dispatch in the log, in their order,
no call dispatches two, and a request that was answered 202 has dispatched exactly the job that its
answer names, one that was answered otherwise none, unless it is 500 (`jobs_queued_once`).
-/

namespace SlimStarter

open AppPart
open Footprint (Within)
open Monitor (keeps_bind keeps_stmt keeps_map keeps_tryCatch)
open Pool (EndsIn Ending)

/-- A job that was dispatched, with the id that the queue gave it. -/
structure Dispatch where
  jobId : ℕ
  type : Bytes
  payload : JobPayload
deriving DecidableEq, Repr

/-- What a statement with its reply has dispatched. -/
def AppStmt.dispatched : (op : AppStmt) → Except Failure op.Res → List Dispatch
  | .dispatch type payload, .ok jobId => [⟨jobId, type, payload⟩]
  | _, _ => []

def AppStmt.isDispatch : AppStmt → Bool
  | .dispatch .. => true
  | _ => false

/-- What the events of a log have dispatched, in their order. -/
def AppEvent.dispatches (log : List AppEvent) : List Dispatch :=
  log.reverse.flatMap fun e => e.op.dispatched e.reply

/-- The phase of a call is what it has dispatched, and it dispatches nothing more after a job. -/
def dispatchMonitor : Monitor AppStmt AppStmt.Res Failure (List Dispatch) where
  next φ op r := φ ++ op.dispatched r
  allowed φ op := op.isDispatch = true → φ = []

theorem AppStmt.dispatched_of_not {op : AppStmt} (h : op.isDispatch = false)
    (r : Except Failure op.Res) : op.dispatched r = [] := by
  cases op <;> first | rfl | cases h

theorem AppStmt.dispatched_error (op : AppStmt) (e : Failure) :
    op.dispatched (.error e) = [] := by
  cases op <;> rfl

theorem AppStmt.dispatched_length (op : AppStmt) (r : Except Failure op.Res) :
    (op.dispatched r).length ≤ 1 := by
  cases op with
  | dispatch type payload => cases r <;> simp [AppStmt.dispatched]
  | _ =>
    rw [AppStmt.dispatched_of_not rfl]
    exact Nat.zero_le 1

/-- A statement that may be issued leaves at most one job dispatched. -/
theorem dispatchMonitor_next {φ : List Dispatch} {op : AppStmt} (r : Except Failure op.Res)
    (h : dispatchMonitor.allowed φ op) (hφ : φ.length ≤ 1) :
    (dispatchMonitor.next φ op r).length ≤ 1 := by
  show (φ ++ op.dispatched r).length ≤ 1
  cases hop : op.isDispatch with
  | true =>
    obtain rfl := h hop
    exact op.dispatched_length r
  | false => rwa [AppStmt.dispatched_of_not hop, List.append_nil]

theorem phase_dispatchMonitor (i : ℕ) (log : List AppEvent) :
    dispatchMonitor.phase [] i log = AppEvent.dispatches (log.filter (·.pid = i)) := by
  induction log with
  | nil => rfl
  | cons e log ih =>
    by_cases hi : e.pid = i
    · rw [Monitor.phase_cons_self hi, ih, List.filter_cons_of_pos (by simpa using hi)]
      simp [AppEvent.dispatches, dispatchMonitor]
    · rw [Monitor.phase_cons_of_ne hi, ih, List.filter_cons_of_neg (by simpa using hi)]

section Rows

variable {E : AppEnv} {db : AppDb} {now : Int}

def JobData.dispatch (job : JobData) : Dispatch := ⟨job.id, job.type, job.payload⟩

/-- The rows of the queue after a statement. -/
theorem exec_dispatched (op : AppStmt) (now : Int) (db : AppDb) :
    (E.exec op now db).2.job.rows.map JobData.dispatch =
      db.job.rows.map JobData.dispatch ++ op.dispatched (E.exec op now db).1 := by
  cases op with
  | dispatch type payload =>
    simp [AppEnv.exec, Table.insert, AppStmt.dispatched, JobData.dispatch]
  | record jobId state =>
    simp only [AppEnv.exec, Table.update, List.map_map]
    rw [AppStmt.dispatched_of_not rfl, List.append_nil]
    refine List.map_congr_left fun job _ => ?_
    simp only [Function.comp]
    split_ifs <;> rfl
  | _ => rw [AppStmt.dispatched_of_not rfl, List.append_nil]; rfl

/-- The queue holds what it held, and what was dispatched since. -/
theorem rows_eq_dispatches {G : AppPool → AppAct → Prop} {s : AppPool}
    (run : Pool.Steps E.exec (AppPool.start E) G (AppPool.idle db now) s) :
    s.db.job.rows.map JobData.dispatch =
      db.job.rows.map JobData.dispatch ++ AppEvent.dispatches s.log := by
  refine run.inv (I := fun s => s.db.job.rows.map JobData.dispatch =
    db.job.rows.map JobData.dispatch ++ AppEvent.dispatches s.log) (fun s₁ s₂ a h _ ha => ?_) ?_
  · obtain ⟨c, rfl, rfl⟩ | ⟨t, rfl, rfl⟩ | ⟨i, c, op, k, rfl, hi, rfl⟩ |
      ⟨i, e, c, op, k, rfl, hi, rfl⟩ := Pool.act_cases ha
    · exact h
    · exact h
    · simp only [Pool.advance_db, exec_dispatched, h, Pool.advance_log, List.append_assoc,
        AppEvent.dispatches, List.reverse_cons, List.flatMap_append, List.flatMap_cons,
        List.flatMap_nil, List.append_nil]
    · simp only [Pool.advance_db, h, Pool.advance_log, AppEvent.dispatches, List.reverse_cons,
        List.flatMap_append, List.flatMap_cons, List.flatMap_nil, List.append_nil,
        AppStmt.dispatched_error]
  · simp [AppPool.idle, AppEvent.dispatches]

end Rows

/-! ## Requests -/

/-- The response tells the user of the job that was dispatched for them. -/
def Dispatch.Told (d : Dispatch) (user : RequestUser) (response : Response) : Prop :=
  response.httpStatus = HttpStatus.accepted ∧
    match d.payload with
    | .export _ _ requestedBy => d.type = JobType.customerExport ∧ requestedBy = user.id
      ∧ ∃ total, response.content =
        .envelope true "Export queued." (.queuedExport d.jobId "pending" total) []
    | .import file requestedBy => d.type = JobType.customerImport ∧ requestedBy = user.id
      ∧ response.content = .envelope true "Import queued." (.queuedImport d.jobId "pending" file) []

/-- The response is none of a success. -/
def Response.isError (response : Response) : Prop :=
  match response.content with
  | .envelope status _ _ _ => status = false
  | .encodingFailed _ => True
  | .problem .. | .bareProblem _ => True
  | _ => False

/-- Nothing was dispatched and there is an error, or one job of which the user is told. -/
def Queues (user : RequestUser) (φ : List Dispatch) : Except Failure Response → Prop
  | .ok response => φ = [] ∧ response.isError ∨ ∃ d, φ = [d]
      ∧ (response.httpStatus = HttpStatus.internalServerError ∨ d.Told user response)
  | .error _ => φ = []

section Requests

variable {E : AppEnv} {R : AppEntropy} {request : Request} {user : RequestUser} {now : Int}

theorem isError_error {message : String} {data : Payload} {httpStatus : ℕ} :
    (JsonResponse.error E message data httpStatus).isError := by
  unfold JsonResponse.error JsonResponse.withJson
  split_ifs
  · rfl
  · trivial

theorem queues_error {message : String} {data : Payload} {httpStatus : ℕ} :
    Queues user [] (.ok (JsonResponse.error E message data httpStatus)) :=
  .inl ⟨rfl, isError_error⟩

/-- A service that has dispatched nothing where it throws. -/
theorem queues_attempt {α : Type} {service : AppProg α} {response : α → Response}
    (h : dispatchMonitor.Keeps (fun φ a => Queues user φ (.ok (response a)))
      (fun φ _ => φ = []) [] service) :
    EndsIn dispatchMonitor (Queues user) [] (Controller.attempt E service response) := by
  unfold Controller.attempt
  refine keeps_tryCatch.mpr (keeps_map.mpr (h.mono (fun _ _ hq => hq) fun φ e hφ => ?_))
  subst hφ
  cases e with
  | app exception => exact queues_error
  | database | valueError | typeError | runtime _ => rfl

theorem queues_validated {errors : List (String × String)} {next : AppProg Response}
    (h : EndsIn dispatchMonitor (Queues user) [] next) :
    EndsIn dispatchMonitor (Queues user) [] (Controller.validated E errors next) := by
  unfold Controller.validated
  split_ifs
  · exact h
  · exact queues_error

/-- A statement that is no dispatch leaves the phase. -/
theorem keeps_undispatched {α : Type} {p : AppProg α}
    (h : Prog.Only (fun op => op.isDispatch = false) (fun _ => True) p) :
    dispatchMonitor.Keeps (fun φ _ => φ = []) (fun φ _ => φ = []) [] p := by
  have hkeeps := Monitor.Keeps.of_only (m := dispatchMonitor) (φ := [])
    (fun op r hop => AppStmt.dispatched_of_not hop r) (fun _ _ _ => rfl) h
  exact hkeeps.mono (fun φ a hφ => hφ.1) fun φ e hφ => hφ

theorem keeps_other {α : Type} {op : AppStmt} {f : op.Res → AppProg α}
    {Q : List Dispatch → α → Prop} (hop : op.isDispatch = false)
    (h : ∀ a, dispatchMonitor.Keeps Q (fun φ _ => φ = []) [] (f a)) :
    dispatchMonitor.Keeps Q (fun φ _ => φ = []) [] (perform op >>= f) := by
  refine keeps_bind.mpr ((keeps_undispatched (Prog.only_stmt.mpr ⟨hop, fun _ => trivial⟩)).mono
    (fun φ a hφ => ?_) fun φ e hφ => hφ)
  subst hφ
  exact h a

theorem queues_requestExport (dto : CustomerExportRequest) :
    dispatchMonitor.Keeps (fun φ a => Queues user φ (.ok (JsonResponse.success E a "Export queued."
      [] HttpStatus.accepted))) (fun φ _ => φ = []) []
      (CustomerTransferService.requestExport dto user.id) := by
  unfold CustomerTransferService.requestExport
  refine keeps_other rfl fun total => ?_
  split_ifs
  · rfl
  · refine keeps_bind.mpr (keeps_stmt.mpr ⟨fun _ => rfl, fun e => rfl, fun jobId => ?_⟩)
    refine .inr ⟨_, rfl, ?_⟩
    unfold JsonResponse.success JsonResponse.withJson
    split_ifs
    · exact .inr ⟨rfl, rfl, rfl, total, rfl⟩
    · exact .inl rfl

theorem queues_requestImport (F : CustomerEntropy) (file : UploadedFile) :
    dispatchMonitor.Keeps (fun φ a => Queues user φ (.ok (JsonResponse.success E a "Import queued."
      [] HttpStatus.accepted))) (fun φ _ => φ = []) []
      (CustomerTransferService.requestImport E F file user.id) := by
  have hstore : ∀ path, Prog.Only (fun op => op.isDispatch = false) (fun _ => True)
      (onCustomers (UploadHelper.store (CustomerTransferService.importUploads E) F file path)) :=
    fun path =>
      Prog.only_translate (Q := fun op : AppStmt => op.isDispatch = false) (fun _ => rfl) _
  unfold CustomerTransferService.requestImport
  cases CustomerTransferService.importFileError E file with
  | some e => rfl
  | none =>
    refine keeps_bind.mpr ((keeps_undispatched (hstore _)).mono (fun φ relativePath hφ => ?_)
      fun φ e hφ => hφ)
    subst hφ
    cases relativePath with
    | none => rfl
    | some relativePath =>
      have hheader : ∀ path, Prog.Only (fun op => op.isDispatch = false) (fun _ => True)
          (CustomerTransferService.assertImportHeader path) := by
        intro path
        unfold CustomerTransferService.assertImportHeader
        rw [Prog.stmt_bind]
        refine Prog.only_call_resume.mpr ⟨rfl, fun contents => ?_⟩
        cases contents with
        | none => trivial
        | some contents =>
          simp only
          split_ifs <;> trivial
      refine keeps_bind.mpr ((keeps_undispatched (hheader _)).mono (fun φ _ hφ => ?_)
        fun φ e hφ => hφ)
      subst hφ
      refine keeps_bind.mpr (keeps_stmt.mpr ⟨fun _ => rfl, fun e => rfl, fun jobId => ?_⟩)
      refine .inr ⟨_, rfl, ?_⟩
      unfold JsonResponse.success JsonResponse.withJson
      split_ifs
      · exact .inr ⟨rfl, rfl, rfl, rfl⟩
      · exact .inl rfl

theorem queues_export {c : Context} (huser : c.user = some user) :
    EndsIn dispatchMonitor (Queues user) [] (Controller.CustomerTransfer.export E c) := by
  unfold Controller.CustomerTransfer.export Controller.authenticated
  rw [huser]
  exact queues_validated (queues_attempt (queues_requestExport _))

theorem queues_import {c : Context} (huser : c.user = some user) :
    EndsIn dispatchMonitor (Queues user) [] (Controller.CustomerTransfer.import E c) := by
  unfold Controller.CustomerTransfer.import Controller.authenticated
  rw [huser]
  simp only
  cases c.request.files (ascii "file") with
  | none => exact queues_error
  | some file => exact queues_attempt (queues_requestImport _ _)

/-- The routes that queue a job. -/
def Route.queues (route : Route) : Prop := route.action = .export ∨ route.action = .import

theorem routes_queues : ∀ route ∈ routes, jobs ∈ route.action.footprint.writes →
    route.queues := by
  unfold Route.queues
  decide +kernel

theorem routes_queues_add : ∀ route ∈ routes, route.queues →
    route.add = [.authentication] ∨ route.add = [adminOnly, .authentication] := by
  unfold Route.queues
  decide +kernel

theorem routes_accepted : ∀ route ∈ routes, HttpStatus.accepted ∈ route.action.answers →
    route.queues := by
  unfold Route.queues
  decide +kernel

/-- A request at a route that queues a job has dispatched nothing and failed, or one job for the
user of its token. -/
def Request.Queues (E : AppEnv) (request : Request) (now : Int) (φ : List Dispatch)
    (r : Except Failure Response) : Prop :=
  (φ = [] ∧ ∀ response, r = .ok response → response.isError)
    ∨ ∃ user, JwtHelper.requestUser E request now = some user ∧ SlimStarter.Queues user φ r

theorem errorHandler_isError (e : Failure) : (App.errorHandler E e).isError := by
  unfold App.errorHandler Response.isError
  simp only
  split_ifs <;> trivial

theorem Route.ends {route : Route} {id : Option Bytes} (hroute : route ∈ routes)
    (hqueues : route.queues) :
    EndsIn dispatchMonitor (request.Queues E now) [] ((Prog.tryCatch
      (route.handle E request R id) fun e => pure (App.errorHandler E e)).settle now) := by
  have haction : ∀ user, EndsIn dispatchMonitor (SlimStarter.Queues user) []
      (route.action.run E ⟨request, some user, id.map E.rawurldecode, R⟩) := by
    intro user
    rcases hqueues with haction | haction <;> rw [haction]
    · exact queues_export rfl
    · exact queues_import rfl
  have hguarded : ∀ {user} {p : AppProg Response}, JwtHelper.requestUser E request now = some user →
      EndsIn dispatchMonitor (SlimStarter.Queues user) [] p →
      EndsIn dispatchMonitor (request.Queues E now) []
        (Prog.tryCatch p fun e => pure (App.errorHandler E e)) := by
    intro user p huser hp
    refine keeps_tryCatch.mpr (hp.mono (fun φ response hφ => .inr ⟨user, huser, hφ⟩)
      fun φ e hφ => .inl ⟨hφ, ?_⟩)
    rintro _ ⟨⟩
    exact errorHandler_isError e
  have hrefused : ∀ {message data httpStatus}, request.Queues E now []
      (.ok (JsonResponse.error E message data httpStatus)) := by
    refine .inl ⟨rfl, ?_⟩
    rintro _ ⟨⟩
    exact isError_error
  have hthrown : ∀ {e}, request.Queues E now [] (.ok (App.errorHandler E e)) := by
    refine .inl ⟨rfl, ?_⟩
    rintro _ ⟨⟩
    exact errorHandler_isError _
  unfold Route.handle
  rcases routes_queues_add route hroute hqueues with hadd | hadd
  all_goals
    rw [hadd]
    simp only [List.foldl_cons, List.foldl_nil, Middleware.process, adminOnly,
      AuthenticationMiddleware.process, Prog.time_bind, Prog.tryCatch, Prog.settle_clock]
    refine Monitor.Keeps.settle now ?_
    cases huser : JwtHelper.requestUser E request now with
    | none =>
      exact AuthenticationMiddleware.refuse_of E request
        (P := fun p => EndsIn dispatchMonitor (request.Queues E now) []
          (Prog.tryCatch p fun e => pure (App.errorHandler E e)))
        (fun _ => hthrown) fun _ => hrefused
    | some user => ?_
  · exact hguarded huser (haction user)
  · simp only [AuthorizationMiddleware.process]
    split_ifs
    · exact hrefused
    · exact hguarded huser (haction user)

end Requests

/-! ## Runs -/

variable {E : AppEnv}

/-- The route of the request queues a job. -/
def Request.queues (request : Request) : Prop := ∃ route, request.route = some route ∧ route.queues

variable (E) in
/-- A call has dispatched nothing, and its response is an error where its route queues a job, or it
has dispatched the job that its response tells of. -/
def AppCall.Queues (φ : List Dispatch) (r : Except Failure AppResult) : AppCall → Prop
  | .request arrival received =>
    (φ = [] ∧ (received.queues → ∀ response, r = .ok (.response response) → response.isError))
      ∨ ∃ user response, JwtHelper.requestUser E received arrival = some user
        ∧ r = .ok (.response response) ∧ SlimStarter.Queues user φ (.ok response)
  | _ => φ = []

theorem only_of_within {α : Type} {F : Footprint AppPart} {p : AppProg α}
    (h : Within AppStmt.footprint F p) (hjobs : jobs ∉ F.writes) :
    Prog.Only (fun op => op.isDispatch = false) (fun _ => True) p := by
  refine Prog.Only.imp h fun op hle => ?_
  cases op with
  | dispatch type payload => exact absurd (hle.2 (Finset.mem_singleton_self jobs)) hjobs
  | _ => rfl

theorem App.ends {received : Request} {R : AppEntropy} {arrival : Int} :
    EndsIn dispatchMonitor (fun φ r => (AppCall.request arrival received).Queues E φ
      (r.map .response)) [] ((App.handle E received R).settle arrival) := by
  by_cases hqueues : received.queues
  · have hends : EndsIn dispatchMonitor (received.Queues E arrival) []
        ((App.handle E received R).settle arrival) := by
      obtain ⟨route, hroute, hqueues⟩ := hqueues
      obtain ⟨⟨route', id⟩, hfound, rfl⟩ := Option.map_eq_some_iff.mp hroute
      unfold App.handle
      simp only [hfound]
      exact Route.ends (Request.route_cases hroute).1 hqueues
    refine hends.mono (fun φ response hφ => ?_) fun φ e hφ => ?_
    · rcases hφ with ⟨hφ, herror⟩ | ⟨user, huser, hφ⟩
      · refine .inl ⟨hφ, fun _ response' heq => herror response' ?_⟩
        cases heq
        rfl
      · exact .inr ⟨user, response, huser, rfl, hφ⟩
    · rcases hφ with ⟨hφ, -⟩ | ⟨user, -, hφ⟩
      · exact .inl ⟨hφ, fun _ _ heq => by cases heq⟩
      · exact .inl ⟨hφ, fun _ _ heq => by cases heq⟩
  · have hjobs : jobs ∉ (received.footprint E arrival).writes := by
      intro hjobs
      unfold Request.footprint at hjobs
      cases hroute : received.route with
      | none => simp [hroute, Bot.bot] at hjobs
      | some route =>
        simp only [hroute] at hjobs
        split_ifs at hjobs
        · exact hqueues ⟨route, hroute,
            routes_queues route (Request.route_cases hroute).1 hjobs⟩
        · simp [Bot.bot] at hjobs
    refine (keeps_undispatched (only_of_within App.within hjobs)).mono (fun φ _ hφ => ?_)
      fun φ _ hφ => ?_
    all_goals exact .inl ⟨hφ, fun h => absurd h hqueues⟩

theorem AppCall.ends {c : AppCall × AppEntropy} {s : AppPool} (h : s.Arrives (.spawn c)) :
    EndsIn dispatchMonitor (fun φ r => c.1.Queues E φ r) [] ((AppPool.start E c).settle s.now) := by
  obtain ⟨call, R⟩ := c
  cases call with
  | request arrival received =>
    obtain rfl : arrival = s.now := h
    exact Pool.EndsIn.settle_map App.ends
  | work job =>
    have hjobs : jobs ∉ job.footprint.writes := by
      unfold JobData.footprint
      split_ifs <;> decide
    refine ((keeps_undispatched (only_of_within (Prog.only_map.mpr (JobRegistry.within job))
      hjobs)).mono (fun φ _ hφ => hφ) fun φ _ hφ => hφ).settle s.now
  | record jobId state =>
    refine ((keeps_undispatched (Prog.only_map.mpr (Prog.only_stmt.mpr
      ⟨rfl, fun _ => trivial⟩))).mono (fun φ _ hφ => hφ) fun φ _ hφ => hφ).settle s.now

/-- Only the routes that queue a job accept one, and an error is no acceptance. -/
theorem Response.Answers.not_accepted {request : Request} {response : Response}
    (h : response.Answers E request.answers request.setsCookie)
    (herror : request.queues → response.isError) : response.httpStatus ≠ HttpStatus.accepted := by
  intro hstatus
  have hqueues : request.queues := by
    have hanswers := h.status
    rw [hstatus] at hanswers
    have hmem := hanswers.resolve_right (by decide)
    unfold Request.answers at hmem
    cases hroute : request.route with
    | none => simp [hroute, HttpStatus.accepted] at hmem
    | some route =>
      rw [hroute] at hmem
      exact ⟨route, hroute, routes_accepted route (Request.route_cases hroute).1 hmem⟩
  have herror := herror hqueues
  have hformed := h.wellFormed
  unfold Response.WellFormed at hformed
  unfold Response.isError at herror
  rw [hstatus] at hformed
  cases hcontent : response.content with
  | envelope status message data extra =>
    rw [hcontent] at hformed herror
    exact absurd (hformed.mpr (by decide)) (by simp [show status = false from herror])
  | encodingFailed message =>
    rw [hcontent] at hformed
    simp only at hformed
    exact absurd hformed (by decide)
  | problem message code details =>
    rw [hcontent] at hformed
    obtain ⟨rfl, hle, -⟩ := hformed
    exact absurd hle (by decide)
  | bareProblem code =>
    rw [hcontent] at hformed
    obtain ⟨rfl, hle, -⟩ := hformed
    exact absurd hle (by decide)
  | _ => rw [hcontent] at herror; exact herror

/-- In every run, the rows of the queue are those of the start and then one for each dispatch, in
the order of the dispatches, and no call has dispatched more than one, on its way either. A request
that was answered 202 has dispatched the one job that the answer names, for the user of its token;
one that was answered otherwise none, unless it was 500. -/
theorem jobs_queued_once {db : AppDb} {now : Int} {s : AppPool}
    (run : Pool.Steps E.exec (AppPool.start E) (fun s a => AppPool.Arrives s a ∧ AppPool.Faulty s a)
      (AppPool.idle db now) s) :
    s.db.job.rows.map JobData.dispatch =
        db.job.rows.map JobData.dispatch ++ AppEvent.dispatches s.log
      ∧ (∀ i, (AppEvent.dispatches (s.log.filter (·.pid = i))).length ≤ 1)
      ∧ ∀ i p arrival request response, s.procs[i]? = some p →
        p.call.1 = .request arrival request →
        p.rest.outcome? = some (.ok (.response response)) →
        (response.httpStatus = HttpStatus.accepted → ∃ user d,
          JwtHelper.requestUser E request arrival = some user
            ∧ AppEvent.dispatches (s.log.filter (·.pid = i)) = [d] ∧ d.Told user response)
        ∧ (response.httpStatus ≠ HttpStatus.accepted →
          response.httpStatus ≠ HttpStatus.internalServerError →
          AppEvent.dispatches (s.log.filter (·.pid = i)) = []) := by
  have hspawn : ∀ (s : AppPool) c, s.Arrives (.spawn c) ∧ s.Faulty (.spawn c) →
      EndsIn dispatchMonitor (fun φ r => c.1.Queues E φ r) [] ((AppPool.start E c).settle s.now) :=
    fun s c h => AppCall.ends h.1
  have hone : ∀ i, (AppEvent.dispatches (s.log.filter (·.pid = i))).length ≤ 1 := by
    intro i
    rw [← phase_dispatchMonitor]
    exact run.phases_of_allowed (I := fun φ => φ.length ≤ 1) hspawn
      (fun φ op r => dispatchMonitor_next r) Pool.ending_idle (fun _ => Nat.zero_le 1) i
  refine ⟨rows_eq_dispatches run, hone, fun i p arrival request response hp hcall hresponse => ?_⟩
  have hending : Ending dispatchMonitor [] (fun c φ r => c.1.Queues E φ r) s :=
    run.ending hspawn Pool.ending_idle
  have hqueues := hending.outcome hp hresponse
  rw [hcall, phase_dispatchMonitor] at hqueues
  have hanswered := (AppPool.answered (run.mono fun s a h => h.2)).outcome
    (List.mem_of_getElem? hp) hresponse
  rw [hcall] at hanswered
  obtain ⟨response', heq, hanswers⟩ := hanswered
  obtain rfl := AppResult.response.inj (Except.ok.inj heq)
  rcases hqueues with ⟨hnone, herror⟩ | ⟨user, response', huser, heq, hqueues⟩
  · refine ⟨fun hstatus => ?_, fun _ _ => hnone⟩
    exact absurd hstatus (hanswers.not_accepted fun hq => herror hq _ rfl)
  · obtain rfl := AppResult.response.inj (Except.ok.inj heq)
    rcases hqueues with ⟨hnone, herror⟩ | ⟨d, hd, htold⟩
    · refine ⟨fun hstatus => ?_, fun _ _ => hnone⟩
      exact absurd hstatus (hanswers.not_accepted fun _ => herror)
    · refine ⟨fun hstatus => ⟨user, d, huser, hd, ?_⟩, fun hother hfailed => ?_⟩
      · refine htold.resolve_left fun hfailed => ?_
        rw [hstatus] at hfailed
        cases hfailed
      · rcases htold with hfailed' | htold
        · exact absurd hfailed' hfailed
        · exact absurd htold.1 hother

namespace AppSample

def exportLeads : Request := post "/customer/export" (ascii "Bearer " ++ claims.email)
  [(ascii "status", ascii "lead")]

/-- Requests arrive now and nothing fails. -/
def calm (s : AppPool) : AppAct → Bool
  | .spawn (.request arrival _, _) => arrival = s.now
  | .fail _ _ => false
  | _ => true

theorem calm_sound (s : AppPool) (a : AppAct) (h : calm s a = true) :
    AppPool.Arrives s a ∧ AppPool.Faulty s a := by
  rcases a with ⟨⟨⟨arrival, received⟩ | job | ⟨jobId, state⟩, R⟩⟩ | i | ⟨i, e⟩ | t
  · have harrival : arrival = s.now := of_decide_eq_true h
    exact ⟨harrival, trivial⟩
  all_goals first | exact ⟨trivial, trivial⟩ | cases h

end AppSample

open AppSample in
/-- One export is queued and accepted. -/
theorem jobs_queued_once_sample : ∃ s : AppPool, s.db.job.rows.length = 1
    ∧ s.db.job.rows.map JobData.dispatch = AppEvent.dispatches s.log
    ∧ (AppEvent.dispatches (s.log.filter (·.pid = 0))).length = 1 := by
  have h : ∃ s ∈ Pool.acts env.exec (AppPool.start env) (fun s a => calm s a = true)
      [.spawn (.request 0 exportLeads, entropy), .step 0, .step 0] (AppPool.idle db 0),
      s.db.job.rows.length = 1 ∧ ∃ p ∈ s.procs[0]?, action p.call.1 = some .export
        ∧ p.rest.outcome?.bind status = some HttpStatus.accepted := by
    decide +kernel
  obtain ⟨s, hs, hlength, p, hp, haction, hstatus⟩ := h
  obtain ⟨hrows, -, hrequests⟩ := jobs_queued_once ((Pool.steps_of_acts hs).mono calm_sound)
  obtain ⟨r, hr, hstatus⟩ := Option.bind_eq_some_iff.mp hstatus
  obtain e | ⟨response | result | _⟩ := r
  all_goals
    simp only [status, Option.some.injEq, reduceCtorEq] at hstatus
  cases hcall : p.call.1 with
  | request arrival request =>
    obtain ⟨user, d, -, hd, -⟩ := (hrequests 0 p arrival request response hp hcall hr).1 hstatus
    exact ⟨s, hlength, hrows, by rw [hd]; rfl⟩
  | work job => simp [hcall, action] at haction
  | record jobId state => simp [hcall, action] at haction

end SlimStarter
