import SlimStarter.Auth.History
import SlimStarter.Http.Traversal

/-!
# Who acts as an administrator

Requests, jobs and the account of the queue run in a pool, interleaved at single statements.
`Administrators` are the accounts of type `admin` of the table at the start; no call adds one.

`routes_guarded` reads off the route table that the actions that write customers or queue an import
are inside both middlewares, and `Action.under` that the others issue no such statement, whatever
the replies. So every run has the tokens of type `admin` issued for administrators only, and has
customers changed and imports queued by requests of administrators and the jobs these have queued
(`no_escalation`).
-/

namespace SlimStarter

open Prog (Composed Under Only)

abbrev AppPool : Type :=
  Pool (AppCall × AppEntropy) AppDb AppStmt AppStmt.Res Int Failure AppResult

abbrev AppAct : Type := Act (AppCall × AppEntropy) Int Failure

abbrev AppEvent : Type := Event AppStmt AppStmt.Res Failure

/-- The program of a call, as the pool starts it. -/
def AppPool.start (E : AppEnv) (c : AppCall × AppEntropy) : AppProg AppResult := c.1.prog E c.2

/-- The accounts of type `admin`. -/
def Administrators (db : AuthDb) : Set ℕ :=
  {id | ∃ r ∈ db.user.rows, r.id = id ∧ r.type = UserType.admin}

variable {E : AppEnv} {A : Set ℕ}

/-- A row of type `admin` is of `A`. -/
def UserRow.Of (A : Set ℕ) (user : UserRow) : Prop := user.type = UserType.admin → user.id ∈ A

/-- A statement that finds an account finds none of type `admin` but those of `A`. -/
def AuthStmt.Finds (A : Set ℕ) : (op : AuthStmt) → op.Res → Prop
  | .findUserById _, r => ∀ user ∈ r, user.Of A
  | .findByEmail _, r => ∀ user ∈ r, user.Of A
  | _, _ => True

/-- The statement creates no account of type `admin`, and issues no token of this type but for an
account of `A`. -/
def AuthStmt.Grants (A : Set ℕ) : AuthStmt → Prop
  | .createUser _ _ _ type => type ≠ UserType.admin
  | .buildToken claims => claims.type = UserType.admin → claims.id ∈ A
  | _ => True

/-- Every account of type `admin` is of `A`. -/
def AuthDb.Of (A : Set ℕ) (db : AuthDb) : Prop := ∀ user ∈ db.user.rows, user.Of A

namespace AuthService

variable {F : AuthEnv} {R : Entropy}

theorem under_createSession {user : UserRow} (h : user.Of A)
    (userAgent ipAddress familyId : Option Bytes) :
    Under (AuthStmt.Finds A) (AuthStmt.Grants A) (fun _ => True)
      (createSession F R user userAgent ipAddress familyId) := by
  unfold createSession buildAccessToken
  simp only [Prog.time_bind, Prog.stmt_bind, Prog.under_clock, Prog.under_call_resume,
    Prog.pure_eq, Prog.under_ret]
  exact fun _ => ⟨trivial, fun _ _ => ⟨h, fun _ _ _ => trivial⟩⟩

theorem under_passwordHash {α : Type} {B : α → Prop} {password : Bytes} {f : Bytes → AuthProg α}
    (h : ∀ hash, Under (AuthStmt.Finds A) (AuthStmt.Grants A) B (f hash)) :
    Under (AuthStmt.Finds A) (AuthStmt.Grants A) B (passwordHash F R password >>= f) := by
  unfold passwordHash
  cases F.passwordHash R.salt password with
  | none => trivial
  | some hash => exact h hash

theorem under_register (dto : RegisterRequest) (userAgent ipAddress : Option Bytes) :
    Under (AuthStmt.Finds A) (AuthStmt.Grants A) (fun _ => True)
      (register F R dto userAgent ipAddress) := by
  unfold register
  simp only [Prog.stmt_bind, Prog.under_call_resume]
  refine ⟨trivial, fun taken _ => ?_⟩
  split_ifs
  · trivial
  · refine under_passwordHash fun hash => ?_
    simp only [Prog.under_call_resume]
    refine ⟨by simp [AuthStmt.Grants, UserType.staff, UserType.admin, ascii], fun userId _ =>
      ⟨trivial, fun user hfinds => ?_⟩⟩
    cases user with
    | none => trivial
    | some user => exact under_createSession (hfinds user rfl) _ _ _

theorem under_login (dto : LoginRequest) (userAgent ipAddress : Option Bytes) :
    Under (AuthStmt.Finds A) (AuthStmt.Grants A) (fun _ => True)
      (login F R dto userAgent ipAddress) := by
  unfold login
  simp only [Prog.stmt_bind, Prog.under_call_resume]
  refine ⟨trivial, fun user hfinds => ?_⟩
  cases user with
  | none => trivial
  | some user =>
    simp only
    split_ifs
    · simp only [Prog.under_call_resume]
      exact ⟨trivial, fun _ _ => ⟨trivial, fun _ _ =>
        under_createSession (hfinds user rfl) _ _ _⟩⟩
    · trivial

theorem under_refresh (token : Bytes) (userAgent ipAddress : Option Bytes) :
    Under (AuthStmt.Finds A) (AuthStmt.Grants A) (fun _ => True)
      (refresh F R token userAgent ipAddress) := by
  unfold refresh
  simp only [Prog.stmt_bind, Prog.under_call_resume]
  refine ⟨trivial, fun row _ => ?_⟩
  cases row with
  | none => trivial
  | some row =>
    simp only [Prog.time_bind]
    split_ifs
    · simp only [Prog.under_call_resume]
      exact ⟨trivial, fun _ _ => trivial⟩
    · rw [Prog.under_clock]
      intro now
      split_ifs
      · simp only [Prog.under_call_resume]
        exact ⟨trivial, fun _ _ => trivial⟩
      · unfold rotate
        simp only [Prog.stmt_bind, Prog.under_call_resume]
        refine ⟨trivial, fun user hfinds => ?_⟩
        cases user with
        | none => trivial
        | some user =>
          simp only [rotateAs, Prog.stmt_bind, Prog.under_call_resume]
          exact ⟨trivial, fun _ _ => under_createSession (hfinds user rfl) _ _ _⟩

/-- The operations that issue no token and create no account. -/
theorem under_of_only {α : Type} {B : α → Prop} {p : AuthProg α}
    (h : Only (fun op => ∀ A, op.Grants A) B p) :
    Under (AuthStmt.Finds A) (AuthStmt.Grants A) B p :=
  h.under.imp fun _ hop => hop A

theorem grants_logout (token : Bytes) :
    Only (fun op => ∀ A, op.Grants A) (fun _ => True) (logout F token) := by
  unfold logout
  simp only [Prog.stmt_bind, Prog.only_call_resume]
  refine ⟨fun _ => trivial, fun row => ?_⟩
  cases row with
  | none => trivial
  | some row => exact Prog.only_call_resume.mpr ⟨fun _ => trivial, fun _ => trivial⟩

theorem grants_user (id : ℕ) : Only (fun op => ∀ A, op.Grants A) (fun _ => True) (user id) := by
  unfold user
  simp only [Prog.stmt_bind, Prog.only_call_resume]
  refine ⟨fun _ => trivial, fun user => ?_⟩
  cases user <;> trivial

theorem grants_updateProfile (id : ℕ) (name : Bytes) :
    Only (fun op => ∀ A, op.Grants A) (fun _ => True) (updateProfile id name) := by
  unfold updateProfile
  simp only [Prog.stmt_bind, Prog.only_call_resume]
  refine ⟨fun _ => trivial, fun found => ?_⟩
  cases found with
  | none => trivial
  | some found =>
    exact Prog.only_call_resume.mpr ⟨fun _ => trivial, fun _ => grants_user id⟩

theorem grants_revokeOthers (id : ℕ) (keepFamily : Option Bytes) :
    Only (fun op => ∀ A, op.Grants A) (fun _ => True) (revokeOthers id keepFamily) := by
  unfold revokeOthers
  cases keepFamily <;>
    exact Prog.only_bind.mpr (Prog.only_stmt.mpr ⟨fun _ => trivial, fun _ => trivial⟩)

theorem grants_changePassword (id : ℕ) (dto : ChangePasswordRequest)
    (currentRefreshToken : Option Bytes) :
    Only (fun op => ∀ A, op.Grants A) (fun _ => True)
      (changePassword F R id dto currentRefreshToken) := by
  unfold changePassword
  simp only [Prog.stmt_bind, Prog.only_call_resume]
  refine ⟨fun _ => trivial, fun user => ?_⟩
  cases user with
  | none => trivial
  | some user =>
    simp only
    split_ifs
    · unfold passwordHash
      cases F.passwordHash R.salt dto.newPassword with
      | none => trivial
      | some hash =>
        refine Prog.only_call_resume.mpr ⟨fun _ => trivial, fun _ => ?_⟩
        cases currentRefreshToken with
        | none => exact grants_revokeOthers id none
        | some token =>
          exact Prog.only_call_resume.mpr ⟨fun _ => trivial, fun row => grants_revokeOthers id _⟩
    · trivial

end AuthService

theorem AuthDb.Of.finds {F : AuthEnv} {db : AuthDb} (h : db.Of A) {op : AuthStmt} {now : Int}
    {a : op.Res} (ha : (F.exec op now db).1 = .ok a) : op.Finds A a := by
  cases op with
  | findUserById id =>
    obtain rfl := Except.ok.inj ha
    exact fun user huser => h user (Table.first_mem huser).1
  | findByEmail email =>
    obtain rfl := Except.ok.inj ha
    exact fun user huser => h user (Table.first_mem huser).1
  | _ => trivial

/-- An update of accounts that sets no type. -/
theorem AuthDb.Of.updateById {db : AuthDb} (h : db.Of A) {id : ℕ} {f : UserRow → UserRow}
    (hf : ∀ r, (f r).id = r.id ∧ (f r).type = r.type) : (UserModel.updateById db id f).2.Of A := by
  intro user huser htype
  rcases Table.mem_update.mp huser with ⟨hold, -⟩ | ⟨old, hold, -, rfl⟩
  · exact h user hold htype
  · rw [(hf old).1]
    exact h old hold ((hf old).2 ▸ htype)

/-- A statement that creates no account of type `admin` leaves the table one of `A`. -/
theorem AuthDb.Of.exec {F : AuthEnv} {db : AuthDb} (h : db.Of A) {op : AuthStmt}
    (hop : op.Grants A) (now : Int) : (F.exec op now db).2.Of A := by
  cases op with
  | createUser name email passwordHash type =>
    simp only [AuthEnv.exec, UserModel.create]
    split_ifs
    · exact h
    · intro user huser htype
      rcases Table.mem_insert.mp huser with hold | rfl
      · exact h user hold htype
      · exact absurd htype hop
  | updateProfile id name => exact h.updateById fun r => ⟨rfl, rfl⟩
  | updatePassword id passwordHash => exact h.updateById fun r => ⟨rfl, rfl⟩
  | touchLastLogin id => exact h.updateById fun r => ⟨rfl, rfl⟩
  | createToken userId familyId tokenHash expiresAt userAgent ipAddress =>
    simp only [AuthEnv.exec, RefreshTokenModel.create]
    split_ifs <;> exact h
  | _ => exact h

/-- The statement keeps accounts and tokens of type `admin` to `A`, changes customers only where
`writes`, and queues an import only where `queues`. -/
def AppStmt.Allowed (A : Set ℕ) (writes queues : Prop) : AppStmt → Prop
  | .auth op => op.Grants A
  | .customer op => op.writes = true → writes
  | .dispatch type _ => type = JobType.customerImport → queues
  | _ => True

def AppStmt.Finds (A : Set ℕ) : (op : AppStmt) → op.Res → Prop
  | .auth op, r => op.Finds A r
  | _, _ => True

theorem AppStmt.Allowed.mono {w w' q q' : Prop} (hw : w → w') (hq : q → q') {op : AppStmt}
    (h : op.Allowed A w q) : op.Allowed A w' q' := by
  cases op with
  | auth op => exact h
  | customer op => exact fun hop => hw (h hop)
  | dispatch type payload => exact fun htype => hq (h htype)
  | _ => trivial

/-- While the accounts found are of `A`, the program issues the statements it is allowed. -/
abbrev Keeps {α : Type} (A : Set ℕ) (w q : Prop) (p : AppProg α) : Prop :=
  Under (AppStmt.Finds A) (AppStmt.Allowed A w q) (fun _ => True) p

section Controllers

variable {α : Type} {w q : Prop} {c : Context}

theorem keeps_onAuth {p : AuthProg α}
    (h : Under (AuthStmt.Finds A) (AuthStmt.Grants A) (fun _ => True) p) : Keeps A w q (onAuth p) :=
  h.translate (fun _ hop => hop) fun _ _ ha => ha

theorem keeps_onCustomers {p : CustomerProg α}
    (h : Only (fun op => op.writes = false) (fun _ => True) p) : Keeps A w q (onCustomers p) :=
  Under.translate (R := fun _ _ => True) h.under
    (fun _ hop hwrites => absurd hwrites (by simp [hop])) fun _ _ _ => trivial

/-- Where customers may be changed, any program over their statements will do. -/
theorem keeps_onCustomers_of (hw : w) (p : CustomerProg α) : Keeps A w q (onCustomers p) :=
  Under.translate (R := fun _ _ => True) (Prog.under_any (Q := fun _ => True) (fun _ => trivial) p)
    (fun _ _ _ => hw) fun _ _ _ => trivial

theorem keeps_onExports (p : ExportProg α) : Keeps A w q (onExports p) :=
  Under.translate (R := fun _ _ => True) (Prog.under_any (Q := fun _ => True) (fun _ => trivial) p)
    (fun _ _ => trivial) fun _ _ _ => trivial

theorem keeps_composed : Composed fun α (p : AppProg α) => Keeps A w q p where
  ret _ := trivial
  throw _ := trivial
  clock h := h
  bind hp hf := Prog.under_bind.mpr (hp.mono fun a _ => hf a)
  tryCatch hp hf := Under.tryCatch hp hf

theorem keeps_perform {op : AppStmt} (h : op.Allowed A w q) : Keeps A w q (perform op) :=
  Prog.under_call_resume.mpr ⟨h, fun _ _ => trivial⟩

theorem keeps_read {op : CustomerStmt} (h : op.writes = false) :
    Keeps A w q (perform (.customer op)) :=
  keeps_perform fun hop : op.writes = true => by simp [h] at hop

theorem keeps_cached {entity discriminator : Bytes} {ttl : Int} {R : CustomerEntropy}
    {producer : CustomerProg Cached}
    (h : Only (fun op => op.reads = true) (fun _ => True) producer) :
    Keeps A w q (onCustomers do
      let (cacheKey, cache) ← CacheRedis.namespaced E.customer CacheRedis.fresh
        CustomerService.cacheNamespace entity discriminator
      let (result, _) ← CacheRedis.rememberJson E.customer R cache cacheKey ttl producer
      pure result) := by
  refine keeps_onCustomers (only_cached (fun op hop => ?_) (h.imp fun op hop => ?_)) <;>
    cases op <;> first | rfl | cases hop

theorem keeps_requestExport (dto : CustomerExportRequest) (userId : ℕ) :
    Keeps A w q (CustomerTransferService.requestExport dto userId) := by
  unfold CustomerTransferService.requestExport
  simp only [Prog.stmt_bind]
  refine Prog.under_call_resume.mpr ⟨fun hop => (by cases hop), fun total _ => ?_⟩
  split_ifs
  · trivial
  · refine Prog.under_call_resume.mpr ⟨fun htype => absurd htype (by decide), fun _ _ => trivial⟩

/-- The actions that write customers or queue an import. -/
def Action.privileged : Action → Bool
  | .import | .create | .update | .delete | .uploadAvatar | .removeAvatar => true
  | _ => false

theorem Action.keeps {action : Action} (h : action.privileged = true → w ∧ q) :
    Keeps A w q (action.run E c) := by
  refine Action.run_of keeps_composed ?_
  cases action with
  | register => exact fun _ _ _ => keeps_onAuth (AuthService.under_register _ _ _)
  | login => exact fun _ _ _ => keeps_onAuth (AuthService.under_login _ _ _)
  | refresh => exact fun _ _ _ => keeps_onAuth (AuthService.under_refresh _ _ _)
  | logout => exact fun _ => keeps_onAuth (AuthService.under_of_only (AuthService.grants_logout _))
  | me => exact fun _ => keeps_onAuth (AuthService.under_of_only (AuthService.grants_user _))
  | updateProfile =>
    exact fun _ _ => keeps_onAuth (AuthService.under_of_only (AuthService.grants_updateProfile _ _))
  | changePassword =>
    exact fun _ _ _ =>
      keeps_onAuth (AuthService.under_of_only (AuthService.grants_changePassword _ _ _))
  | list => exact fun _ _ _ _ => keeps_cached (only_loadList _ _ _ _)
  | stats => exact keeps_cached only_loadStats
  | «show» => exact fun _ => keeps_onCustomers ((only_serviceGet _).imp fun op hop => hop.2)
  | create => exact fun _ => keeps_onCustomers_of (h rfl).1 _
  | update | uploadAvatar => exact fun _ _ => keeps_onCustomers_of (h rfl).1 _
  | delete | removeAvatar => exact fun _ => keeps_onCustomers_of (h rfl).1 _
  | «export» => exact keeps_requestExport
  | «import» =>
    refine ⟨fun file => keeps_onCustomers ?_, fun _ => keeps_read rfl,
      fun _ => keeps_perform fun _ => (h rfl).2⟩
    unfold UploadHelper.store
    simp only [Prog.stmt_bind]
    split_ifs <;> exact Prog.only_call_resume.mpr ⟨rfl, fun _ => trivial⟩
  | download =>
    exact ⟨fun _ => keeps_perform trivial, fun _ => keeps_read rfl, fun _ => keeps_read rfl⟩
  | jobStatus => exact fun _ => keeps_perform trivial
  | readiness => exact keeps_perform trivial
  | detailed => exact ⟨keeps_perform trivial, keeps_perform trivial⟩
  | getStatus | getStatusAPI | openSwaggerUI | preflight | notFound | liveness => trivial

end Controllers

/-- The token of the request verifies at this instant, for a user of type `admin`. -/
def Request.IsAdmin (E : AppEnv) (request : Request) (now : Int) : Prop :=
  ∃ user, JwtHelper.requestUser E request now = some user ∧ user.type = UserType.admin

/-- The routes of the privileged actions are inside both middlewares. -/
theorem routes_guarded : ∀ route ∈ routes, route.action.privileged = true →
    route.add = [adminOnly, .authentication] := by
  decide +kernel

theorem findRoute_mem {method path : Bytes} {route : Route} {id : Option Bytes}
    (h : findRoute method path = some (route, id)) : route ∈ routes := by
  obtain ⟨route', hmem, hmatch⟩ := List.exists_of_findSome?_eq_some h
  obtain ⟨id', -, heq⟩ := Option.map_eq_some_iff.mp hmatch
  cases heq
  rcases List.mem_append.mp hmem with hmem | hmem <;>
    exact List.mem_of_mem_filter (List.mem_of_mem_filter hmem)

section Requests

variable {request : Request} {R : AppEntropy} {now : Int} {w q : Prop}

/-- Behind both middlewares there is a user of type `admin`, whom the token of the request names. -/
theorem keeps_guarded {handler : RequestHandler}
    (h : request.IsAdmin E now → ∀ user, Keeps A w q (handler user)) :
    Keeps A w q (([adminOnly, .authentication].foldl
      (fun handler m => m.process E request handler) handler none).settle now) := by
  simp only [List.foldl_cons, List.foldl_nil, Middleware.process, AuthenticationMiddleware.process,
    Prog.time_bind, Prog.settle_clock]
  cases huser : JwtHelper.requestUser E request now with
  | none =>
    have hrefused := AuthenticationMiddleware.refuse_of E request (P := Keeps A w q)
      (fun _ => trivial) fun _ => trivial
    exact hrefused.settle now
  | some user =>
    simp only [adminOnly, AuthorizationMiddleware.process]
    split_ifs with hdenied
    · trivial
    · have htype : user.type = UserType.admin := by simpa using hdenied
      exact (h ⟨user, huser, htype⟩ _).settle now

theorem Route.keeps {route : Route} (hroute : route ∈ routes) (id : Option Bytes) :
    Keeps A (request.IsAdmin E now) (request.IsAdmin E now)
      ((route.handle E request R id).settle now) := by
  unfold Route.handle
  cases hprivileged : route.action.privileged with
  | true =>
    rw [routes_guarded route hroute hprivileged]
    exact keeps_guarded fun hadmin user => Action.keeps fun _ => ⟨hadmin, hadmin⟩
  | false =>
    have haction : ∀ user, Keeps A (request.IsAdmin E now) (request.IsAdmin E now)
        (route.action.run E ⟨request, user, id.map E.rawurldecode, R⟩) :=
      fun user => Action.keeps fun hp => by simp [hprivileged] at hp
    have hhandled := Middleware.foldl_of E request (P := Keeps A _ _) (fun _ => trivial)
      (fun _ h => h) (fun middleware (_ : middleware ∈ route.add) _ _ _ => trivial) haction none
    exact hhandled.settle now

/-- A request changes customers and queues imports only where its token names an administrator. -/
theorem App.keeps : Keeps A (request.IsAdmin E now) (request.IsAdmin E now)
    ((App.handle E request R).settle now) := by
  unfold App.handle
  simp only
  cases hfound : (findRoute request.method request.path <|>
      if request.method = ascii "HEAD" then findRoute (ascii "GET") request.path else none) with
  | none => trivial
  | some found =>
    obtain ⟨route, id⟩ := found
    have hroute : route ∈ routes := by
      cases hfirst : findRoute request.method request.path with
      | some found =>
        rw [hfirst] at hfound
        cases hfound
        exact findRoute_mem hfirst
      | none =>
        rw [hfirst] at hfound
        split_ifs at hfound with hhead
        · exact findRoute_mem hfound
        · cases hfound
    exact Under.settle_tryCatch (Route.keeps hroute id) fun _ => trivial

/-- A job changes customers only where it is an import, and queues none. -/
theorem JobRegistry.keeps (job : JobData) :
    Keeps A (job.type = JobType.customerImport) False (JobRegistry.handle E job) := by
  unfold JobRegistry.handle
  split_ifs with hexport himport
  · exact Prog.under_map.mpr (keeps_onExports _)
  · exact Prog.under_map.mpr (keeps_onCustomers_of himport _)
  · trivial

end Requests

/-- The statements that a call may issue. -/
def AppCall.Allowed (E : AppEnv) (A : Set ℕ) : AppCall → AppStmt → Prop
  | .request arrival received =>
    AppStmt.Allowed A (received.IsAdmin E arrival) (received.IsAdmin E arrival)
  | .work job => AppStmt.Allowed A (job.type = JobType.customerImport) False
  | .record .. => AppStmt.Allowed A False False

theorem AppCall.keeps {c : AppCall × AppEntropy} {now : Int}
    (harrival : ∀ arrival request, c.1 = .request arrival request → arrival = now) :
    Under (AppStmt.Finds A) (c.1.Allowed E A) (fun _ => True)
      ((AppPool.start E c).settle now) := by
  obtain ⟨call, R⟩ := c
  cases call with
  | request arrival request =>
    obtain rfl := harrival arrival request rfl
    exact Under.settle_map App.keeps
  | work job => exact (Prog.under_map.mpr (JobRegistry.keeps job)).settle now
  | record jobId state =>
    rw [AppPool.start, AppCall.prog, Prog.stmt_map]
    exact Prog.under_call_resume.mpr ⟨trivial, fun _ _ => trivial⟩

/-! ## Runs -/

namespace AppEvent

/-- The token was issued with these claims. -/
def Issued (log : List AppEvent) (claims : AccessClaims) (token : Bytes) : Prop :=
  ∃ n pid, (⟨n, pid, .auth (.buildToken claims), .ok token⟩ : AppEvent) ∈ log

/-- The job was queued by this call. -/
def Queued (log : List AppEvent) (job : JobData) (pid : ℕ) : Prop :=
  ∃ n, (⟨n, pid, .dispatch job.type job.payload, .ok job.id⟩ : AppEvent) ∈ log

end AppEvent

/-- A request presents no forged token: whatever verifies was issued with these claims. -/
def Unforged (E : AppEnv) (log : List AppEvent) (request : Request) : Prop :=
  ∀ now claims, E.verify (JwtHelper.presented request) now = some claims →
    AppEvent.Issued log claims (JwtHelper.presented request)

/-- Requests arrive now and forge no token, and a worker takes a job from the queue. -/
def AppPool.Admits (E : AppEnv) (s : AppPool) : AppAct → Prop
  | .spawn (.request arrival request, _) => arrival = s.now ∧ Unforged E s.log request
  | .spawn (.work job, _) => job ∈ s.db.job.rows
  | _ => True

abbrev AppPool.Steps (E : AppEnv) : AppPool → AppPool → Prop :=
  Pool.Steps E.exec (AppPool.start E) (AppPool.Admits E)

/-- The call is a request whose token verifies for a member of `A` of type `admin`. -/
def AppCall.OfAdministrator (E : AppEnv) (A : Set ℕ) : AppCall → Prop
  | .request arrival received => ∃ user, JwtHelper.requestUser E received arrival = some user
      ∧ user.type = UserType.admin ∧ user.id ∈ A
  | _ => False

/-- A request of an administrator has queued the job. -/
def AppPool.QueuedByAdministrator (E : AppEnv) (A : Set ℕ) (s : AppPool) (job : JobData) : Prop :=
  ∃ pid p, AppEvent.Queued s.log job pid ∧ s.procs[pid]? = some p ∧ p.call.1.OfAdministrator E A

/-- The call is a request of an administrator, or runs a job that such a request has queued. -/
def AppPool.Authorised (E : AppEnv) (A : Set ℕ) (s : AppPool) : AppCall → Prop
  | .request arrival received => AppCall.OfAdministrator E A (.request arrival received)
  | .work job => s.QueuedByAdministrator E A job
  | .record .. => False

/-- The queued imports. -/
def AppDb.imports (db : AppDb) : List (ℕ × JobPayload) :=
  (db.job.rows.filter (·.type = JobType.customerImport)).map fun job => (job.id, job.payload)

/-- The statement changes customers or queues an import. -/
def AppStmt.Privileged : AppStmt → Prop
  | .customer op => op.writes = true
  | .dispatch type _ => type = JobType.customerImport
  | _ => False

theorem exec_of_not_privileged {op : AppStmt} (h : ¬ op.Privileged) (now : Int) (db : AppDb) :
    (E.exec op now db).2.customer.customer = db.customer.customer
      ∧ (E.exec op now db).2.imports = db.imports := by
  cases op with
  | customer op =>
    refine ⟨?_, rfl⟩
    cases op <;> first | rfl | exact absurd rfl h
  | «export» op =>
    refine ⟨?_, rfl⟩
    cases op <;> rfl
  | dispatch type payload =>
    refine ⟨rfl, ?_⟩
    have htype : ¬ type = JobType.customerImport := h
    simp [AppEnv.exec, AppDb.imports, Table.insert, htype]
  | record jobId state =>
    refine ⟨rfl, ?_⟩
    simp only [AppEnv.exec, AppDb.imports, Table.update]
    induction db.job.rows with
    | nil => rfl
    | cons job rows ih =>
      simp only [List.map_cons, List.filter_cons]
      split_ifs <;> simp_all
  | auth op => exact ⟨rfl, rfl⟩
  | getStatus jobId => exact ⟨rfl, rfl⟩
  | selectOne => exact ⟨rfl, rfl⟩
  | storageWritable => exact ⟨rfl, rfl⟩

variable {s s' : AppPool} {a : AppAct}

theorem AppPool.QueuedByAdministrator.act {job : JobData} (h : s.QueuedByAdministrator E A job)
    (ha : Pool.act E.exec (AppPool.start E) s a = some s') : s'.QueuedByAdministrator E A job := by
  obtain ⟨pid, p, ⟨n, hqueued⟩, hp, hadmin⟩ := h
  obtain ⟨p', hp', hcall⟩ := Pool.act_procs ha hp
  exact ⟨pid, p', ⟨n, Pool.act_log ha hqueued⟩, hp', hcall ▸ hadmin⟩

/-- What holds throughout a run: the calls keep to what they may issue, an administrator's token
names one of `A`, and imports are queued by such requests. -/
structure AppPool.Sound (E : AppEnv) (A : Set ℕ) (s : AppPool) : Prop where
  kept : Pool.Kept (fun db => db.auth.Of A) (AppStmt.Finds A) (fun c => c.1.Allowed E A) s
  requests : ∀ p ∈ s.procs, ∀ arrival received, p.call.1 = .request arrival received →
    received.IsAdmin E arrival → p.call.1.OfAdministrator E A
  queue : ∀ job ∈ s.db.job.rows, job.type = JobType.customerImport →
    s.QueuedByAdministrator E A job
  works : ∀ p ∈ s.procs, ∀ job, p.call.1 = .work job → job.type = JobType.customerImport →
    s.QueuedByAdministrator E A job

namespace AppPool.Sound

theorem authorised (h : s.Sound E A) {p} (hp : p ∈ s.procs) {op : AppStmt}
    (hallowed : p.call.1.Allowed E A op) (hop : op.Privileged) : s.Authorised E A p.call.1 := by
  obtain ⟨⟨call, R⟩, rest⟩ := p
  cases call with
  | request arrival received =>
    have hadmin : received.IsAdmin E arrival := by
      cases op with
      | customer op => exact hallowed hop
      | dispatch type payload => exact hallowed hop
      | _ => cases hop
    exact h.requests _ hp arrival received rfl hadmin
  | work job =>
    cases op with
    | customer op => exact h.works _ hp job rfl (hallowed hop)
    | dispatch type payload => exact (hallowed hop).elim
    | _ => cases hop
  | record jobId state =>
    cases op with
    | customer op => exact hallowed hop
    | dispatch type payload => exact hallowed hop
    | _ => cases hop

/-- A call that may queue an import is a request of an administrator. -/
theorem ofAdministrator (h : s.Sound E A) {p} (hp : p ∈ s.procs) {payload : JobPayload}
    (hallowed : p.call.1.Allowed E A (.dispatch JobType.customerImport payload)) :
    p.call.1.OfAdministrator E A := by
  have hauthorised := h.authorised hp hallowed rfl
  obtain ⟨⟨call, R⟩, rest⟩ := p
  cases call with
  | request arrival received => exact hauthorised
  | work job => exact (hallowed rfl).elim
  | record jobId state => exact (hallowed rfl).elim

/-- An issued token of type `admin` is of an account of `A`. -/
theorem issued (h : s.Sound E A) {n pid : ℕ} {claims : AccessClaims} {r : Except Failure Bytes}
    (hev : (⟨n, pid, .auth (.buildToken claims), r⟩ : AppEvent) ∈ s.log)
    (htype : claims.type = UserType.admin) : claims.id ∈ A := by
  obtain ⟨p, -, hallowed⟩ := h.kept.log _ hev
  cases hcall : p.call.1 <;> rw [hcall] at hallowed <;> exact hallowed htype

theorem kept_act (h : s.Sound E A) (hG : s.Admits E a)
    (ha : Pool.act E.exec (AppPool.start E) s a = some s') :
    Pool.Kept (fun db => db.auth.Of A) (AppStmt.Finds A) (fun c => c.1.Allowed E A) s' := by
  refine Pool.Kept.act ?_ ?_ ?_ h.kept hG ha
  · intro op now db a hdb ha
    cases op with
    | auth op => exact AuthDb.Of.finds hdb ha
    | _ => trivial
  · intro c op now db hallowed hdb
    cases op with
    | auth op =>
      have hgrants : op.Grants A := by
        cases hcall : c.1 <;> rw [hcall] at hallowed <;> exact hallowed
      exact AuthDb.Of.exec hdb hgrants now
    | _ => exact hdb
  · rintro s ⟨call, R⟩ hspawn
    refine AppCall.keeps fun arrival received hcall => ?_
    obtain rfl : call = _ := hcall
    exact hspawn.1

theorem requests_act (h : s.Sound E A) (hG : s.Admits E a)
    (ha : Pool.act E.exec (AppPool.start E) s a = some s') : ∀ p ∈ s'.procs,
    ∀ arrival received, p.call.1 = .request arrival received →
      received.IsAdmin E arrival → p.call.1.OfAdministrator E A := by
  rintro p hp arrival received hcall hadmin
  rcases Pool.act_calls ha hp with rfl | ⟨p₀, hp₀, hcall₀⟩
  · obtain ⟨⟨call, R⟩, rest⟩ := p
    obtain rfl : call = _ := hcall
    obtain ⟨user, huser, htype⟩ := hadmin
    obtain ⟨claims, hverify, rfl⟩ := JwtHelper.requestUser_eq_some huser
    obtain ⟨n, pid, hev⟩ := hG.2 arrival claims hverify
    exact ⟨_, huser, htype, h.issued hev htype⟩
  · rw [← hcall₀]
    exact h.requests p₀ hp₀ arrival received (hcall₀ ▸ hcall) hadmin

theorem queue_act (h : s.Sound E A) (ha : Pool.act E.exec (AppPool.start E) s a = some s') :
    ∀ job ∈ s'.db.job.rows, job.type = JobType.customerImport →
      s'.QueuedByAdministrator E A job := by
  have hold : ∀ {job}, job ∈ s.db.job.rows → job.type = JobType.customerImport →
      s'.QueuedByAdministrator E A job := fun hjob htype => (h.queue _ hjob htype).act ha
  intro job hjob htype
  obtain ⟨c, rfl, rfl⟩ | ⟨t, rfl, rfl⟩ | ⟨i, c, op, k, rfl, hi, rfl⟩ |
    ⟨i, e, c, op, k, rfl, hi, rfl⟩ := Pool.act_cases ha
  · exact hold hjob htype
  · exact hold hjob htype
  · cases op with
    | dispatch type payload =>
      rcases Table.mem_insert.mp hjob with hjob | rfl
      · exact hold hjob htype
      · obtain rfl : type = _ := htype
        have hadmin := h.ofAdministrator (List.mem_of_getElem? hi) (h.kept.rest i _ hi).1
        exact ⟨i, _, ⟨s.log.length, List.mem_cons_self⟩, Pool.advance_procs_self hi, hadmin⟩
    | record jobId state =>
      rcases Table.mem_update.mp hjob with ⟨hkept, -⟩ | ⟨job', hrecorded, -, rfl⟩
      · exact hold hkept htype
      · exact (h.queue job' hrecorded htype).act ha
    | _ => exact hold hjob htype
  · exact hold hjob htype

theorem works_act (h : s.Sound E A) (hG : s.Admits E a)
    (ha : Pool.act E.exec (AppPool.start E) s a = some s') : ∀ p ∈ s'.procs, ∀ job,
    p.call.1 = .work job → job.type = JobType.customerImport →
      s'.QueuedByAdministrator E A job := by
  intro p hp job hcall htype
  rcases Pool.act_calls ha hp with rfl | ⟨p₀, hp₀, hcall₀⟩
  · obtain ⟨⟨call, R⟩, rest⟩ := p
    obtain rfl : call = _ := hcall
    exact (h.queue job hG htype).act ha
  · exact (h.works p₀ hp₀ job (hcall₀ ▸ hcall) htype).act ha

theorem act (h : s.Sound E A) (hG : s.Admits E a)
    (ha : Pool.act E.exec (AppPool.start E) s a = some s') : s'.Sound E A :=
  ⟨h.kept_act hG ha, h.requests_act hG ha, h.queue_act ha, h.works_act hG ha⟩

end AppPool.Sound

/-- Nothing has been called. -/
def AppPool.idle (db : AppDb) (now : Int) : AppPool := ⟨db, now, [], []⟩

theorem AppPool.sound_idle {db : AppDb} {now : Int} (h : db.imports = []) :
    (AppPool.idle db now).Sound E (Administrators db.auth) where
  kept := {
    store := fun user huser htype => ⟨user, huser, rfl, htype⟩
    rest := fun i p hp => by simp [AppPool.idle] at hp
    log := fun ev hev => by simp [AppPool.idle] at hev }
  requests := fun p hp => by simp [AppPool.idle] at hp
  queue := fun job hjob htype => by
    simp only [AppDb.imports, List.map_eq_nil_iff, List.filter_eq_nil_iff] at h
    exact absurd htype (by simpa using h job hjob)
  works := fun p hp => by simp [AppPool.idle] at hp

/-- Whatever the accounts at the start, where no import is queued: every token of type `admin` that
is ever issued is of an administrator, and every act that changes the customers or queues an import
is a step of a request whose verified token is of type `admin` and of an administrator, or of a job
that such a request has queued. -/
theorem no_escalation {db : AppDb} {now : Int} {s : AppPool}
    (run : AppPool.Steps E (AppPool.idle db now) s) (hqueue : db.imports = []) :
    (∀ n pid claims r, (⟨n, pid, .auth (.buildToken claims), r⟩ : AppEvent) ∈ s.log →
      claims.type = UserType.admin → claims.id ∈ Administrators db.auth)
    ∧ ∀ a s', s.Admits E a → Pool.act E.exec (AppPool.start E) s a = some s' →
      s'.db.customer.customer ≠ s.db.customer.customer ∨ s'.db.imports ≠ s.db.imports →
      ∃ i p, a = .step i ∧ s.procs[i]? = some p
        ∧ s.Authorised E (Administrators db.auth) p.call.1 := by
  have hsound : s.Sound E (Administrators db.auth) :=
    run.inv (fun _ _ _ hs hG ha => hs.act hG ha) (AppPool.sound_idle hqueue)
  refine ⟨fun n pid claims r hev htype => hsound.issued hev htype, fun a s' hG ha hchange => ?_⟩
  obtain ⟨c, rfl, rfl⟩ | ⟨t, rfl, rfl⟩ | ⟨i, c, op, k, rfl, hi, rfl⟩ |
    ⟨i, e, c, op, k, rfl, hi, rfl⟩ := Pool.act_cases ha
  · simp at hchange
  · simp at hchange
  · have hop : op.Privileged := by
      by_contra hop
      obtain ⟨hcustomer, himports⟩ := exec_of_not_privileged (E := E) hop s.now s.db
      rcases hchange with hchange | hchange
      · exact hchange hcustomer
      · exact hchange himports
    exact ⟨i, _, rfl, hi,
      hsound.authorised (List.mem_of_getElem? hi) (hsound.kept.rest i _ hi).1 hop⟩
  · simp [Pool.advance] at hchange

/-! ## A sample run -/

namespace AppSample

/-- The claims of the only account. -/
def claims : AccessClaims := ⟨1, ascii "admin@example.com", ascii "Admin", UserType.admin⟩

/-- The samples of the two parts, with a token that is the email of its account. -/
def env : AppEnv where
  auth := Sample.env
  customer := CustomerSample.env
  verify := fun token _ => if token = claims.email then some claims else none
  secretError := none
  displayErrorDetails := false
  describe := fun _ => ⟨"", "", ""⟩
  jsonEncodes := fun _ => true
  toInt := fun _ => 1
  newJob := fun now => ⟨ascii "pending", 0, 3, 0, none, none, none, now, none, none⟩
  rawurldecode := id
  datetime := fun _ => []
  appEnvironment := none
  appName := none
  appVersion := none
  authCookieSamesite := none
  authCookieSecure := .null
  healthcheckToken := []
  uploadImportMaxBytes := 5242880

def db : AppDb where
  auth := { Sample.db with user := ⟨[⟨1, claims.name, claims.email, ascii "1secret-1",
    UserType.admin, none, ⟨0⟩, none, none⟩], 2⟩ }
  customer := CustomerSample.db
  job := ⟨[], 1⟩

def entropy : AppEntropy := ⟨Sample.entropy 1, CustomerSample.entropy⟩

/-- A request with these fields of its body. -/
def post (path : String) (authorization : Bytes) (body : List (Bytes × Bytes)) : Request where
  method := ascii "POST"
  path := ascii path
  authorization := authorization
  userAgent := []
  healthToken := []
  remoteAddr := .null
  refreshToken := .null
  query := fun _ => .null
  body := fun field => Mixed.ofText (body.lookup field)
  files := fun _ => none

def login : Request := post "/auth/login" []
  [(ascii "email", claims.email), (ascii "password", ascii "secret-1")]

def createCustomer : Request := post "/customer" (ascii "Bearer " ++ claims.email)
  [(ascii "name", ascii "Ann")]

/-- The administrator signs in and is about to insert a customer. -/
def schedule : List AppAct :=
  [.spawn (.request 0 login, entropy), .step 0, .step 0, .step 0, .step 0, .step 0,
    .spawn (.request 0 createCustomer, entropy), .step 1]

/-- The token of the administrator is presented once it was issued only. -/
def admits (s : AppPool) : AppAct → Bool
  | .spawn (.request arrival received, _) => arrival = s.now
      && (JwtHelper.presented received ≠ claims.email || s.log.any fun ev =>
        match ev with
        | ⟨_, _, .auth (.buildToken c), .ok token⟩ => c = claims && token = claims.email
        | _ => false)
  | .spawn (.work _, _) => false
  | _ => true

theorem admits_sound (s : AppPool) (a : AppAct) (h : admits s a = true) : s.Admits env a := by
  cases a with
  | spawn c =>
    obtain ⟨call, R⟩ := c
    cases call with
    | request arrival received =>
      simp only [admits, Bool.and_eq_true, decide_eq_true_eq, Bool.or_eq_true] at h
      refine ⟨h.1, fun now c hverify => ?_⟩
      simp only [env] at hverify
      split_ifs at hverify with htoken
      obtain rfl := Option.some.inj hverify
      rcases h.2 with hother | hissued
      · exact absurd htoken hother
      · obtain ⟨ev, hev, hmatch⟩ := List.any_eq_true.mp hissued
        split at hmatch
        · rename_i n pid c token
          simp only [Bool.and_eq_true, decide_eq_true_eq] at hmatch
          obtain ⟨rfl, rfl⟩ := hmatch
          exact ⟨n, pid, htoken ▸ hev⟩
        · cases hmatch
    | work job => cases h
    | record jobId state => trivial
  | _ => trivial

end AppSample

open AppSample in
theorem no_escalation_sample :
    ∃ s s' : AppPool, Pool.act env.exec (AppPool.start env) s (.step 1) = some s'
      ∧ s'.db.customer.customer ≠ s.db.customer.customer
      ∧ ∃ p, s.procs[1]? = some p ∧ s.Authorised env (Administrators db.auth) p.call.1 := by
  have h : ∃ s ∈ Pool.acts env.exec (AppPool.start env) (fun s a => admits s a = true) schedule
      (AppPool.idle db 0), ∃ s' ∈ Pool.act env.exec (AppPool.start env) s (.step 1),
      s'.db.customer.customer ≠ s.db.customer.customer := by
    decide +kernel
  obtain ⟨s, hs, s', hact, hchange⟩ := h
  have run := (Pool.steps_of_acts hs).mono admits_sound
  obtain ⟨i, p, hi, hp, hauthorised⟩ :=
    (no_escalation run rfl).2 (.step 1) s' trivial hact (.inl hchange)
  obtain rfl := Act.step.inj hi
  exact ⟨s, s', hact, hchange, p, hp, hauthorised⟩

end SlimStarter
