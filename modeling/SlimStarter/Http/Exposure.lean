import SlimStarter.Http.Lifecycle
import SlimStarter.Http.Token

/-!
# How long an access token is good for

Nothing revokes an access token: signing out, a new password and a stolen refresh token end the
session, and the tokens it has handed out stay good. What bounds them is that they are built by the
session endpoints only, for an account that the same call has found, and are short-lived. So a
request that any run lets in has a token that one of these endpoints built, not after the request
and within the lifetime before it, for an account that the table has had since the endpoint found it
(`access_bounded`).
-/

namespace SlimStarter

open Monitor (keeps_bind keeps_stmt keeps_map keeps_tryCatch)

/-- The claims of an account. -/
def UserRow.claims (user : UserRow) : AccessClaims := ⟨user.id, user.email, user.name, user.type⟩

/-- The account that a call of a service has found last, for which it may build a token. -/
def AuthStmt.found : Monitor AuthStmt AuthStmt.Res Failure (Option UserRow) where
  next
    | _, .findUserById _, .ok (some user) => some user
    | _, .findByEmail _, .ok (some user) => some user
    | φ, _, _ => φ
  allowed
    | φ, .buildToken claims => ∃ user ∈ φ, claims = user.claims
    | _, _ => True

/-- The same of a call of the application. -/
def AppStmt.found : Monitor AppStmt AppStmt.Res Failure (Option UserRow) where
  next
    | φ, .auth op, r => AuthStmt.found.next φ op r
    | φ, _, _ => φ
  allowed
    | φ, .auth op => AuthStmt.found.allowed φ op
    | _, _ => True

/-- The statement builds an access token. -/
def AppStmt.builds : AppStmt → Bool
  | .auth (.buildToken _) => true
  | _ => false

abbrev Tokenless {α : Type} (p : AppProg α) : Prop :=
  Prog.Only (fun op => op.builds = false) (fun _ => True) p

namespace AuthService

variable {F : AuthEnv} {R : Entropy} {φ : Option UserRow}

/-- Whatever the program ends with, it has built tokens for accounts it had found only. -/
abbrev Founded {α : Type} (φ : Option UserRow) (p : AuthProg α) : Prop :=
  AuthStmt.found.Safe (fun _ => True) φ p

theorem founded_createSession (user : UserRow) (userAgent ipAddress familyId : Option Bytes) :
    Founded (some user) (createSession F R user userAgent ipAddress familyId) := by
  unfold createSession buildAccessToken
  simp only [Prog.time_bind, Prog.stmt_bind, Monitor.keeps_clock, Monitor.keeps_call_resume]
  exact fun _ => ⟨trivial, fun _ => trivial, fun _ =>
    ⟨⟨user, rfl, rfl⟩, fun _ => trivial, fun _ _ => trivial⟩⟩

theorem founded_register (dto : RegisterRequest) (userAgent ipAddress : Option Bytes) :
    Founded φ (register F R dto userAgent ipAddress) := by
  unfold register
  simp only [Prog.stmt_bind, Monitor.keeps_call_resume]
  refine ⟨trivial, fun _ => trivial, fun taken => ?_⟩
  split_ifs
  · trivial
  · unfold passwordHash
    cases F.passwordHash R.salt dto.password with
    | none => trivial
    | some hash =>
      refine Monitor.keeps_call_resume.mpr ⟨trivial, fun _ => trivial, fun userId =>
        Monitor.keeps_call_resume.mpr ⟨trivial, fun _ => trivial, fun user => ?_⟩⟩
      cases user with
      | none => trivial
      | some user => exact founded_createSession user _ _ _

theorem founded_login (dto : LoginRequest) (userAgent ipAddress : Option Bytes) :
    Founded φ (login F R dto userAgent ipAddress) := by
  unfold login
  simp only [Prog.stmt_bind, Monitor.keeps_call_resume]
  refine ⟨trivial, fun _ => trivial, fun user => ?_⟩
  cases user with
  | none => trivial
  | some user =>
    simp only
    split_ifs
    · simp only [Monitor.keeps_call_resume]
      exact ⟨trivial, fun _ => trivial, fun _ => ⟨trivial, fun _ => trivial, fun _ =>
        founded_createSession user _ _ _⟩⟩
    · trivial

theorem founded_refresh (token : Bytes) (userAgent ipAddress : Option Bytes) :
    Founded φ (refresh F R token userAgent ipAddress) := by
  unfold refresh
  simp only [Prog.stmt_bind, Monitor.keeps_call_resume]
  refine ⟨trivial, fun _ => trivial, fun row => ?_⟩
  cases row with
  | none => trivial
  | some row =>
    simp only [Prog.time_bind]
    split_ifs
    · simp only [Monitor.keeps_call_resume]
      exact ⟨trivial, fun _ => trivial, fun _ => trivial⟩
    · rw [Monitor.keeps_clock]
      intro now
      split_ifs
      · simp only [Monitor.keeps_call_resume]
        exact ⟨trivial, fun _ => trivial, fun _ => trivial⟩
      · unfold rotate rotateAs
        simp only [Prog.stmt_bind, Monitor.keeps_call_resume]
        refine ⟨trivial, fun _ => trivial, fun user => ?_⟩
        cases user with
        | none => trivial
        | some user =>
          simp only [Monitor.keeps_call_resume]
          exact ⟨trivial, fun _ => trivial, fun _ => founded_createSession user _ _ _⟩

/-- The program builds no token. -/
abbrev Unbuilding {α : Type} (p : AuthProg α) : Prop :=
  Prog.Only (fun op => (AppStmt.auth op).builds = false) (fun _ => True) p

theorem unbuilding_logout (token : Bytes) : Unbuilding (logout F token) := by
  unfold logout
  simp only [Prog.stmt_bind, Prog.only_call_resume]
  refine ⟨rfl, fun row => ?_⟩
  cases row with
  | none => trivial
  | some row => exact Prog.only_call_resume.mpr ⟨rfl, fun _ => trivial⟩

theorem unbuilding_user (id : ℕ) : Unbuilding (user id) := by
  unfold user
  simp only [Prog.stmt_bind, Prog.only_call_resume]
  refine ⟨rfl, fun user => ?_⟩
  cases user <;> trivial

theorem unbuilding_updateProfile (id : ℕ) (name : Bytes) : Unbuilding (updateProfile id name) := by
  unfold updateProfile
  simp only [Prog.stmt_bind, Prog.only_call_resume]
  refine ⟨rfl, fun found => ?_⟩
  cases found with
  | none => trivial
  | some found => exact Prog.only_call_resume.mpr ⟨rfl, fun _ => unbuilding_user id⟩

theorem unbuilding_changePassword (id : ℕ) (dto : ChangePasswordRequest)
    (currentRefreshToken : Option Bytes) :
    Unbuilding (changePassword F R id dto currentRefreshToken) := by
  have hothers : ∀ keepFamily, Unbuilding (revokeOthers id keepFamily) := by
    intro keepFamily
    unfold revokeOthers
    cases keepFamily <;>
      exact Prog.only_bind.mpr (Prog.only_stmt.mpr ⟨rfl, fun _ => trivial⟩)
  unfold changePassword passwordHash
  simp only [Prog.stmt_bind, Prog.only_call_resume]
  refine ⟨rfl, fun user => ?_⟩
  cases user with
  | none => trivial
  | some user =>
    simp only
    split_ifs
    · cases F.passwordHash R.salt dto.newPassword with
      | none => trivial
      | some hash =>
        refine Prog.only_call_resume.mpr ⟨rfl, fun _ => ?_⟩
        cases currentRefreshToken with
        | none => exact hothers none
        | some token => exact Prog.only_call_resume.mpr ⟨rfl, fun row => hothers _⟩
    · trivial

end AuthService

section Controllers

variable {E : AppEnv} {c : Context} {α β : Type}

theorem founded_onAuth {φ : Option UserRow} {p : AuthProg α} (h : AuthService.Founded φ p) :
    AppStmt.found.Safe (fun _ => True) φ (onAuth p) := by
  induction p generalizing φ with
  | ret a => trivial
  | throw e => trivial
  | clock k ih => exact fun t => ih t (h t)
  | call op k ih =>
    refine ⟨h.1, fun r => ?_⟩
    cases r with
    | error e => exact ih _ (h.2 (.error e))
    | ok a => exact ih _ (h.2 (.ok a))

theorem founded_attempt {φ : Option UserRow} {service : AppProg α} {response : α → Response}
    (h : AppStmt.found.Safe (fun _ => True) φ service) :
    AppStmt.found.Safe (fun _ => True) φ (Controller.attempt E service response) := by
  refine keeps_tryCatch.mpr (keeps_map.mpr (h.mono (fun _ _ _ => trivial) fun _ e _ => ?_))
  cases e <;> trivial

theorem founded_validated {φ : Option UserRow} {errors : List (String × String)}
    {next : AppProg Response} (h : AppStmt.found.Safe (fun _ => True) φ next) :
    AppStmt.found.Safe (fun _ => True) φ (Controller.validated E errors next) := by
  unfold Controller.validated
  split_ifs
  · exact h
  · trivial

theorem tokenless_stmt {op : AppStmt} (h : op.builds = false) : Tokenless (perform op) :=
  Prog.only_stmt.mpr ⟨h, fun _ => trivial⟩

theorem tokenless_onAuth {p : AuthProg α} (h : AuthService.Unbuilding p) :
    Tokenless (onAuth p) := by
  induction p with
  | ret a => trivial
  | throw e => trivial
  | clock k ih => exact fun t => ih t (h t)
  | call op k ih => exact ⟨h.1, fun r => ih _ (h.2 _)⟩

theorem tokenless_onCustomers (p : CustomerProg α) : Tokenless (onCustomers p) :=
  Prog.only_translate (Q := fun op : AppStmt => op.builds = false) (fun _ => rfl) p

theorem tokenless_onExports (p : ExportProg α) : Tokenless (onExports p) :=
  Prog.only_translate (Q := fun op : AppStmt => op.builds = false) (fun _ => rfl) p

theorem tokenless_requestExport (dto : CustomerExportRequest) (userId : ℕ) :
    Tokenless (CustomerTransferService.requestExport dto userId) := by
  unfold CustomerTransferService.requestExport
  refine Prog.only_bind.mpr ((tokenless_stmt rfl).mono fun total _ => ?_)
  split_ifs
  · trivial
  · exact Prog.only_bind.mpr ((tokenless_stmt rfl).mono fun _ _ => trivial)

/-- The actions that hand out access tokens. -/
def Action.opensSession : Action → Bool
  | .register | .login | .refresh => true
  | _ => false

theorem Action.uses_tokenless {action : Action} (h : action.opensSession = false) :
    action.Uses E c fun _ p => Tokenless p := by
  cases action with
  | register | login | refresh => cases h
  | logout => exact fun token => tokenless_onAuth (AuthService.unbuilding_logout token)
  | me => exact fun _ => tokenless_onAuth (AuthService.unbuilding_user _)
  | updateProfile => exact fun _ _ => tokenless_onAuth (AuthService.unbuilding_updateProfile _ _)
  | changePassword =>
    exact fun _ _ _ => tokenless_onAuth (AuthService.unbuilding_changePassword _ _ _)
  | list => exact fun _ _ _ _ => tokenless_onCustomers _
  | stats => exact tokenless_onCustomers _
  | «show» | create | delete | removeAvatar => exact fun _ => tokenless_onCustomers _
  | update | uploadAvatar => exact fun _ _ => tokenless_onCustomers _
  | «export» => exact tokenless_requestExport
  | «import» =>
    exact ⟨fun _ => tokenless_onCustomers _, fun _ => tokenless_stmt rfl,
      fun _ => tokenless_stmt rfl⟩
  | download =>
    exact ⟨fun _ => tokenless_stmt rfl, fun _ => tokenless_stmt rfl, fun _ => tokenless_stmt rfl⟩
  | jobStatus => exact fun _ => tokenless_stmt rfl
  | readiness => exact tokenless_stmt rfl
  | detailed => exact ⟨tokenless_stmt rfl, tokenless_stmt rfl⟩
  | getStatus | getStatusAPI | openSwaggerUI | preflight | notFound | liveness => trivial

theorem Action.founded {action : Action} (h : action.opensSession = true) :
    AppStmt.found.Safe (fun _ => True) none (action.run E c) := by
  cases action with
  | register =>
    exact founded_validated (founded_attempt (founded_onAuth (AuthService.founded_register _ _ _)))
  | login =>
    exact founded_validated (founded_attempt (founded_onAuth (AuthService.founded_login _ _ _)))
  | refresh =>
    show AppStmt.found.Safe (fun _ => True) none (Controller.Auth.refresh E c)
    unfold Controller.Auth.refresh
    cases RefreshCookie.fromRequest c.request with
    | none => trivial
    | some token =>
      refine keeps_tryCatch.mpr (keeps_map.mpr ((founded_onAuth
        (AuthService.founded_refresh token _ _)).mono (fun _ _ _ => trivial) fun _ e _ => ?_))
      cases e <;> trivial
  | _ => cases h

end Controllers

variable {E : AppEnv}

theorem routes_opensSession : ∀ route ∈ routes, route.action.opensSession = true →
    route.add = [] := by
  decide +kernel

/-- The call is a request to an endpoint that hands out access tokens. -/
def AppCall.opensSession : AppCall → Bool
  | .request _ received => received.route.any (·.action.opensSession)
  | _ => false

section Requests

variable {request : Request} {R : AppEntropy}

theorem App.tokenless (h : request.route.any (·.action.opensSession) = false) :
    Tokenless (App.handle E request R) := by
  obtain ⟨route, id, hroute, hmem, hhandle⟩ | ⟨hroute, code, -, hhandle⟩ :=
    App.handle_cases E request R
  · rw [hroute] at h
    rw [hhandle]
    exact Prog.Only.tryCatch (Route.handle_of (Prog.composed_only _)
      fun user => Action.uses_tokenless h) fun _ => trivial
  · rw [hhandle]
    trivial

theorem App.founded (h : request.route.any (·.action.opensSession) = true) :
    AppStmt.found.Safe (fun _ => True) none (App.handle E request R) := by
  obtain ⟨route, id, hroute, hmem, hhandle⟩ | ⟨hroute, code, -, hhandle⟩ :=
    App.handle_cases E request R
  · rw [hroute] at h
    rw [hhandle, Route.handle, routes_opensSession route hmem h]
    exact keeps_tryCatch.mpr ((Action.founded h).mono (fun _ _ _ => trivial) fun _ _ _ => trivial)
  · rw [hroute] at h
    cases h

end Requests

theorem AppCall.tokenless {c : AppCall × AppEntropy} (h : c.1.opensSession = false) :
    Tokenless (AppPool.start E c) := by
  obtain ⟨call, R⟩ := c
  cases call with
  | request arrival request => exact Prog.only_map.mpr (App.tokenless h)
  | work job =>
    refine Prog.only_map.mpr ?_
    unfold JobRegistry.handle
    split_ifs
    · exact Prog.only_map.mpr (tokenless_onExports _)
    · exact Prog.only_map.mpr (tokenless_onCustomers _)
    · trivial
  | record jobId state => exact Prog.only_map.mpr (tokenless_stmt rfl)

theorem AppStmt.found_allowed {op : AppStmt} (h : op.builds = false) (φ : Option UserRow) :
    AppStmt.found.allowed φ op := by
  cases op with
  | auth op =>
    cases op with
    | buildToken claims => cases h
    | _ => trivial
  | _ => trivial

theorem AppCall.founded (c : AppCall × AppEntropy) :
    AppStmt.found.Safe (fun _ => True) none (AppPool.start E c) := by
  cases hopens : c.1.opensSession with
  | false =>
    exact Monitor.Keeps.of_allowed (fun φ op hop => AppStmt.found_allowed hop φ)
      (AppCall.tokenless hopens)
  | true =>
    obtain ⟨call, R⟩ := c
    cases call with
    | request arrival request =>
      exact keeps_map.mpr ((App.founded hopens).mono (fun _ _ _ => trivial) fun _ _ _ => trivial)
    | _ => cases hopens

/-! ## Runs -/

/-- The account that a call has found last is one that it was replied. -/
theorem exists_replied {log : List AppEvent} {i : ℕ} {user : UserRow}
    (h : AppStmt.found.phase none i log = some user) : ∃ n,
      (∃ id, (⟨n, i, .auth (.findUserById id), .ok (some user)⟩ : AppEvent) ∈ log)
      ∨ ∃ email, (⟨n, i, .auth (.findByEmail email), .ok (some user)⟩ : AppEvent) ∈ log := by
  induction log with
  | nil => cases h
  | cons e log ih =>
    have hbefore : AppStmt.found.phase none i log = some user → ∃ n,
        (∃ id, (⟨n, i, .auth (.findUserById id), .ok (some user)⟩ : AppEvent) ∈ e :: log)
        ∨ ∃ email, (⟨n, i, .auth (.findByEmail email), .ok (some user)⟩ : AppEvent) ∈ e :: log := by
      intro h
      obtain ⟨n, ⟨id, hmem⟩ | ⟨email, hmem⟩⟩ := ih h
      · exact ⟨n, .inl ⟨id, List.mem_cons_of_mem _ hmem⟩⟩
      · exact ⟨n, .inr ⟨email, List.mem_cons_of_mem _ hmem⟩⟩
    by_cases hi : e.pid = i
    · rw [Monitor.phase_cons_self hi] at h
      obtain ⟨n, pid, op, reply⟩ := e
      obtain rfl : pid = i := hi
      cases op with
      | auth op =>
        cases op with
        | findUserById id =>
          rcases reply with e | _ | found
          · exact hbefore h
          · exact hbefore h
          · obtain rfl := Option.some.inj h
            exact ⟨n, .inl ⟨id, List.mem_cons_self⟩⟩
        | findByEmail email =>
          rcases reply with e | _ | found
          · exact hbefore h
          · exact hbefore h
          · obtain rfl := Option.some.inj h
            exact ⟨n, .inr ⟨email, List.mem_cons_self⟩⟩
        | _ => exact hbefore h
      | _ => exact hbefore h
    · rw [Monitor.phase_cons_of_ne hi] at h
      exact hbefore h

/-- Call `i` looks for an account, and this is the one it finds. -/
def AppPool.Finds (E : AppEnv) (s : AppPool) (i : ℕ) (account : UserRow) : Prop :=
  ∃ p, s.procs[i]? = some p
    ∧ ((∃ id, p.rest.statement? = some (.auth (.findUserById id))
        ∧ UserModel.findById s.db.auth id = some account)
      ∨ ∃ email, p.rest.statement? = some (.auth (.findByEmail email))
        ∧ UserModel.findByEmail E.auth.sqlEq s.db.auth email = some account)

/-- The user table has the account of a user, and it is not deleted. -/
def AppDb.HasAccount (db : AppDb) (user : RequestUser) : Prop :=
  ∃ account ∈ db.auth.user.rows, account.id = user.id ∧ account.email = user.email
    ∧ account.type = user.type ∧ account.deletedAt = none

/-- Call `i` is a request to a session endpoint, about to build a token for an account that it has
found before, and the table has the account from then on. -/
structure AppPool.BuildsFor (E : AppEnv) (db : AppDb) (now : Int) (s : AppPool) (i : ℕ)
    (account : UserRow) : Prop where
  reached : AppPool.Steps E (AppPool.idle db now) s
  builder : ∃ p, s.procs[i]? = some p ∧ p.call.1.opensSession = true
    ∧ p.rest.statement? = some (.auth (.buildToken account.claims))
  found : ∃ s₀ s₁ : AppPool, AppPool.Steps E (AppPool.idle db now) s₀ ∧ s₀.Finds E i account
    ∧ Pool.act E.exec (AppPool.start E) s₀ (.step i) = some s₁ ∧ AppPool.Steps E s₁ s
    ∧ ∀ s₂, AppPool.Steps E s₀ s₂ → s₂.db.HasAccount (JwtHelper.userFromClaims account.claims)

/-- An account that a call finds is in the table from then on. -/
theorem AppPool.Finds.hasAccount {s₀ s₂ : AppPool} {i : ℕ} {account : UserRow}
    (h : s₀.Finds E i account) (run : AppPool.Steps E s₀ s₂) :
    s₂.db.HasAccount (JwtHelper.userFromClaims account.claims) := by
  have hlive : ∀ p : UserRow → Bool, s₀.db.auth.user.first (fun r => p r && r.deletedAt.isNone) =
      some account → account ∈ s₀.db.auth.user.rows ∧ account.deletedAt = none := by
    intro p hfirst
    obtain ⟨hmem, hp⟩ := Table.first_mem hfirst
    exact ⟨hmem, by simpa using (Bool.and_eq_true_iff.mp hp).2⟩
  have hfound : account ∈ s₀.db.auth.user.rows ∧ account.deletedAt = none := by
    obtain ⟨_, -, ⟨id, -, hfirst⟩ | ⟨email, -, hfirst⟩⟩ := h
    · exact hlive _ hfirst
    · exact hlive _ hfirst
  have hevolves : s₀.db.Evolves s₂.db :=
    run.rel AppDb.Evolves.refl (fun _ _ _ h h' => h.trans h') AppEnv.exec_evolves
  obtain ⟨account', haccount, _, _, _, _, rfl⟩ := hevolves.user.exists_changes hfound.1
  exact ⟨_, haccount, rfl, rfl, rfl, hfound.2⟩

theorem JwtHelper.presented_ne_nil {request : Request} {now : Int} {user : RequestUser}
    (h : JwtHelper.requestUser E request now = some user) : JwtHelper.presented request ≠ [] := by
  intro hempty
  simp [JwtHelper.requestUser, JwtHelper.claims, hempty, trim] at h

variable {J : JwtEnv} {db : AppDb} {now : Int} {s : AppPool}

/-- What a token of a request verifies as was issued before. -/
theorem AppPool.issued_of_steps (run : AppPool.Steps E (AppPool.idle db now) s) :
    ∀ p ∈ s.procs, ∀ arrival request, p.call.1 = .request arrival request → ∀ claims,
      E.verify (JwtHelper.presented request) arrival = some claims →
      AppEvent.Issued s.log claims (JwtHelper.presented request) := by
  refine run.inv (I := fun s => ∀ p ∈ s.procs, ∀ arrival request,
    p.call.1 = .request arrival request → ∀ claims,
      E.verify (JwtHelper.presented request) arrival = some claims →
      AppEvent.Issued s.log claims (JwtHelper.presented request))
    (fun s₁ a s₂ h hG ha p hp arrival request hcall claims hverify => ?_)
    fun p hp => by simp [AppPool.idle] at hp
  have hlog : AppEvent.Issued s₁.log claims (JwtHelper.presented request) →
      AppEvent.Issued s₂.log claims (JwtHelper.presented request) := by
    rintro ⟨n, pid, hev⟩
    exact ⟨n, pid, Pool.act_log ha hev⟩
  obtain ⟨⟨call, R⟩, rest⟩ := p
  obtain rfl : call = .request arrival request := hcall
  rcases Pool.act_calls ha hp with rfl | ⟨p₀, hp₀, hsame⟩
  · exact hlog (hG.2 arrival claims hverify)
  · exact hlog (h p₀ hp₀ arrival request (congrArg Prod.fst hsame) claims hverify)

/-- A call of a run that is about to build a token is a request to a session endpoint. -/
theorem AppPool.opensSession_of_builds (run : AppPool.Steps E (AppPool.idle db now) s) {i : ℕ}
    {p : Proc (AppCall × AppEntropy) AppStmt AppStmt.Res Int Failure AppResult}
    (hp : s.procs[i]? = some p) {claims : AccessClaims}
    (hstands : p.rest.statement? = some (.auth (.buildToken claims))) :
    p.call.1.opensSession = true := by
  have hkept : Pool.Kept (fun _ => True) (fun _ _ => True)
      (fun c op => op.builds = true → c.1.opensSession = true) s := by
    refine Pool.Kept.steps (fun _ _ _ _ _ _ => trivial) (fun _ _ _ _ _ _ => trivial)
      (fun s c _ => ?_) ⟨trivial, by simp [AppPool.idle], by simp [AppPool.idle]⟩ run
    refine Prog.Under.settle s.now ?_
    cases hopens : c.1.opensSession with
    | true => exact Prog.under_any (fun _ _ => rfl) _
    | false =>
      exact (Prog.Only.under (AppCall.tokenless hopens)).imp fun op hop hbuilds => by
        rw [hop] at hbuilds
        cases hbuilds
  have hrest := hkept.rest i p hp
  obtain ⟨k, hcall⟩ := Prog.statement?_eq_some.mp hstands
  rw [hcall] at hrest
  exact hrest.1 rfl

/-- Where a call of a run is about to build a token, it is for an account that it has found. -/
theorem AppPool.buildsFor (run : AppPool.Steps E (AppPool.idle db now) s) {i : ℕ}
    {p : Proc (AppCall × AppEntropy) AppStmt AppStmt.Res Int Failure AppResult}
    (hp : s.procs[i]? = some p) {claims : AccessClaims}
    (hstands : p.rest.statement? = some (.auth (.buildToken claims))) :
    ∃ account : UserRow, account.claims = claims ∧ AppPool.BuildsFor E db now s i account := by
  have hidle : ∀ ev : AppEvent, ev ∉ (AppPool.idle db now).log := fun ev => by simp [AppPool.idle]
  have hfollows : Pool.Follows AppStmt.found (fun _ => True) (fun _ => none) s :=
    run.follows (fun _ c _ => AppCall.founded c) Pool.follows_idle
  have hkeeps := hfollows.keeps i p hp
  obtain ⟨k, hcall⟩ := Prog.statement?_eq_some.mp hstands
  rw [hcall] at hkeeps
  obtain ⟨account, hfound, rfl⟩ := hkeeps.1
  refine ⟨account, rfl, run, ⟨p, hp, AppPool.opensSession_of_builds run hp hstands, hstands⟩, ?_⟩
  obtain ⟨n, ⟨id, hread⟩ | ⟨email, hread⟩⟩ := exists_replied hfound
  · obtain ⟨s₀, s₁, c, k, hbefore, hproc, hact, hafter, hreply⟩ := run.replied hread (hidle _)
    have hfinds : AppPool.Finds E s₀ i account :=
      ⟨_, hproc, .inl ⟨id, rfl, Except.ok.inj hreply⟩⟩
    exact ⟨s₀, s₁, hbefore, hfinds, hact, hafter, fun _ => hfinds.hasAccount⟩
  · obtain ⟨s₀, s₁, c, k, hbefore, hproc, hact, hafter, hreply⟩ := run.replied hread (hidle _)
    have hfinds : AppPool.Finds E s₀ i account :=
      ⟨_, hproc, .inr ⟨email, rfl, Except.ok.inj hreply⟩⟩
    exact ⟨s₀, s₁, hbefore, hfinds, hact, hafter, fun _ => hfinds.hasAccount⟩

/-- In any run in which no token is forged, a request that is let in presents the token that a
request to a session endpoint built, at an instant that is not after this request and less than the
access lifetime before it, for an account that this call had found. The account is in the table from
then on with the id, the email and the type of the user, and is not deleted. -/
theorem access_bounded (hlawful : J.Lawful)
    (run : AppPool.Steps (E.withJwt J) (AppPool.idle db now) s)
    {p : Proc (AppCall × AppEntropy) AppStmt AppStmt.Res Int Failure AppResult} (hp : p ∈ s.procs)
    {arrival : Int} {request : Request} (hcall : p.call.1 = .request arrival request)
    {user : RequestUser}
    (huser : JwtHelper.requestUser (E.withJwt J) request arrival = some user) :
    ∃ (s₁ : AppPool) (i n : ℕ) (account : UserRow) (expiresAt : Int),
      AppPool.BuildsFor (E.withJwt J) db now s₁ i account
      ∧ AppPool.Steps (E.withJwt J) s₁ s
      ∧ JwtHelper.buildToken J account.claims (some (JwtHelper.accessTtl J)) s₁.now =
        .ok (JwtHelper.presented request)
      ∧ (⟨n, i, .auth (.buildToken account.claims), .ok (JwtHelper.presented request)⟩ : AppEvent)
        ∈ s.log
      ∧ JwtHelper.userFromClaims account.claims = user
      ∧ J.modify (JwtHelper.accessTtl J) s₁.now = some expiresAt
      ∧ s₁.now ≤ arrival ∧ arrival < expiresAt
      ∧ ∀ s₂, AppPool.Steps (E.withJwt J) s₁ s₂ → s₂.db.HasAccount user := by
  obtain ⟨claims, hverify, rfl⟩ := JwtHelper.requestUser_eq_some huser
  obtain ⟨n, i, hissued⟩ := AppPool.issued_of_steps run p hp arrival request hcall claims hverify
  obtain ⟨s₁, s₂, c, k, hbefore, hproc, hact, hafter, hreply⟩ :=
    run.replied hissued (by simp [AppPool.idle])
  have hlater : AppPool.Steps (E.withJwt J) s₁ s := .head ⟨.step i, trivial, hact⟩ hafter
  obtain ⟨account, rfl, hbuilds⟩ := AppPool.buildsFor hbefore hproc rfl
  have haccount : ∀ s₂, AppPool.Steps (E.withJwt J) s₁ s₂ →
      s₂.db.HasAccount (JwtHelper.userFromClaims account.claims) := by
    intro s₂ hsince
    obtain ⟨s₀, s₀', -, hfinds, hact, hthen, -⟩ := hbuilds.found
    exact hfinds.hasAccount (.head ⟨.step i, trivial, hact⟩ (hthen.trans hsince))
  have htoken : (E.withJwt J).auth.buildToken account.claims s₁.now = JwtHelper.presented request :=
    Except.ok.inj hreply
  obtain ⟨_, _, plain, -, -, hparse, hvalid, -⟩ := JwtHelper.verify_eq_some.mp hverify
  cases hbuild : JwtHelper.buildToken J account.claims (some (JwtHelper.accessTtl J)) s₁.now with
  | error e =>
    -- The statement would have failed, and an empty token lets nobody in.
    have hempty : [] = JwtHelper.presented request := by
      simpa [AppEnv.withJwt, hbuild, Except.toOption] using htoken
    exact absurd hempty.symm (JwtHelper.presented_ne_nil huser)
  | ok token =>
    obtain ⟨_, _, expiresAt, -, -, hmodify, hsigned⟩ := JwtHelper.buildToken_eq_ok hbuild
    obtain rfl : token = JwtHelper.presented request := by
      simpa [AppEnv.withJwt, hbuild, Except.toOption] using htoken
    have hplain := hlawful.parse_getToken _ _ _ hsigned
    rw [hparse] at hplain
    have hwindow : s₁.now ≤ arrival ∧ arrival < expiresAt := by
      have hstrict : plain.strictValidAt arrival = true := (Bool.and_eq_true_iff.mp hvalid).2
      rw [Option.some.inj hplain] at hstrict
      simpa [Jwt.Plain.strictValidAt] using hstrict
    exact ⟨s₁, i, n, account, expiresAt, hbuilds, hlater, hbuild, hissued, rfl,
      hmodify, hwindow.1, hwindow.2, haccount⟩

/-! ## A sample run -/

namespace JwtSample

/-- The token that the administrator gets at instant 0. -/
def token : Bytes :=
  (JwtHelper.buildToken env AppSample.claims (some (JwtHelper.accessTtl env)) 0).toOption.getD []

def me : Request :=
  { AppSample.post "/auth/me" (ascii "Bearer " ++ token) [] with method := ascii "GET" }

/-- The administrator signs in and looks at the account in the last second of the token. -/
def schedule : List AppAct :=
  [.spawn (.request 0 AppSample.login, AppSample.entropy), .step 0, .step 0, .step 0, .step 0,
    .step 0, .tick 899, .spawn (.request 899 me, AppSample.entropy)]

/-- The instant of a request that is let in, and its user. -/
def accepted : AppCall → Option (Int × RequestUser)
  | .request arrival received =>
    (JwtHelper.requestUser (AppSample.env.withJwt env) received arrival).map fun user =>
      (arrival, user)
  | _ => none

/-- A token that parses is presented once it was issued only. -/
def admits (s : AppPool) : AppAct → Bool
  | .spawn (.request arrival received, _) => arrival = s.now
      && (env.parse (JwtHelper.presented received)).all fun plain => s.log.any fun ev =>
        match ev with
        | ⟨_, _, .auth (.buildToken c), .ok token⟩ =>
          c = plain.claims && token = JwtHelper.presented received
        | _ => false
  | .spawn (.work _, _) => false
  | _ => true

theorem admits_sound (s : AppPool) (a : AppAct) (h : admits s a = true) :
    s.Admits (AppSample.env.withJwt env) a := by
  cases a with
  | spawn c =>
    obtain ⟨call, R⟩ := c
    cases call with
    | request arrival received =>
      simp only [admits, Bool.and_eq_true, decide_eq_true_eq] at h
      refine ⟨h.1, fun now claims hverify => ?_⟩
      obtain ⟨_, _, plain, -, -, hparse, -, rfl⟩ := JwtHelper.verify_eq_some.mp hverify
      have hissued := h.2
      rw [hparse, Option.all_some] at hissued
      obtain ⟨ev, hev, hmatch⟩ := List.any_eq_true.mp hissued
      split at hmatch
      · rename_i n pid c token
        simp only [Bool.and_eq_true, decide_eq_true_eq] at hmatch
        obtain ⟨rfl, rfl⟩ := hmatch
        exact ⟨n, pid, hev⟩
      · cases hmatch
    | work job => cases h
    | record jobId state => trivial
  | _ => trivial

end JwtSample

open JwtSample in
/-- The token of a request in the last second was built by the sign-in. -/
theorem access_bounded_sample : ∃ (s s₁ : AppPool) (i : ℕ) (account : UserRow),
    AppPool.BuildsFor (AppSample.env.withJwt env) AppSample.db 0 s₁ i account
      ∧ AppPool.Steps (AppSample.env.withJwt env) s₁ s ∧ s₁.now ≤ 899 ∧ 899 < s₁.now + 900
      ∧ account.id = 1
      ∧ s.db.HasAccount (JwtHelper.userFromClaims AppSample.claims) := by
  have h : ∃ s ∈ Pool.acts (AppSample.env.withJwt env).exec
      (AppPool.start (AppSample.env.withJwt env)) (fun s a => admits s a = true) schedule
      (AppPool.idle AppSample.db 0), ∃ p ∈ s.procs[1]?,
        accepted p.call.1 = some (899, JwtHelper.userFromClaims AppSample.claims) := by
    decide +kernel
  obtain ⟨s, hs, p, hp, haccepted⟩ := h
  obtain ⟨⟨call, R⟩, rest⟩ := p
  cases call with
  | request arrival request =>
    obtain ⟨user, huser, heq⟩ := Option.map_eq_some_iff.mp haccepted
    cases heq
    obtain ⟨s₁, i, n, account, expiresAt, hbuilds, hafter, -, -, hclaims, hmodify, hle, hlt,
      haccount⟩ := access_bounded library_lawful ((Pool.steps_of_acts hs).mono admits_sound)
        (List.mem_of_getElem? hp) rfl huser
    obtain rfl : s₁.now + 900 = expiresAt := Option.some.inj hmodify
    exact ⟨s, s₁, i, account, hbuilds, hafter, hle, hlt, congrArg RequestUser.id hclaims,
      haccount s hafter⟩
  | _ => cases haccepted

end SlimStarter
