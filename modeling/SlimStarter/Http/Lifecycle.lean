import SlimStarter.Lib.Growth
import SlimStarter.Http.Answered

/-!
# The life of a row

No call takes a row away, and what it may change of one is little: of an account the name, the
password hash and two times, of a refresh token the time of its revocation, once, of a customer
anything but its id, its creation and that it is deleted, of a job what the queue keeps account of
(`rows_evolve`).

So a customer that is deleted stays deleted, and the requests for it that come after are refused,
whatever the calls are doing that were on their way by then (`deleted_stays_deleted`).
-/

namespace SlimStarter

open Prog (FailsWith Meets)

variable {E : AppEnv}

def UserRow.evolution : Evolution UserRow where
  key := (·.id)
  Changes r r' := ∃ name passwordHash lastLoginAt updatedAt,
    r' = { r with name, passwordHash, lastLoginAt, updatedAt }
  refl r := ⟨_, _, _, _, rfl⟩
  trans := by
    rintro r _ _ ⟨_, _, _, _, rfl⟩ ⟨_, _, _, _, rfl⟩
    exact ⟨_, _, _, _, rfl⟩
  key_eq := by
    rintro r _ ⟨_, _, _, _, rfl⟩
    rfl

def RefreshTokenRow.evolution : Evolution RefreshTokenRow where
  key := (·.id)
  Changes r r' := r' = r ∨ r.revokedAt = none ∧ ∃ now, r' = { r with revokedAt := some now }
  refl r := .inl rfl
  trans := by
    rintro r r' r'' (rfl | ⟨hnone, now, rfl⟩) (rfl | ⟨hnone', now', rfl⟩)
    · exact .inl rfl
    · exact .inr ⟨hnone', now', rfl⟩
    · exact .inr ⟨hnone, now, rfl⟩
    · cases hnone'
  key_eq := by
    rintro r r' (rfl | ⟨-, now, rfl⟩) <;> rfl

def CustomerRow.evolution : Evolution CustomerRow where
  key := (·.id)
  Changes r r' := (r.deletedAt.isSome → r'.deletedAt.isSome)
    ∧ ∃ data avatarPath updatedAt deletedAt,
      r' = { r with toCustomerData := data, avatarPath, updatedAt, deletedAt }
  refl r := ⟨fun h => h, _, _, _, _, rfl⟩
  trans := by
    rintro r _ _ ⟨hdeleted, _, _, _, _, rfl⟩ ⟨hdeleted', _, _, _, _, rfl⟩
    exact ⟨hdeleted' ∘ hdeleted, _, _, _, _, rfl⟩
  key_eq := by
    rintro r _ ⟨-, _, _, _, _, rfl⟩
    rfl

def JobData.evolution : Evolution JobData where
  key := (·.id)
  Changes r r' := ∃ state, r' = { r with state }
  refl r := ⟨_, rfl⟩
  trans := by
    rintro r _ _ ⟨_, rfl⟩ ⟨_, rfl⟩
    exact ⟨_, rfl⟩
  key_eq := by
    rintro r _ ⟨_, rfl⟩
    rfl

/-- What may become of the tables. -/
structure AppDb.Evolves (db db' : AppDb) : Prop where
  user : UserRow.evolution.Grows db.auth.user db'.auth.user
  refreshToken : RefreshTokenRow.evolution.Grows db.auth.refreshToken db'.auth.refreshToken
  customer : CustomerRow.evolution.Grows db.customer.customer db'.customer.customer
  job : JobData.evolution.Grows db.job db'.job

open Evolution (Grows)

namespace AppDb.Evolves

theorem refl (db : AppDb) : db.Evolves db := ⟨.refl _, .refl _, .refl _, .refl _⟩

theorem trans {db db' db'' : AppDb} (h : db.Evolves db') (h' : db'.Evolves db'') :
    db.Evolves db'' :=
  ⟨h.user.trans h'.user, h.refreshToken.trans h'.refreshToken, h.customer.trans h'.customer,
    h.job.trans h'.job⟩

end AppDb.Evolves

/-! ## Statements -/

/-- What a statement of the sessions makes of its tables. -/
theorem AuthEnv.exec_grows (F : AuthEnv) (op : AuthStmt) (now : Int) (db : AuthDb) :
    UserRow.evolution.Grows db.user (F.exec op now db).2.user
      ∧ RefreshTokenRow.evolution.Grows db.refreshToken (F.exec op now db).2.refreshToken := by
  have hrevoke : ∀ p, RefreshTokenRow.evolution.Grows db.refreshToken
      (RefreshTokenModel.revokeWhere (F.zone.date now) db p).2.refreshToken :=
    fun p => Grows.update fun r hr =>
      .inr ⟨Option.isNone_iff_eq_none.mp (Bool.and_eq_true_iff.mp hr).2, _, rfl⟩
  cases op with
  | createUser name email passwordHash type =>
    simp only [AuthEnv.exec, UserModel.create]
    split_ifs
    · exact ⟨.refl _, .refl _⟩
    · refine ⟨?_, .refl _⟩
      dsimp only
      exact Grows.insert fun id => rfl
  | createToken userId familyId tokenHash expiresAt userAgent ipAddress =>
    simp only [AuthEnv.exec, RefreshTokenModel.create]
    split_ifs
    · exact ⟨.refl _, .refl _⟩
    · refine ⟨.refl _, ?_⟩
      dsimp only
      exact Grows.insert fun id => rfl
  | updateProfile id name => exact ⟨Grows.update fun r _ => ⟨_, _, _, _, rfl⟩, .refl _⟩
  | updatePassword id passwordHash => exact ⟨Grows.update fun r _ => ⟨_, _, _, _, rfl⟩, .refl _⟩
  | touchLastLogin id => exact ⟨Grows.update fun r _ => ⟨_, _, _, _, rfl⟩, .refl _⟩
  | revoke id => exact ⟨.refl _, hrevoke _⟩
  | revokeFamily familyId => exact ⟨.refl _, hrevoke _⟩
  | revokeAllForUser userId => exact ⟨.refl _, hrevoke _⟩
  | revokeAllForUserExceptFamily userId familyId => exact ⟨.refl _, hrevoke _⟩
  | revokeExpiredForUser userId => exact ⟨.refl _, hrevoke _⟩
  | _ => exact ⟨.refl _, .refl _⟩

theorem CustomerModel.createMany_grows (rows : List NewCustomer) (t : Table CustomerRow) :
    CustomerRow.evolution.Grows t (CustomerModel.createMany t rows).2 := by
  show CustomerRow.evolution.Grows t (rows.foldl (fun t c => t.insert (NewCustomer.row c)) t)
  induction rows generalizing t with
  | nil => exact .refl _
  | cons c rows ih =>
    exact (Grows.insert (V := CustomerRow.evolution) fun id => rfl).trans (ih _)

/-- A change of columns leaves the id and the times of creation and deletion. -/
theorem CustomerChange.changes (change : CustomerChange) (r : CustomerRow)
    (updatedAt : Option LocalTime) :
    CustomerRow.evolution.Changes r { change.apply r with updatedAt } := by
  cases change with
  | data d => exact ⟨id, _, _, _, _, rfl⟩
  | avatarPath path => exact ⟨id, _, _, _, _, rfl⟩

theorem CustomerEnv.exec_grows (F : CustomerEnv) (op : CustomerStmt) (now : Int)
    (db : CustomerDb) :
    CustomerRow.evolution.Grows db.customer (F.exec op now db).2.customer := by
  cases op with
  | create data => exact Grows.insert fun id => rfl
  | createMany rows => exact CustomerModel.createMany_grows rows _
  | update id change => exact Grows.update fun r _ => change.changes r _
  | deleteById id => exact Grows.update fun r _ => ⟨fun _ => rfl, _, _, _, _, rfl⟩
  | _ => exact .refl _

theorem AppEnv.exec_evolves (op : AppStmt) (now : Int) (db : AppDb) :
    db.Evolves (E.exec op now db).2 := by
  cases op with
  | auth op =>
    obtain ⟨huser, htoken⟩ := E.auth.exec_grows op now db.auth
    exact ⟨huser, htoken, .refl _, .refl _⟩
  | customer op =>
    exact ⟨.refl _, .refl _, E.customer.exec_grows op now db.customer, .refl _⟩
  | «export» op =>
    refine ⟨.refl _, .refl _, ?_, .refl _⟩
    cases op <;> exact .refl _
  | dispatch type payload =>
    refine ⟨.refl _, .refl _, .refl _, ?_⟩
    dsimp only [AppEnv.exec]
    exact Grows.insert fun id => rfl
  | record jobId state =>
    exact ⟨.refl _, .refl _, .refl _, Grows.update fun r _ => ⟨_, rfl⟩⟩
  | getStatus _ | selectOne | storageWritable => exact .refl _

/-- Between any two states of a run no row is lost and none is but the one that it was: accounts
keep their id, email, type and whether they are deleted, refresh tokens all but the revocation,
which is for good, customers their id, their creation and that they are deleted, and jobs what is to
be done. What is new comes after them, with keys that had not been given. -/
theorem rows_evolve {G : AppPool → AppAct → Prop} {s s' : AppPool}
    (run : Pool.Steps E.exec (AppPool.start E) G s s') : s.db.Evolves s'.db :=
  run.rel AppDb.Evolves.refl (fun _ _ _ h h' => h.trans h') AppEnv.exec_evolves

open AppSample in
theorem rows_evolve_sample : ∃ s : AppPool, (AppPool.idle db 0).db.Evolves s.db
    ∧ s.db.auth.user ≠ db.auth.user ∧ s.db.auth.refreshToken.rows.length = 1 := by
  have h : ∃ s ∈ Pool.acts env.exec (AppPool.start env) (fun s a => admits s a = true) schedule
      (AppPool.idle db 0), s.db.auth.user ≠ db.auth.user
        ∧ s.db.auth.refreshToken.rows.length = 1 := by
    decide +kernel
  obtain ⟨s, hs, hchange⟩ := h
  exact ⟨s, rows_evolve (Pool.steps_of_acts hs), hchange⟩

/-! ## Deleted customers -/

/-- The id was given, and no customer that is left has it. -/
structure AppDb.Gone (id : ℕ) (db : AppDb) : Prop where
  given : id < db.customer.customer.autoIncrement
  deleted : ∀ r ∈ db.customer.customer.rows, r.id = id → r.deletedAt.isSome

theorem AppDb.Gone.evolves {id : ℕ} {db db' : AppDb} (h : db.Gone id) (hevolves : db.Evolves db') :
    db'.Gone id where
  given := h.given.trans_le hevolves.customer.next
  deleted := by
    intro r' hr' hid
    have hlt : CustomerRow.evolution.key r' < db.customer.customer.autoIncrement := by
      rw [show CustomerRow.evolution.key r' = r'.id from rfl, hid]
      exact h.given
    obtain ⟨r, hr, hchanges⟩ := hevolves.customer.origin hr' hlt
    have hkey : r'.id = r.id := CustomerRow.evolution.key_eq r r' hchanges
    exact hchanges.1 (h.deleted r hr (hkey ▸ hid))

/-- What a statement replies where the customer is gone, if it does not fail. -/
def AppStmt.Misses (id : ℕ) (op : AppStmt) (r : Except Failure op.Res) : Prop :=
  FailsWith Failure.IsFault op r ∧
    match op, r with
    | .customer (.findById id'), r => id' = id → ∀ customer, r ≠ .ok (some customer)
    | .customer (.exists id'), r => id' = id → r ≠ .ok true
    | _, _ => True

theorem AppDb.Gone.misses {id : ℕ} {db : AppDb} (h : db.Gone id) (op : AppStmt) (now : Int) :
    op.Misses id (E.exec op now db).1 := by
  have hnone : CustomerModel.findById db.customer.customer id = none := by
    refine Table.first_eq_none.mpr fun r hr => ?_
    by_cases hid : r.id = id
    · simp [hid, h.deleted r hr hid]
    · simp [hid]
  refine ⟨exec_failsWith op now db, ?_⟩
  cases op with
  | customer op =>
    cases op with
    | findById id' =>
      rintro rfl customer hsome
      simp [AppEnv.exec, CustomerEnv.exec, hnone] at hsome
    | «exists» id' =>
      rintro rfl htrue
      simp [AppEnv.exec, CustomerEnv.exec, CustomerModel.exists, hnone] at htrue
    | _ => trivial
  | _ => trivial

/-- The response is one of a request that is not granted. -/
def Declined : Except Failure Response → Prop
  | .ok response => 400 ≤ response.httpStatus
  | .error _ => True

/-- Where the customer is gone, the program is not granted. -/
abbrev Declines (id : ℕ) (p : AppProg Response) : Prop :=
  Meets (AppStmt.Misses id) (fun _ => True) Declined p

section Requests

variable {c : Context} {id : ℕ}

theorem declined_error {message : String} {data : Payload} {httpStatus : ℕ}
    (h : 400 ≤ httpStatus) : 400 ≤ (JsonResponse.error E message data httpStatus).httpStatus := by
  unfold JsonResponse.error JsonResponse.withJson
  split_ifs
  · exact h
  · show 400 ≤ HttpStatus.internalServerError
    decide

theorem declines_validated {errors : List (String × String)} {next : AppProg Response}
    (h : Declines id next) : Declines id (Controller.validated E errors next) := by
  unfold Controller.validated
  split_ifs
  · exact h
  · exact declined_error (by decide)

/-- A service that does not find its customer is not granted. -/
theorem declines_attempt {α : Type} {op : CustomerStmt} {f : op.Res → CustomerProg α}
    {response : α → Response} (exception : AppException) (hcode : 400 ≤ exception.httpStatus)
    (hmissing : ∀ a, (AppStmt.customer op).Misses id (.ok a) → f a = .throw (.app exception)) :
    Declines id (Controller.attempt E (onCustomers (.call op (Prog.resume f))) response) := by
  unfold Controller.attempt
  refine Prog.meets_tryCatch.mpr (Prog.meets_map.mpr ⟨trivial, fun r hr => ?_⟩)
  cases r with
  | ok a =>
    simp only [Except.map, Prog.resume_ok, hmissing a hr]
    exact declined_error hcode
  | error e =>
    have hfault := hr.1 e rfl
    cases e with
    | app exception => exact absurd rfl (hfault exception)
    | database | valueError | typeError | runtime _ => trivial

theorem declines_findById {α : Type} {f : Option CustomerRow → CustomerProg α}
    {response : α → Response}
    (hnone : f none = .throw (.notFoundException "Customer not found.")) :
    Declines id (Controller.attempt E
      (onCustomers (.call (.findById id) (Prog.resume f))) response) := by
  refine declines_attempt ⟨"Customer not found.", HttpStatus.notFound, []⟩ (by decide)
    fun customer hmisses => ?_
  cases customer with
  | none => exact hnone
  | some customer => exact absurd rfl (hmisses.2 rfl customer)

/-- The endpoints of one customer. -/
def Action.ofCustomer : Action → Bool
  | «show» | update | delete | uploadAvatar | removeAvatar => true
  | _ => false

theorem Action.declines {action : Action} (h : action.ofCustomer = true) :
    Declines (positiveId c.id) (action.run E c) := by
  cases action with
  | «show» =>
    show Declines _ (Controller.Customer.show E c)
    unfold Controller.Customer.show CustomerService.get
    rw [Prog.stmt_bind]
    exact declines_findById rfl
  | update =>
    show Declines _ (Controller.Customer.update E c)
    unfold Controller.Customer.update CustomerService.update
    simp only [Prog.stmt_bind]
    refine declines_validated (declines_attempt
      ⟨"Customer not found.", HttpStatus.notFound, []⟩ (by decide) fun found hmisses => ?_)
    cases found with
    | false => rfl
    | true => exact absurd rfl (hmisses.2 rfl)
  | delete =>
    show Declines _ (Controller.Customer.delete E c)
    unfold Controller.Customer.delete CustomerService.delete
    rw [Prog.stmt_bind]
    exact declines_findById rfl
  | uploadAvatar =>
    show Declines _ (Controller.Customer.uploadAvatar E c)
    unfold Controller.Customer.uploadAvatar CustomerService.uploadAvatar
    cases c.request.files (ascii "avatar") with
    | none => exact declined_error (by decide)
    | some avatar =>
      simp only [Prog.stmt_bind]
      exact declines_findById rfl
  | removeAvatar =>
    show Declines _ (Controller.Customer.removeAvatar E c)
    unfold Controller.Customer.removeAvatar CustomerService.removeAvatar
    rw [Prog.stmt_bind]
    exact declines_findById rfl
  | _ => cases h

variable {request : Request} {R : AppEntropy}

variable (E) in
/-- The customer that the path of the request names, at one of the endpoints of a customer. -/
def Request.customerId (request : Request) : Option ℕ :=
  let found := findRoute request.method request.path <|>
    if request.method = ascii "HEAD" then findRoute (ascii "GET") request.path else none
  found.bind fun (route, id) =>
    if route.action.ofCustomer then some (positiveId (id.map E.rawurldecode)) else none

theorem App.declines (h : request.customerId E = some id) :
    Declines id (App.handle E request R) := by
  unfold Request.customerId at h
  unfold App.handle
  simp only at h ⊢
  obtain ⟨⟨route, arg⟩, hfound, hroute⟩ := Option.bind_eq_some_iff.mp h
  rw [hfound]
  simp only at hroute ⊢
  split_ifs at hroute with haction
  have hhandle : Declines id (route.handle E request R arg) := by
    refine Middleware.foldl_of E request (P := Declines id) (fun _ => trivial) (fun _ h => h)
      (fun middleware _ _ _ hcode => declined_error (Middleware.answers_ge hcode)) (fun user => ?_)
      none
    rw [← Option.some.inj hroute]
    exact Action.declines (c := ⟨request, user, arg.map E.rawurldecode, R⟩) haction
  refine Prog.meets_tryCatch.mpr (Meets.mono hhandle fun r hr => ?_)
  cases r with
  | ok response => exact hr
  | error e => exact (Response.statusCode_bounds e).1

end Requests

/-- The call is not a request for the customer that is granted. -/
def AppCall.Declined (E : AppEnv) (id : ℕ) : AppCall → Except Failure AppResult → Prop
  | .request _ received, r => received.customerId E = some id →
      ∀ response, r = .ok (.response response) → 400 ≤ response.httpStatus
  | _, _ => True

/-- From a state on where a customer is deleted, whatever calls are on their way in it, and whatever
is called later, it stays deleted; and every request for it that comes later, to show it, to change
it, to delete it, or for its avatar, is refused. -/
theorem deleted_stays_deleted {id : ℕ} {s s' : AppPool}
    (run : Pool.Steps E.exec (AppPool.start E) AppPool.Faulty s s') (hgone : s.db.Gone id) :
    s'.db.Gone id ∧ ∀ i p arrival request, s.procs.length ≤ i → s'.procs[i]? = some p →
      p.call.1 = .request arrival request → request.customerId E = some id →
      ∀ response, p.rest.outcome? = some (.ok (.response response)) →
        400 ≤ response.httpStatus := by
  have hspawn : ∀ c : AppCall × AppEntropy,
      Meets (AppStmt.Misses id) (fun _ => True) (c.1.Declined E id) (AppPool.start E c) := by
    rintro ⟨call, R⟩
    cases call with
    | request arrival received =>
      by_cases hid : received.customerId E = some id
      · refine Prog.meets_map.mpr (Meets.mono (App.declines hid) fun r hr _ response heq => ?_)
        cases r with
        | ok response' =>
          cases heq
          exact hr
        | error e => cases heq
      · exact (Prog.meets_true _).mono fun r _ h => absurd h hid
    | work job => exact Prog.meets_true _
    | record jobId state => exact Prog.meets_true _
  have hfail : ∀ (s : AppPool) i e, s.Faulty (.fail i e) → ∀ op : AppStmt,
      op.Misses id (.error e) := by
    intro s i e he op
    refine ⟨fun e' heq => Except.error.inj heq ▸ he, ?_⟩
    rcases op with op | op | op | _ | _ | _ | _ | _
    · trivial
    · cases op <;> first | trivial | exact fun _ _ h => by cases h | exact fun _ h => by cases h
    all_goals trivial
  obtain ⟨hgone', hprocs⟩ := run.meets_later (I := fun db => db.Gone id)
    (A := fun c => c.1.Declined E id) (fun op now db h => h.evolves (AppEnv.exec_evolves op now db))
    (fun op now db h => h.misses op now) hspawn hfail hgone
  refine ⟨hgone', fun i p arrival request hi hp hcall hid response hr => ?_⟩
  have hdeclined := (hprocs i p hi hp).outcome hr
  rw [hcall] at hdeclined
  exact hdeclined hid response rfl

namespace AppSample

/-- The only customer is deleted. -/
def deletedDb : AppDb :=
  let ann : CustomerRow := { CustomerSample.customer (ascii "Ann") with
    id := 1, avatarPath := none, createdAt := ⟨0⟩, updatedAt := none, deletedAt := some ⟨5⟩ }
  { db with customer := { CustomerSample.db with customer := ⟨[ann], 2⟩ } }

/-- The customer that a request names. -/
def customerId : AppCall → Option ℕ
  | .request _ received => received.customerId env
  | _ => none

end AppSample

open AppSample in
/-- A second deletion is refused. -/
theorem deleted_stays_deleted_sample : ∃ s : AppPool, s.db.Gone 1 ∧ ∃ p ∈ s.procs, ∃ response,
    p.rest.outcome? = some (.ok (.response response)) ∧ 400 ≤ response.httpStatus := by
  have h : ∃ s ∈ Pool.acts env.exec (AppPool.start env) (fun _ a => isFail a = false)
      [.spawn (.request 0 deleteCustomer, entropy), .step 0] (AppPool.idle deletedDb 0),
      ∃ p ∈ s.procs[0]?, customerId p.call.1 = some 1 ∧ (p.rest.outcome?.bind status).isSome := by
    decide +kernel
  obtain ⟨s, hs, p, hp, hid, hsome⟩ := h
  have hgone : (AppPool.idle deletedDb 0).db.Gone 1 := ⟨by decide, by decide⟩
  obtain ⟨hgone', hdeclined⟩ :=
    deleted_stays_deleted ((Pool.steps_of_acts hs).mono faulty_of_not_isFail) hgone
  obtain ⟨_ | ⟨response | result | _⟩, hresponse⟩ : ∃ r, p.rest.outcome? = some r :=
    Option.isSome_iff_exists.mp (Option.isSome_of_isSome_bind hsome)
  all_goals
    simp [hresponse, status] at hsome
  cases hcall : p.call.1 with
  | request arrival request =>
    rw [hcall] at hid
    exact ⟨s, hgone', p, List.mem_of_getElem? hp, response, hresponse,
      hdeclined 0 p arrival request (Nat.zero_le _) hp hcall hid response hresponse⟩
  | work job => simp [hcall, customerId] at hid
  | record jobId state => simp [hcall, customerId] at hid

end SlimStarter
