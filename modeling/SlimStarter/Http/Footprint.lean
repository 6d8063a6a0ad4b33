import SlimStarter.Lib.Footprint
import SlimStarter.Http.Gate

/-!
# What the controllers look at and what they change

The store has six parts: the two tables of the accounts, the customers, the cache, the files and the
queue. `AppStmt.footprint` says which of them a statement reads and writes (`footprint_sound`), and
`Action.footprint` is the access matrix of the controllers, which they keep to whatever the replies
(`Action.within`).
-/

namespace SlimStarter

open Footprint (Within Agree)

inductive AppPart where
  | accounts
  | sessions
  | customers
  | cache
  | files
  | jobs
deriving DecidableEq, Repr

@[reducible] def AppPart.View : AppPart → Type
  | accounts => Table UserRow
  | sessions => Table RefreshTokenRow
  | customers => Table CustomerRow
  | cache => Redis.Store
  | files => Bytes → Option Bytes
  | jobs => Table JobData

def AppPart.view : (x : AppPart) → AppDb → x.View
  | accounts, db => db.auth.user
  | sessions, db => db.auth.refreshToken
  | customers, db => db.customer.customer
  | cache, db => db.customer.redis
  | files, db => db.customer.files
  | jobs, db => db.job

/-! ## Statements -/

open AppPart

def AuthStmt.footprint : AuthStmt → Footprint AppPart
  | findUserById _ | findByEmail _ | existsByEmail _ => ⟨{accounts}, ∅⟩
  | createUser .. | updateProfile .. | updatePassword .. | touchLastLogin _ =>
    ⟨{accounts}, {accounts}⟩
  | findByHash _ => ⟨{sessions}, ∅⟩
  | createToken .. | revoke _ | revokeFamily _ | revokeAllForUser _
  | revokeAllForUserExceptFamily .. | revokeExpiredForUser _ => ⟨{sessions}, {sessions}⟩
  | buildToken _ => ⊥

def CustomerStmt.footprint : CustomerStmt → Footprint AppPart
  | get .. | countGet .. | countCreatedSince _ | findById _ | «exists» _ | existsByName ..
  | existsByEmail .. => ⟨{customers}, ∅⟩
  | create _ | createMany _ | update .. | deleteById _ => ⟨{customers}, {customers}⟩
  | redisGet _ => ⟨{cache}, ∅⟩
  | redisSetex .. | redisIncr _ | redisDel _ => ⟨{cache}, {cache}⟩
  | isFile _ | readFile _ => ⟨{files}, ∅⟩
  | moveTo .. | unlink _ => ⟨{files}, {files}⟩
  | putObject .. | progress .. => ⊥

def ExportStmt.footprint : ExportStmt → Footprint AppPart
  | countGet .. | iterateForExport .. => ⟨{customers}, ∅⟩
  | openFile _ | writeFile .. => ⟨{files}, {files}⟩
  | progress .. => ⊥

def AppStmt.footprint : AppStmt → Footprint AppPart
  | auth op => op.footprint
  | customer op => op.footprint
  | «export» op => op.footprint
  | dispatch .. | record .. => ⟨{jobs}, {jobs}⟩
  | getStatus _ => ⟨{jobs}, ∅⟩
  | selectOne | storageWritable => ⊥

variable {E : AppEnv}

/-- A statement leaves the parts it does not write as they are. -/
theorem frame_exec (op : AppStmt) (now : Int) (db : AppDb) (x : AppPart)
    (hx : x ∉ op.footprint.writes) : view x (E.exec op now db).2 = view x db := by
  cases op with
  | auth op =>
    cases op with
    | createUser name email passwordHash type =>
      simp only [AppEnv.exec, AuthEnv.exec, UserModel.create]
      cases x <;> first | rfl | simp [AppStmt.footprint, AuthStmt.footprint] at hx
      all_goals split_ifs <;> rfl
    | createToken userId familyId tokenHash expiresAt userAgent ipAddress =>
      simp only [AppEnv.exec, AuthEnv.exec, RefreshTokenModel.create]
      cases x <;> first | rfl | simp [AppStmt.footprint, AuthStmt.footprint] at hx
      all_goals split_ifs <;> rfl
    | _ => cases x <;> first | rfl | simp [AppStmt.footprint, AuthStmt.footprint] at hx
  | customer op =>
    cases op <;> cases x <;>
      first | rfl | simp [AppStmt.footprint, CustomerStmt.footprint] at hx
  | «export» op =>
    cases op <;> cases x <;> first | rfl | simp [AppStmt.footprint, ExportStmt.footprint] at hx
  | _ => cases x <;> first | rfl | simp [AppStmt.footprint] at hx

/-- The reply of a statement and what it leaves of a part depend on the parts that it reads, and on
the part itself. -/
theorem reply_exec (op : AppStmt) (now : Int) (db db' : AppDb)
    (h : Agree view op.footprint.reads db db') : (E.exec op now db).1 = (E.exec op now db').1 := by
  obtain ⟨⟨user, token⟩, ⟨customer, redis, file⟩, job⟩ := db
  obtain ⟨⟨user', token'⟩, ⟨customer', redis', file'⟩, job'⟩ := db'
  cases op with
  | auth op =>
    cases op with
    | createUser name email passwordHash type =>
      obtain rfl : user = user' := h accounts (Finset.mem_singleton_self _)
      simp only [AppEnv.exec, AuthEnv.exec, UserModel.create]
      split_ifs <;> rfl
    | createToken userId familyId tokenHash expiresAt userAgent ipAddress =>
      obtain rfl : token = token' := h sessions (Finset.mem_singleton_self _)
      simp only [AppEnv.exec, AuthEnv.exec, RefreshTokenModel.create]
      split_ifs <;> rfl
    | buildToken claims => rfl
    | findUserById | findByEmail | existsByEmail | updateProfile | updatePassword
    | touchLastLogin =>
      obtain rfl : user = user' := h accounts (Finset.mem_singleton_self _)
      rfl
    | _ =>
      obtain rfl : token = token' := h sessions (Finset.mem_singleton_self _)
      rfl
  | customer op =>
    cases op with
    | putObject | progress => rfl
    | redisGet | redisSetex | redisIncr | redisDel =>
      obtain rfl : redis = redis' := h cache (Finset.mem_singleton_self _)
      rfl
    | isFile | readFile | moveTo | unlink =>
      obtain rfl : file = file' := h files (Finset.mem_singleton_self _)
      rfl
    | _ =>
      obtain rfl : customer = customer' := h customers (Finset.mem_singleton_self _)
      rfl
  | «export» op =>
    cases op with
    | countGet | iterateForExport =>
      obtain rfl : customer = customer' := h customers (Finset.mem_singleton_self _)
      rfl
    | _ => rfl
  | dispatch | record | getStatus =>
    obtain rfl : job = job' := h jobs (Finset.mem_singleton_self _)
    rfl
  | selectOne | storageWritable => rfl

/-- What a statement leaves of a part depends on nothing else than the part. -/
theorem effect_exec (op : AppStmt) (now : Int) (db db' : AppDb) (x : AppPart)
    (h : view x db = view x db') : view x (E.exec op now db).2 = view x (E.exec op now db').2 := by
  obtain ⟨⟨user, token⟩, ⟨customer, redis, file⟩, job⟩ := db
  obtain ⟨⟨user', token'⟩, ⟨customer', redis', file'⟩, job'⟩ := db'
  cases op with
  | auth op =>
    cases op with
    | createUser name email passwordHash type =>
      simp only [AppEnv.exec, AuthEnv.exec, UserModel.create]
      cases x <;> cases h <;> split_ifs <;> rfl
    | createToken userId familyId tokenHash expiresAt userAgent ipAddress =>
      simp only [AppEnv.exec, AuthEnv.exec, RefreshTokenModel.create]
      cases x <;> cases h <;> split_ifs <;> rfl
    | _ => cases x <;> cases h <;> rfl
  | customer op => cases op <;> cases x <;> cases h <;> rfl
  | «export» op => cases op <;> cases x <;> cases h <;> rfl
  | _ => cases x <;> cases h <;> rfl

theorem footprint_sound : Footprint.Sound view E.exec AppStmt.footprint where
  frame := frame_exec
  reply := reply_exec
  effect := fun op now db db' _ x => effect_exec op now db db' x

/-! ## Actions -/

/-- The access matrix of the controllers. -/
def Action.footprint : Action → Footprint AppPart
  | getStatus | getStatusAPI | openSwaggerUI | preflight | notFound => ⊥
  | liveness | readiness | detailed => ⊥
  | register | login => ⟨{accounts, sessions}, {accounts, sessions}⟩
  | refresh => ⟨{accounts, sessions}, {sessions}⟩
  | logout => ⟨{sessions}, {sessions}⟩
  | me => ⟨{accounts}, ∅⟩
  | updateProfile => ⟨{accounts}, {accounts}⟩
  | changePassword => ⟨{accounts, sessions}, {accounts, sessions}⟩
  | list | stats => ⟨{customers, cache}, {cache}⟩
  | «show» => ⟨{customers}, ∅⟩
  | download => ⟨{files, jobs}, ∅⟩
  | jobStatus => ⟨{jobs}, ∅⟩
  | «export» => ⟨{customers, jobs}, {jobs}⟩
  | «import» => ⟨{files, jobs}, {files, jobs}⟩
  | create | update => ⟨{customers, cache}, {customers, cache}⟩
  | delete | uploadAvatar | removeAvatar => ⟨{customers, cache, files}, {customers, cache, files}⟩

section Parts

variable {α β : Type} {c : Context} {F : Footprint AppPart}

theorem within_onAuth {p : AuthProg α} (h : Within AuthStmt.footprint F p) :
    Within AppStmt.footprint F (onAuth p) :=
  Footprint.within_translate h fun _ => rfl

theorem within_onCustomers {p : CustomerProg α} (h : Within CustomerStmt.footprint F p) :
    Within AppStmt.footprint F (onCustomers p) :=
  Footprint.within_translate h fun _ => rfl

theorem within_onExports {p : ExportProg α} (h : Within ExportStmt.footprint F p) :
    Within AppStmt.footprint F (onExports p) :=
  Footprint.within_translate h fun _ => rfl

end Parts

section Auth

variable {F : AuthEnv} {R : Entropy}

open AuthService

theorem within_createSession (user : UserRow) (userAgent ipAddress familyId : Option Bytes) :
    Within AuthStmt.footprint ⟨{sessions}, {sessions}⟩
      (createSession F R user userAgent ipAddress familyId) := by
  unfold createSession buildAccessToken
  simp only [Prog.time_bind, Prog.stmt_bind, Prog.only_clock, Prog.only_call_resume,
    Prog.pure_eq, Prog.only_ret]
  exact fun _ => ⟨of_decide_eq_true rfl, fun _ => ⟨of_decide_eq_true rfl, fun _ _ => trivial⟩⟩

theorem within_passwordHash {α : Type} {G : Footprint AppPart} {password : Bytes}
    {f : Bytes → AuthProg α} (h : ∀ hash, Within AuthStmt.footprint G (f hash)) :
    Within AuthStmt.footprint G (passwordHash F R password >>= f) := by
  unfold passwordHash
  cases F.passwordHash R.salt password with
  | none => trivial
  | some hash => exact h hash

theorem within_register (dto : RegisterRequest) (userAgent ipAddress : Option Bytes) :
    Within AuthStmt.footprint Action.register.footprint
      (register F R dto userAgent ipAddress) := by
  unfold register
  simp only [Prog.stmt_bind, Prog.only_call_resume]
  refine ⟨of_decide_eq_true rfl, fun taken => ?_⟩
  split_ifs
  · trivial
  · refine within_passwordHash fun hash => ?_
    simp only [Prog.only_call_resume]
    refine ⟨of_decide_eq_true rfl, fun userId => ⟨of_decide_eq_true rfl, fun user => ?_⟩⟩
    cases user with
    | none => trivial
    | some user => exact Footprint.within_of_le (within_createSession user _ _ _) (by decide)

theorem within_login (dto : LoginRequest) (userAgent ipAddress : Option Bytes) :
    Within AuthStmt.footprint Action.login.footprint (login F R dto userAgent ipAddress) := by
  unfold login
  simp only [Prog.stmt_bind, Prog.only_call_resume]
  refine ⟨of_decide_eq_true rfl, fun user => ?_⟩
  cases user with
  | none => trivial
  | some user =>
    simp only
    split_ifs
    · simp only [Prog.only_call_resume]
      exact ⟨of_decide_eq_true rfl, fun _ => ⟨of_decide_eq_true rfl, fun _ =>
        Footprint.within_of_le (within_createSession user _ _ _) (by decide)⟩⟩
    · trivial

theorem within_refresh (token : Bytes) (userAgent ipAddress : Option Bytes) :
    Within AuthStmt.footprint Action.refresh.footprint (refresh F R token userAgent ipAddress) := by
  unfold refresh
  simp only [Prog.stmt_bind, Prog.only_call_resume]
  refine ⟨of_decide_eq_true rfl, fun row => ?_⟩
  cases row with
  | none => trivial
  | some row =>
    simp only [Prog.time_bind]
    split_ifs
    · simp only [Prog.only_call_resume]
      exact ⟨of_decide_eq_true rfl, fun _ => trivial⟩
    · rw [Prog.only_clock]
      intro now
      split_ifs
      · simp only [Prog.only_call_resume]
        exact ⟨of_decide_eq_true rfl, fun _ => trivial⟩
      · unfold rotate
        simp only [Prog.stmt_bind, Prog.only_call_resume]
        refine ⟨of_decide_eq_true rfl, fun user => ?_⟩
        cases user with
        | none => trivial
        | some user =>
          simp only [rotateAs, Prog.stmt_bind, Prog.only_call_resume]
          exact ⟨of_decide_eq_true rfl, fun _ =>
            Footprint.within_of_le (within_createSession user _ _ _) (by decide)⟩

theorem within_logout (token : Bytes) :
    Within AuthStmt.footprint Action.logout.footprint (logout F token) := by
  unfold logout
  simp only [Prog.stmt_bind, Prog.only_call_resume]
  refine ⟨of_decide_eq_true rfl, fun row => ?_⟩
  cases row with
  | none => trivial
  | some row => exact Prog.only_call_resume.mpr ⟨of_decide_eq_true rfl, fun _ => trivial⟩

theorem within_user (id : ℕ) : Within AuthStmt.footprint Action.me.footprint (user id) := by
  unfold user
  simp only [Prog.stmt_bind, Prog.only_call_resume]
  refine ⟨of_decide_eq_true rfl, fun user => ?_⟩
  cases user <;> trivial

theorem within_updateProfile (id : ℕ) (name : Bytes) :
    Within AuthStmt.footprint Action.updateProfile.footprint (updateProfile id name) := by
  unfold updateProfile
  simp only [Prog.stmt_bind, Prog.only_call_resume]
  refine ⟨of_decide_eq_true rfl, fun found => ?_⟩
  cases found with
  | none => trivial
  | some found =>
    exact Prog.only_call_resume.mpr ⟨of_decide_eq_true rfl, fun _ =>
      Footprint.within_of_le (within_user id) (by decide)⟩

theorem within_revokeOthers (id : ℕ) (keepFamily : Option Bytes) :
    Within AuthStmt.footprint ⟨{sessions}, {sessions}⟩ (revokeOthers id keepFamily) := by
  unfold revokeOthers
  cases keepFamily <;>
    exact Footprint.within_bind (Footprint.within_stmt (of_decide_eq_true rfl)) fun _ => trivial

theorem within_changePassword (id : ℕ) (dto : ChangePasswordRequest)
    (currentRefreshToken : Option Bytes) :
    Within AuthStmt.footprint Action.changePassword.footprint
      (changePassword F R id dto currentRefreshToken) := by
  have hothers : ∀ keepFamily, Within AuthStmt.footprint Action.changePassword.footprint
      (revokeOthers id keepFamily) :=
    fun keepFamily => Footprint.within_of_le (within_revokeOthers id keepFamily) (by decide)
  unfold changePassword
  simp only [Prog.stmt_bind, Prog.only_call_resume]
  refine ⟨of_decide_eq_true rfl, fun user => ?_⟩
  cases user with
  | none => trivial
  | some user =>
    simp only
    split_ifs
    · refine within_passwordHash fun hash =>
        Prog.only_call_resume.mpr ⟨of_decide_eq_true rfl, fun _ => ?_⟩
      cases currentRefreshToken with
      | none => exact hothers none
      | some token => exact Prog.only_call_resume.mpr ⟨of_decide_eq_true rfl, fun row => hothers _⟩
    · trivial

end Auth

section Customers

variable {F : CustomerEnv} {R : CustomerEntropy}

open CustomerService

/-- Customers and their cache, for the calls that store no file. -/
def recordParts : Footprint AppPart := ⟨{customers, cache}, {customers, cache}⟩

theorem within_get (id : ℕ) :
    Within CustomerStmt.footprint Action.show.footprint (CustomerService.get F id) := by
  refine Footprint.within_bind (Footprint.within_stmt (of_decide_eq_true rfl)) fun customer => ?_
  cases customer <;> trivial

theorem within_bump_get (id : ℕ) : Within CustomerStmt.footprint recordParts
    (bump F >>= fun _ => CustomerService.get F id) := by
  refine Footprint.within_bind ?_ fun _ => Footprint.within_of_le (within_get id) (by decide)
  rw [bump_eq]
  split_ifs
  · exact ⟨of_decide_eq_true rfl, fun _ => trivial⟩
  · trivial

theorem within_assertUnique (name : Bytes) (email : Option Bytes) (exceptId : Option ℕ) :
    Within CustomerStmt.footprint recordParts (assertUnique name email exceptId) := by
  have hend : ∀ nameTaken emailTaken, Within CustomerStmt.footprint recordParts
      (if uniqueErrors nameTaken emailTaken = [] then pure () else
        .throw (.validation "Validation failed." (uniqueErrors nameTaken emailTaken)) :
          CustomerProg Unit) := by
    intro nameTaken emailTaken
    split_ifs <;> trivial
  refine Footprint.within_bind (Footprint.within_stmt (of_decide_eq_true rfl)) fun nameTaken => ?_
  cases email with
  | none => exact hend nameTaken false
  | some email =>
    exact Footprint.within_bind (Footprint.within_stmt (of_decide_eq_true rfl)) (hend nameTaken)

theorem within_create (dto : CustomerData) :
    Within CustomerStmt.footprint recordParts (CustomerService.create F dto) :=
  Footprint.within_bind (within_assertUnique _ _ _) fun _ =>
    Footprint.within_bind (Footprint.within_stmt (of_decide_eq_true rfl)) within_bump_get

theorem within_update (id : ℕ) (payload : CustomerData) :
    Within CustomerStmt.footprint recordParts (CustomerService.update F id payload) := by
  refine Footprint.within_bind (Footprint.within_stmt (of_decide_eq_true rfl)) fun found => ?_
  cases found with
  | false => trivial
  | true =>
    exact Footprint.within_bind (within_assertUnique _ _ _) fun _ =>
      Footprint.within_bind (Footprint.within_stmt (of_decide_eq_true rfl)) fun _ =>
        within_bump_get id

/-- Whatever goes through the cache reads it, and the customers where it has no answer. -/
theorem within_cached {entity discriminator : Bytes} {ttl : Int} {producer : CustomerProg Cached}
    (h : Prog.Only (fun op => op.reads = true) (fun _ => True) producer) :
    Within CustomerStmt.footprint Action.list.footprint (do
      let (cacheKey, redis) ← CacheRedis.namespaced F CacheRedis.fresh cacheNamespace entity
        discriminator
      let (result, _) ← CacheRedis.rememberJson F R redis cacheKey ttl producer
      pure result) := by
  refine only_cached (fun op hop => ?_) (h.imp fun op hop => ?_) <;>
    cases op <;> first | exact of_decide_eq_true rfl | cases hop

/-- The avatars are files. -/
theorem within_avatars {α : Type} (p : CustomerProg α) :
    Within CustomerStmt.footprint Action.delete.footprint p :=
  Footprint.within_any (fun op => by cases op <;> exact of_decide_eq_true rfl) p

end Customers

section Transfers

theorem within_requestExport (dto : CustomerExportRequest) (userId : ℕ) :
    Within AppStmt.footprint Action.export.footprint
      (CustomerTransferService.requestExport dto userId) := by
  unfold CustomerTransferService.requestExport
  simp only [Prog.stmt_bind, Prog.only_call_resume]
  refine ⟨of_decide_eq_true rfl, fun total => ?_⟩
  split_ifs
  · trivial
  · exact Prog.only_call_resume.mpr ⟨of_decide_eq_true rfl, fun _ => trivial⟩

end Transfers

theorem Action.uses_within (action : Action) (c : Context) :
    action.Uses E c fun _ p => Within AppStmt.footprint action.footprint p := by
  have hperform : ∀ {op : AppStmt} {F : Footprint AppPart}, op.footprint ≤ F →
      Within AppStmt.footprint F (perform op) := fun h => Footprint.within_stmt h
  cases action with
  | register => exact fun _ _ _ => within_onAuth (within_register _ _ _)
  | login => exact fun _ _ _ => within_onAuth (within_login _ _ _)
  | refresh => exact fun _ _ _ => within_onAuth (within_refresh _ _ _)
  | logout => exact fun _ => within_onAuth (within_logout _)
  | me => exact fun _ => within_onAuth (within_user _)
  | updateProfile => exact fun _ _ => within_onAuth (within_updateProfile _ _)
  | changePassword => exact fun _ _ _ => within_onAuth (within_changePassword _ _ _)
  | list => exact fun _ _ _ _ => within_onCustomers (within_cached (only_loadList _ _ _ _))
  | stats => exact within_onCustomers (within_cached only_loadStats)
  | «show» => exact fun _ => within_onCustomers (within_get _)
  | create => exact fun _ => within_onCustomers (within_create _)
  | update => exact fun _ _ => within_onCustomers (within_update _ _)
  | delete | removeAvatar => exact fun _ => within_onCustomers (within_avatars _)
  | uploadAvatar => exact fun _ _ => within_onCustomers (within_avatars _)
  | «export» => exact within_requestExport
  | «import» =>
    refine ⟨fun file => within_onCustomers ?_, fun _ => hperform (of_decide_eq_true rfl),
      fun _ => hperform (of_decide_eq_true rfl)⟩
    unfold UploadHelper.store
    simp only [Prog.stmt_bind]
    split_ifs <;> exact Prog.only_call_resume.mpr ⟨of_decide_eq_true rfl, fun _ => trivial⟩
  | download =>
    exact ⟨fun _ => hperform (of_decide_eq_true rfl), fun _ => hperform (of_decide_eq_true rfl),
      fun _ => hperform (of_decide_eq_true rfl)⟩
  | jobStatus => exact fun _ => hperform (of_decide_eq_true rfl)
  | readiness => exact hperform (of_decide_eq_true rfl)
  | detailed => exact ⟨hperform (of_decide_eq_true rfl), hperform (of_decide_eq_true rfl)⟩
  | getStatus | getStatusAPI | openSwaggerUI | preflight | notFound | liveness => trivial

/-- Whatever the replies, an action keeps to its footprint. -/
theorem Action.within (action : Action) (c : Context) :
    Within AppStmt.footprint action.footprint (action.run E c) :=
  Action.run_of (Prog.composed_only _) (action.uses_within c)

end SlimStarter
