import SlimStarter.Auth.Service

/-!
# What each session operation does alone

The run of an operation on its own, in closed form: the look-ups it branches on, the updates it
leaves, and what it returns or throws. Later modules read the operations through these lemmas.

The updates of `refresh_token` only ever set `revoked_at` (`revokeWhere`) or add a row
(`createToken`); no operation touches `deleted_at` of an account, so an account that was found
stays to be found.
-/

namespace SlimStarter

open Prog (run_bind run_map)

variable (E : AuthEnv) (R : Entropy) (now : Int) (db : AuthDb)

/-! ## The tables after an update -/

namespace RefreshTokenModel

variable {db} {i : LocalTime} {p : RefreshTokenRow → Bool}

/-- A row after `revokeWhere`. -/
def revoked (i : LocalTime) (p : RefreshTokenRow → Bool) (r : RefreshTokenRow) : RefreshTokenRow :=
  if p r && r.revokedAt.isNone then { r with revokedAt := some i } else r

@[simp] theorem revokeWhere_rows :
    (revokeWhere i db p).2.refreshToken.rows = db.refreshToken.rows.map (revoked i p) := rfl

@[simp] theorem revokeWhere_user : (revokeWhere i db p).2.user = db.user := rfl

@[simp] theorem revokeWhere_autoIncrement :
    (revokeWhere i db p).2.refreshToken.autoIncrement = db.refreshToken.autoIncrement := rfl

@[simp] theorem revoked_id (r : RefreshTokenRow) : (revoked i p r).id = r.id := by
  unfold revoked; split_ifs <;> rfl

@[simp] theorem revoked_userId (r : RefreshTokenRow) : (revoked i p r).userId = r.userId := by
  unfold revoked; split_ifs <;> rfl

@[simp] theorem revoked_familyId (r : RefreshTokenRow) :
    (revoked i p r).familyId = r.familyId := by
  unfold revoked; split_ifs <;> rfl

@[simp] theorem revoked_tokenHash (r : RefreshTokenRow) :
    (revoked i p r).tokenHash = r.tokenHash := by
  unfold revoked; split_ifs <;> rfl

@[simp] theorem revoked_expiresAt (r : RefreshTokenRow) :
    (revoked i p r).expiresAt = r.expiresAt := by
  unfold revoked; split_ifs <;> rfl

/-- A row is unrevoked after the update when it was before and the condition spared it. -/
theorem revoked_eq_none {r : RefreshTokenRow} :
    (revoked i p r).revokedAt = none ↔ r.revokedAt = none ∧ p r = false := by
  unfold revoked
  cases hp : p r <;> cases hr : r.revokedAt <;> simp [hr]

theorem revoked_of_spared {r : RefreshTokenRow} (hp : p r = false) : revoked i p r = r := by
  simp [revoked, hp]

theorem findByHash_mem {h : Bytes} {r : RefreshTokenRow} (hf : findByHash db h = some r) :
    r ∈ db.refreshToken.rows ∧ r.tokenHash = h := by
  simpa using Table.first_mem hf

theorem findByHash_eq_none {h : Bytes} :
    findByHash db h = none ↔ ∀ r ∈ db.refreshToken.rows, r.tokenHash ≠ h := by
  simp [findByHash, Table.first_eq_none]

theorem create_of_new {hash : Bytes} (h : ∀ r ∈ db.refreshToken.rows, r.tokenHash ≠ hash)
    (userId : ℕ) (familyId : Bytes) (expiresAt : LocalTime) (userAgent ipAddress : Option Bytes) :
    create i db userId familyId hash expiresAt userAgent ipAddress =
      (.ok db.refreshToken.autoIncrement, { db with
        refreshToken := db.refreshToken.insert fun id => ⟨id, userId, familyId, hash, expiresAt,
          none, userAgent.map (·.take 255), ipAddress, i⟩ }) :=
  if_neg (Table.not_affected_pos.mpr fun r hr => decide_eq_false (h r hr))

end RefreshTokenModel

namespace UserModel

variable {db}

theorem findById_id {id : ℕ} {u : UserRow} (h : findById db id = some u) : u.id = id := by
  have := (Table.first_mem h).2
  simp only [Bool.and_eq_true, decide_eq_true_eq] at this
  exact this.1

theorem findById_isSome {id : ℕ} : (findById db id).isSome ↔
    ∃ u ∈ db.user.rows, u.id = id ∧ u.deletedAt = none := by
  simp [findById, Table.first_isSome]

theorem findByEmail_live {eq : Bytes → Bytes → Bool} {email : Bytes} {u : UserRow}
    (h : findByEmail eq db email = some u) : (findById db u.id).isSome := by
  obtain ⟨hu, hp⟩ := Table.first_mem h
  simp only [Bool.and_eq_true, Option.isNone_iff_eq_none] at hp
  exact findById_isSome.mpr ⟨u, hu, rfl, hp.2⟩

theorem sqlEq_of_existsByEmail {eq : Bytes → Bytes → Bool} {email : Bytes}
    (h : existsByEmail eq db email = false) :
    ∀ r ∈ db.user.rows, r.deletedAt = none → eq r.email email = false := by
  intro r hr hlive
  have hnot := Table.not_affected_pos.mp (of_decide_eq_false h) r hr
  simpa [hlive] using hnot

theorem create_of_free {eq : Bytes → Bytes → Bool} {email : Bytes}
    (h : ∀ r ∈ db.user.rows, eq r.email email = false) (now : LocalTime) (name hash type : Bytes) :
    create eq now db name email hash type =
      (.ok db.user.autoIncrement, { db with user := db.user.insert fun id =>
        ⟨id, name, email, hash, type, none, now, some now, none⟩ }) :=
  if_neg (Table.not_affected_pos.mpr h)

theorem updateById_isSome {id id' : ℕ} {f : UserRow → UserRow} (hid : ∀ r, (f r).id = r.id)
    (hdel : ∀ r, (f r).deletedAt = r.deletedAt) (h : (findById db id').isSome) :
    (findById (updateById db id f).2 id').isSome := by
  obtain ⟨u, hu, h₁, h₂⟩ := findById_isSome.mp h
  refine findById_isSome.mpr ⟨_, Table.mem_update_of_mem hu, ?_, ?_⟩ <;> split_ifs <;> simp [*]

end UserModel

/-! ## The operations -/

namespace AuthService

open RefreshTokenModel

/-- The row `createSession` adds for a new token. -/
@[simps]
def tokenRow (user : UserRow) (userAgent ipAddress familyId : Option Bytes) (id : ℕ) :
    RefreshTokenRow where
  id := id
  userId := user.id
  familyId := familyId.getD R.family
  tokenHash := E.sha256 R.token
  expiresAt := E.zone.date (now + ttlSeconds E.ttlDays)
  revokedAt := none
  userAgent := userAgent.map (·.take 255)
  ipAddress := ipAddress
  createdAt := E.zone.date now

/-- The session `createSession` returns. -/
def sessionFor (user : UserRow) : Session where
  accessToken := E.buildToken ⟨user.id, user.email, user.name, user.type⟩ now
  tokenType := "Bearer"
  expiresIn := accessTokenLifetime E now
  refreshToken := R.token
  user := toPublicArray user

@[simp] theorem sessionFor_refreshToken (user : UserRow) :
    (sessionFor E R now user).refreshToken = R.token := rfl

@[simp] theorem sessionFor_user_id (user : UserRow) :
    (sessionFor E R now user).user.id = user.id := rfl

variable (user : UserRow) (userAgent ipAddress familyId : Option Bytes)

/-- A session is created unless the hash of the new token is stored already. -/
theorem createSession_run :
    (createSession E R user userAgent ipAddress familyId).run E.exec now db =
      if ∃ r ∈ db.refreshToken.rows, r.tokenHash = E.sha256 R.token then (.error .database, db)
      else (.ok (sessionFor E R now user), { db with
        refreshToken := db.refreshToken.insert
          (tokenRow E R now user userAgent ipAddress familyId) }) := by
  have hpos : (0 < db.refreshToken.affected (·.tokenHash = E.sha256 R.token)) ↔
      ∃ r ∈ db.refreshToken.rows, r.tokenHash = E.sha256 R.token := by
    simp [Table.affected_pos]
  simp only [createSession, buildAccessToken, Prog.time_bind, Prog.stmt_bind, Prog.run_clock,
    Prog.run_call, AuthEnv.exec, RefreshTokenModel.create, hpos]
  split_ifs <;> rfl

theorem refresh_run (token : Bytes) :
    (refresh E R token userAgent ipAddress).run E.exec now db =
      match findByHash db (E.sha256 token) with
      | none => (.error (.appException "Session is invalid or has expired."
          HttpStatus.unauthorized), db)
      | some row =>
        if row.revokedAt.isSome then
          (.error (.appException "Session is no longer valid. Please sign in again."
            HttpStatus.unauthorized), (revokeFamily (E.zone.date now) db row.familyId).2)
        else if isExpired (E.zone.strtotime row.expiresAt) now then
          (.error (.appException "Session has expired. Please sign in again."
            HttpStatus.unauthorized), (revoke (E.zone.date now) db row.id).2)
        else
          match UserModel.findById db row.userId with
          | none => (.error (.appException "The account is no longer available."
              HttpStatus.unauthorized), db)
          | some user => (createSession E R user userAgent ipAddress (some row.familyId)).run
              E.exec now (revoke (E.zone.date now) db row.id).2 := by
  simp only [refresh, Prog.stmt_bind, Prog.run_call, AuthEnv.exec, Prog.resume_ok]
  cases findByHash db (E.sha256 token) with
  | none => rfl
  | some row =>
    simp only
    split_ifs with hrevoked hexpired
    · rfl
    · simp only [Prog.time_bind, Prog.run_clock]
      rw [if_pos hexpired]
      rfl
    · simp only [Prog.time_bind, Prog.run_clock]
      rw [if_neg hexpired]
      simp only [rotate, Prog.stmt_bind, Prog.run_call, AuthEnv.exec, Prog.resume_ok]
      cases UserModel.findById db row.userId <;> rfl

theorem logout_run (token : Bytes) :
    (logout E token).run E.exec now db =
      match findByHash db (E.sha256 token) with
      | none => (.ok (), db)
      | some row => (.ok (), (revokeFamily (E.zone.date now) db row.familyId).2) := by
  simp only [logout, Prog.stmt_bind, Prog.run_call, AuthEnv.exec, Prog.resume_ok]
  cases findByHash db (E.sha256 token) <;> rfl

theorem login_run (dto : LoginRequest) :
    (login E R dto userAgent ipAddress).run E.exec now db =
      match UserModel.findByEmail E.sqlEq db dto.email with
      | none => (.error (.appException "Invalid email or password." HttpStatus.unauthorized), db)
      | some user =>
        if E.passwordVerify dto.password user.passwordHash then
          (createSession E R user userAgent ipAddress none).run E.exec now
            (revokeExpiredForUser (E.zone.date now)
              (UserModel.touchLastLogin (E.zone.date now) db user.id).2 user.id).2
        else
          (.error (.appException "Invalid email or password." HttpStatus.unauthorized), db) := by
  simp only [login, Prog.stmt_bind, Prog.run_call, AuthEnv.exec, Prog.resume_ok]
  cases UserModel.findByEmail E.sqlEq db dto.email with
  | none => rfl
  | some user =>
    simp only
    split_ifs <;> rfl

theorem register_run (dto : RegisterRequest) :
    (register E R dto userAgent ipAddress).run E.exec now db =
      if UserModel.existsByEmail E.sqlEq db dto.email then
        (.error (.validation "Email is already registered."
          [("email", "Email is already registered.")]), db)
      else
        match E.passwordHash R.salt dto.password with
        | none => (.error .valueError, db)
        | some hash =>
          match UserModel.create E.sqlEq (E.zone.date now) db dto.name dto.email hash
              UserType.staff with
          | (.error e, db') => (.error e, db')
          | (.ok userId, db') =>
            match UserModel.findById db' userId with
            | none => (.error (.appException "The account could not be created."
                HttpStatus.internalServerError), db')
            | some user =>
              (createSession E R user userAgent ipAddress none).run E.exec now db' := by
  simp only [register, passwordHash, Prog.stmt_bind, Prog.run_call, AuthEnv.exec, Prog.resume_ok]
  split_ifs
  · rfl
  · cases E.passwordHash R.salt dto.password with
    | none => rfl
    | some hash =>
      simp only [Prog.pure_eq, Prog.ret_bind, Prog.run_call, AuthEnv.exec]
      rcases UserModel.create E.sqlEq (E.zone.date now) db dto.name dto.email hash
        UserType.staff with ⟨_ | userId, db'⟩
      · rfl
      · simp only [Prog.resume_ok, Prog.run_call, AuthEnv.exec]
        cases UserModel.findById db' userId <;> rfl

theorem user_run (id : ℕ) :
    (AuthService.user id).run E.exec now db =
      match UserModel.findById db id with
      | none => (.error (.appException "The account is no longer available."
          HttpStatus.unauthorized), db)
      | some user => (.ok (toPublicArray user), db) := by
  simp only [AuthService.user, Prog.stmt_bind, Prog.run_call, AuthEnv.exec, Prog.resume_ok]
  cases UserModel.findById db id <;> rfl

theorem updateProfile_run (id : ℕ) (name : Bytes) :
    (updateProfile id name).run E.exec now db =
      match UserModel.findById db id with
      | none => (.error (.notFoundException "User not found."), db)
      | some _ => (AuthService.user id).run E.exec now
          (UserModel.updateProfile (E.zone.date now) db id name).2 := by
  simp only [updateProfile, Prog.stmt_bind, Prog.run_call, AuthEnv.exec, Prog.resume_ok]
  cases UserModel.findById db id <;> rfl

/-- The family a password change keeps: the one of the row the presented token hashes to. -/
def keepFamily (db : AuthDb) (currentRefreshToken : Option Bytes) : Option Bytes :=
  currentRefreshToken.bind fun token => (findByHash db (E.sha256 token)).map (·.familyId)

/-- The rows a password change revokes. -/
def revokesOther (id : ℕ) (kept : Option Bytes) (r : RefreshTokenRow) : Bool :=
  r.userId = id && some r.familyId ≠ kept

theorem revokesOther_eq_false {id : ℕ} {kept : Option Bytes} {r : RefreshTokenRow} :
    revokesOther id kept r = false ↔ (r.userId = id → some r.familyId = kept) := by
  simp [revokesOther]

@[simp] theorem revokesOther_none (id : ℕ) :
    revokesOther id none = fun r => decide (r.userId = id) := by
  funext r
  simp [revokesOther]

@[simp] theorem revokesOther_some (id : ℕ) (familyId : Bytes) :
    revokesOther id (some familyId) =
      fun r => decide (r.userId = id) && decide (r.familyId ≠ familyId) := by
  funext r
  simp [revokesOther]

theorem changePassword_run (id : ℕ) (dto : ChangePasswordRequest)
    (currentRefreshToken : Option Bytes) :
    (changePassword E R id dto currentRefreshToken).run E.exec now db =
      match UserModel.findById db id with
      | none => (.error (.validation "Current password is incorrect."
          [("current_password", "Current password is incorrect.")]), db)
      | some user =>
        if E.passwordVerify dto.currentPassword user.passwordHash then
          match E.passwordHash R.salt dto.newPassword with
          | none => (.error .valueError, db)
          | some hash => (.ok (), (revokeWhere (E.zone.date now)
              (UserModel.updatePassword (E.zone.date now) db id hash).2
              (revokesOther id (keepFamily E db currentRefreshToken))).2)
        else (.error (.validation "Current password is incorrect."
          [("current_password", "Current password is incorrect.")]), db) := by
  simp only [changePassword, passwordHash, Prog.stmt_bind, Prog.run_call, AuthEnv.exec,
    Prog.resume_ok]
  cases UserModel.findById db id with
  | none => rfl
  | some user =>
    simp only
    split_ifs
    · cases E.passwordHash R.salt dto.newPassword with
      | none => rfl
      | some hash =>
        simp only [Prog.pure_eq, Prog.ret_bind, Prog.run_call, AuthEnv.exec, updated,
          Prog.resume_ok]
        cases currentRefreshToken with
        | none =>
          simp only [keepFamily, Option.bind_none, revokesOther_none]
          rfl
        | some token =>
          simp only [keepFamily, Option.bind_some, Prog.run_call, AuthEnv.exec, Prog.resume_ok]
          change
            Prog.run E.exec now (revokeOthers id ((findByHash db (E.sha256 token)).map _)) _ = _
          cases findByHash db (E.sha256 token) with
          | none =>
            simp only [Option.map_none, revokesOther_none]
            rfl
          | some row =>
            simp only [Option.map_some, revokesOther_some]
            rfl
    · rfl

end AuthService

end SlimStarter
