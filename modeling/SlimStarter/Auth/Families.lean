import SlimStarter.Auth.History

/-!
# Session families

`Effect` says once what a call can do to the `refresh_token` table (`exec_effect`): leave it, revoke
some of its rows, or add the row of a new token. From it, `Orderly` holds after every run
(`orderly_course`): a family belongs to one account, and only its newest row can be unrevoked.

A password change keeps the family of the presented token, whatever has become of that token
(`changePassword_keeps`); so a session that was rotated past it stays.
-/

namespace SlimStarter

open AuthService RefreshTokenModel

/-- Every account that can be found before can be found after. -/
def KeepsUsers (db db' : AuthDb) : Prop :=
  ∀ id, (UserModel.findById db id).isSome → (UserModel.findById db' id).isSome

/-- What a call can do to the sessions: its result `res` and the tables `db'` after it. -/
inductive AuthEvent.Effect (E : AuthEnv) (ev : AuthEvent) (db : AuthDb)
    (res : Except Failure AuthResult) (db' : AuthDb) : Prop
  | quiet (hcall : ∀ token ua ip, ev.call ≠ .refresh token ua ip)
      (hfacts : ∀ H, ev.facts H res = []) (htab : db'.refreshToken = db.refreshToken)
  | unknown (token ua ip e) (hcall : ev.call = .refresh token ua ip) (hres : res = .error e)
      (hrow : findByHash db (E.sha256 token) = none) (htab : db'.refreshToken = db.refreshToken)
  | orphaned (token ua ip e) (row) (hcall : ev.call = .refresh token ua ip) (hres : res = .error e)
      (hrow : findByHash db (E.sha256 token) = some row)
      (huser : UserModel.findById db row.userId = none)
      (htab : db'.refreshToken = db.refreshToken)
  | reused (token ua ip e) (row) (hcall : ev.call = .refresh token ua ip) (hres : res = .error e)
      (hrow : findByHash db (E.sha256 token) = some row) (hrevoked : row.revokedAt ≠ none)
      (htab : db'.refreshToken =
        (revokeFamily (E.zone.date ev.now) db row.familyId).2.refreshToken)
  | expired (token ua ip e) (row) (hcall : ev.call = .refresh token ua ip) (hres : res = .error e)
      (hrow : findByHash db (E.sha256 token) = some row) (hlive : row.revokedAt = none)
      (hnow : isExpired (E.zone.strtotime row.expiresAt) ev.now = true)
      (htab : db'.refreshToken = (revoke (E.zone.date ev.now) db row.id).2.refreshToken)
  | clashed (token ua ip e) (row) (hcall : ev.call = .refresh token ua ip) (hres : res = .error e)
      (hrow : findByHash db (E.sha256 token) = some row) (hlive : row.revokedAt = none)
      (hold : ∃ r ∈ db.refreshToken.rows, r.tokenHash = E.sha256 ev.entropy.token)
      (htab : db'.refreshToken = (revoke (E.zone.date ev.now) db row.id).2.refreshToken)
  | rotated (token ua ip) (row) (user) (hcall : ev.call = .refresh token ua ip)
      (hres : res = .ok (.session (sessionFor E ev.entropy ev.now user)))
      (hrow : findByHash db (E.sha256 token) = some row) (hlive : row.revokedAt = none)
      (hnow : isExpired (E.zone.strtotime row.expiresAt) ev.now = false)
      (huser : user.id = row.userId)
      (hnew : ∀ r ∈ db.refreshToken.rows, r.tokenHash ≠ E.sha256 ev.entropy.token)
      (htab : db'.refreshToken = (revoke (E.zone.date ev.now) db row.id).2.refreshToken.insert
        (tokenRow E ev.entropy ev.now user ua ip (some row.familyId)))
  | opened (p) (user) (ua ip) (hcall : ∀ token ua ip, ev.call ≠ .refresh token ua ip)
      (hres : res = .ok (.session (sessionFor E ev.entropy ev.now user)))
      (hp : ∀ r, p r = true → r.expiresAt < E.zone.date ev.now)
      (huser : (UserModel.findById db' user.id).isSome)
      (hnew : ∀ r ∈ db.refreshToken.rows, r.tokenHash ≠ E.sha256 ev.entropy.token)
      (htab : db'.refreshToken = (revokeWhere (E.zone.date ev.now) db p).2.refreshToken.insert
        (tokenRow E ev.entropy ev.now user ua ip none))
  | unopened (p) (e) (hcall : ∀ token ua ip, ev.call ≠ .refresh token ua ip) (hres : res = .error e)
      (hp : ∀ r, p r = true → r.expiresAt < E.zone.date ev.now)
      (htab : db'.refreshToken = (revokeWhere (E.zone.date ev.now) db p).2.refreshToken)
  | loggedOut (token) (row) (hcall : ev.call = .logout token) (hres : res = .ok .void)
      (hrow : findByHash db (E.sha256 token) = some row)
      (htab : db'.refreshToken =
        (revokeFamily (E.zone.date ev.now) db row.familyId).2.refreshToken)
  | loggedOutUnknown (token) (hcall : ev.call = .logout token) (hres : res = .ok .void)
      (hrow : findByHash db (E.sha256 token) = none) (htab : db'.refreshToken = db.refreshToken)
  | changed (id dto token) (hcall : ev.call = .changePassword id dto token) (hres : res = .ok .void)
      (htab : db'.refreshToken = (revokeWhere (E.zone.date ev.now) db
        (revokesOther id (keepFamily E db token))).2.refreshToken)

section Effect

variable {E : AuthEnv} {db db' : AuthDb} {res : Except Failure AuthResult} {now : Int} {R : Entropy}

theorem KeepsUsers.refl : KeepsUsers db db := fun _ h => h

theorem KeepsUsers.of_user_eq (h : db'.user = db.user) : KeepsUsers db db' := by
  intro id hid
  simpa only [UserModel.findById, h] using hid

theorem keepsUsers_updateById {id : ℕ} {f : UserRow → UserRow} (hid : ∀ r, (f r).id = r.id)
    (hdel : ∀ r, (f r).deletedAt = r.deletedAt) :
    KeepsUsers db (UserModel.updateById db id f).2 :=
  fun _ h => UserModel.updateById_isSome hid hdel h

theorem userCreate_cases (eq : Bytes → Bytes → Bool) (i : LocalTime) (db : AuthDb)
    (name email hash type : Bytes) :
    (UserModel.create eq i db name email hash type).2.refreshToken = db.refreshToken
      ∧ KeepsUsers db (UserModel.create eq i db name email hash type).2 := by
  unfold UserModel.create
  split_ifs
  · exact ⟨rfl, .refl⟩
  · refine ⟨rfl, fun id hid => ?_⟩
    obtain ⟨u, hu, hp⟩ := UserModel.findById_isSome.mp hid
    exact UserModel.findById_isSome.mpr ⟨u, by simp [hu], hp⟩

theorem revokeWhere_false {i : LocalTime} :
    (revokeWhere i db fun _ => false).2.refreshToken = db.refreshToken := by
  simp [revokeWhere, Table.update]

theorem exists_revokeWhere {i : LocalTime} {p : RefreshTokenRow → Bool} {hash : Bytes} :
    (∃ r ∈ (revokeWhere i db p).2.refreshToken.rows, r.tokenHash = hash) ↔
      ∃ r ∈ db.refreshToken.rows, r.tokenHash = hash := by
  simp

theorem register_effect {r} {dto : RegisterRequest} {ua ip : Option Bytes}
    (h : (register E R dto ua ip).run E.exec now db = (r, db')) :
    AuthEvent.Effect E ⟨.register dto ua ip, now, R⟩ db (r.map .session) db'
      ∧ KeepsUsers db db' := by
  rw [register_run] at h
  split_ifs at h with htaken
  · obtain ⟨rfl, rfl⟩ := Prod.mk.inj h
    exact ⟨.quiet (by simp) (fun _ => rfl) rfl, .refl⟩
  split at h
  · obtain ⟨rfl, rfl⟩ := Prod.mk.inj h
    exact ⟨.quiet (by simp) (fun _ => rfl) rfl, .refl⟩
  rename_i hash _
  have hcases :=
    userCreate_cases E.sqlEq (E.zone.date now) db dto.name dto.email hash UserType.staff
  split at h
  · obtain ⟨rfl, rfl⟩ := Prod.mk.inj h
    rename_i heq
    rw [heq] at hcases
    exact ⟨.quiet (by simp) (fun _ => rfl) hcases.1, hcases.2⟩
  rename_i id db₁ heq
  rw [heq] at hcases
  obtain ⟨htok, hkeep⟩ : db₁.refreshToken = db.refreshToken ∧ KeepsUsers db db₁ := hcases
  split at h
  · obtain ⟨rfl, rfl⟩ := Prod.mk.inj h
    exact ⟨.quiet (by simp) (fun _ => rfl) htok, hkeep⟩
  rename_i user huser
  rw [createSession_run] at h
  split_ifs at h with hold <;> obtain ⟨rfl, rfl⟩ := Prod.mk.inj h
  · exact ⟨.quiet (by simp) (fun _ => rfl) htok, hkeep⟩
  · refine ⟨.opened (fun _ => false) user ua ip (by simp) rfl (by simp) ?_ ?_ ?_, hkeep⟩
    · rw [UserModel.findById_id huser]
      exact (Option.isSome_iff_exists.mpr ⟨user, huser⟩ :)
    · rw [htok] at hold
      simpa using hold
    · rw [revokeWhere_false, ← htok]

theorem login_effect {r} {dto : LoginRequest} {ua ip : Option Bytes}
    (h : (login E R dto ua ip).run E.exec now db = (r, db')) :
    AuthEvent.Effect E ⟨.login dto ua ip, now, R⟩ db (r.map .session) db' ∧ KeepsUsers db db' := by
  rw [login_run] at h
  split at h
  · obtain ⟨rfl, rfl⟩ := Prod.mk.inj h
    exact ⟨.quiet (by simp) (fun _ => rfl) rfl, .refl⟩
  rename_i user huser
  have hkeep : KeepsUsers db (UserModel.touchLastLogin (E.zone.date now) db user.id).2 :=
    keepsUsers_updateById (fun _ => rfl) fun _ => rfl
  split_ifs at h with hverify
  · rw [createSession_run] at h
    split_ifs at h with hold <;> obtain ⟨rfl, rfl⟩ := Prod.mk.inj h
    · refine ⟨.unopened (fun r => r.userId = user.id && r.expiresAt < E.zone.date now) .database
        (by simp) rfl (by simp) rfl, hkeep⟩
    · refine ⟨.opened (fun r => r.userId = user.id && r.expiresAt < E.zone.date now) user ua ip
        (by simp) rfl (by simp) (hkeep _ (UserModel.findByEmail_live huser)) ?_ rfl, hkeep⟩
      simpa [UserModel.touchLastLogin, UserModel.updateById] using exists_revokeWhere.not.mp hold
  · obtain ⟨rfl, rfl⟩ := Prod.mk.inj h
    exact ⟨.quiet (by simp) (fun _ => rfl) rfl, .refl⟩

theorem refresh_effect {r} {token : Bytes} {ua ip : Option Bytes}
    (h : (refresh E R token ua ip).run E.exec now db = (r, db')) :
    AuthEvent.Effect E ⟨.refresh token ua ip, now, R⟩ db (r.map .session) db'
      ∧ KeepsUsers db db' := by
  rw [refresh_run] at h
  split at h
  · obtain ⟨rfl, rfl⟩ := Prod.mk.inj h
    exact ⟨.unknown token ua ip _ rfl rfl ‹_› rfl, .refl⟩
  rename_i row hrow
  split_ifs at h with hrevoked hexpired
  · obtain ⟨rfl, rfl⟩ := Prod.mk.inj h
    exact ⟨.reused token ua ip _ row rfl rfl hrow (Option.isSome_iff_ne_none.mp hrevoked) rfl,
      .of_user_eq rfl⟩
  · obtain ⟨rfl, rfl⟩ := Prod.mk.inj h
    exact ⟨.expired token ua ip _ row rfl rfl hrow (by simpa using hrevoked) hexpired rfl,
      .of_user_eq rfl⟩
  split at h
  · obtain ⟨rfl, rfl⟩ := Prod.mk.inj h
    exact ⟨.orphaned token ua ip _ row rfl rfl hrow ‹_› rfl, .refl⟩
  rename_i user huser
  rw [createSession_run] at h
  split_ifs at h with hold <;> obtain ⟨rfl, rfl⟩ := Prod.mk.inj h
  · exact ⟨.clashed token ua ip _ row rfl rfl hrow (by simpa using hrevoked)
      (exists_revokeWhere.mp hold) rfl, .of_user_eq rfl⟩
  · refine ⟨.rotated token ua ip row user rfl rfl hrow (by simpa using hrevoked)
      (by simpa using hexpired) (UserModel.findById_id huser) ?_ rfl, .of_user_eq rfl⟩
    simpa using exists_revokeWhere.not.mp hold

theorem logout_effect {r} {token : Bytes} (h : (logout E token).run E.exec now db = (r, db')) :
    AuthEvent.Effect E ⟨.logout token, now, R⟩ db (r.map fun _ => .void) db'
      ∧ KeepsUsers db db' := by
  rw [logout_run] at h
  split at h <;> obtain ⟨rfl, rfl⟩ := Prod.mk.inj h
  · exact ⟨.loggedOutUnknown token rfl rfl ‹_› rfl, .refl⟩
  · exact ⟨.loggedOut token _ rfl rfl ‹_› rfl, .of_user_eq rfl⟩

theorem user_effect {r} {id : ℕ} (h : (AuthService.user id).run E.exec now db = (r, db')) :
    AuthEvent.Effect E ⟨.user id, now, R⟩ db (r.map .user) db' ∧ KeepsUsers db db' := by
  rw [user_run] at h
  split at h <;> obtain ⟨rfl, rfl⟩ := Prod.mk.inj h <;>
    exact ⟨.quiet (by simp) (fun _ => rfl) rfl, .refl⟩

theorem updateProfile_effect {r} {id : ℕ} {name : Bytes}
    (h : (updateProfile id name).run E.exec now db = (r, db')) :
    AuthEvent.Effect E ⟨.updateProfile id name, now, R⟩ db (r.map .user) db'
      ∧ KeepsUsers db db' := by
  rw [updateProfile_run] at h
  split at h
  · obtain ⟨rfl, rfl⟩ := Prod.mk.inj h
    exact ⟨.quiet (by simp) (fun _ => rfl) rfl, .refl⟩
  · rw [user_run] at h
    have hkeep : KeepsUsers db (UserModel.updateProfile (E.zone.date now) db id name).2 :=
      keepsUsers_updateById (fun _ => rfl) fun _ => rfl
    split at h <;> obtain ⟨rfl, rfl⟩ := Prod.mk.inj h <;>
      exact ⟨.quiet (by simp) (fun _ => rfl) rfl, hkeep⟩

theorem changePassword_effect {r} {id : ℕ} {dto : ChangePasswordRequest} {token : Option Bytes}
    (h : (changePassword E R id dto token).run E.exec now db = (r, db')) :
    AuthEvent.Effect E ⟨.changePassword id dto token, now, R⟩ db (r.map fun _ => .void) db'
      ∧ KeepsUsers db db' := by
  rw [changePassword_run] at h
  split at h
  · obtain ⟨rfl, rfl⟩ := Prod.mk.inj h
    exact ⟨.quiet (by simp) (fun _ => rfl) rfl, .refl⟩
  split_ifs at h
  · split at h <;> obtain ⟨rfl, rfl⟩ := Prod.mk.inj h
    · exact ⟨.quiet (by simp) (fun _ => rfl) rfl, .refl⟩
    · exact ⟨.changed id dto token rfl rfl rfl, keepsUsers_updateById (fun _ => rfl) fun _ => rfl⟩
  · obtain ⟨rfl, rfl⟩ := Prod.mk.inj h
    exact ⟨.quiet (by simp) (fun _ => rfl) rfl, .refl⟩

theorem exec_effect (E : AuthEnv) (db : AuthDb) (ev : AuthEvent) :
    ev.Effect E db (ev.exec E db).1 (ev.exec E db).2 ∧ KeepsUsers db (ev.exec E db).2 := by
  obtain ⟨call, now, R⟩ := ev
  cases call with
  | register dto ua ip =>
    simp only [AuthEvent.exec, AuthCall.prog, Prog.run_map]
    exact register_effect rfl
  | login dto ua ip =>
    simp only [AuthEvent.exec, AuthCall.prog, Prog.run_map]
    exact login_effect rfl
  | refresh token ua ip =>
    simp only [AuthEvent.exec, AuthCall.prog, Prog.run_map]
    exact refresh_effect rfl
  | logout token =>
    simp only [AuthEvent.exec, AuthCall.prog, Prog.run_map]
    exact logout_effect rfl
  | user id =>
    simp only [AuthEvent.exec, AuthCall.prog, Prog.run_map]
    exact user_effect rfl
  | updateProfile id name =>
    simp only [AuthEvent.exec, AuthCall.prog, Prog.run_map]
    exact updateProfile_effect rfl
  | changePassword id dto token =>
    simp only [AuthEvent.exec, AuthCall.prog, Prog.run_map]
    exact changePassword_effect rfl

end Effect

/-- What the primary key and the unique index of `refresh_token` enforce. -/
structure Keyed (t : Table RefreshTokenRow) : Prop where
  ids : ∀ r ∈ t.rows, ∀ r' ∈ t.rows, r.id = r'.id → r = r'
  next : ∀ r ∈ t.rows, r.id < t.autoIncrement
  hashes : ∀ r ∈ t.rows, ∀ r' ∈ t.rows, r.tokenHash = r'.tokenHash → r = r'

namespace Keyed

variable {db : AuthDb} {t : Table RefreshTokenRow}

theorem empty (h : t.rows = []) : Keyed t where
  ids := by simp [h]
  next := by simp [h]
  hashes := by simp [h]

theorem revokeWhere (h : Keyed db.refreshToken) (i : LocalTime) (p : RefreshTokenRow → Bool) :
    Keyed (revokeWhere i db p).2.refreshToken where
  ids := by
    simp only [revokeWhere_rows, List.forall_mem_map, revoked_id]
    exact fun r hr r' hr' he => congrArg _ (h.ids r hr r' hr' he)
  next := by
    simp only [revokeWhere_rows, List.forall_mem_map, revoked_id, revokeWhere_autoIncrement]
    exact h.next
  hashes := by
    simp only [revokeWhere_rows, List.forall_mem_map, revoked_tokenHash]
    exact fun r hr r' hr' he => congrArg _ (h.hashes r hr r' hr' he)

theorem insert (h : Keyed t) {row : ℕ → RefreshTokenRow} (hid : ∀ id, (row id).id = id)
    (hnew : ∀ r ∈ t.rows, r.tokenHash ≠ (row t.autoIncrement).tokenHash) :
    Keyed (t.insert row) where
  ids := by
    have hne : ∀ r ∈ t.rows, r.id ≠ t.autoIncrement := fun r hr => (h.next r hr).ne
    rintro r hr r' hr' he
    rcases Table.mem_insert.mp hr with hr | rfl <;> rcases Table.mem_insert.mp hr' with hr' | rfl
    · exact h.ids r hr r' hr' he
    · exact absurd (he.trans (hid _)) (hne r hr)
    · exact absurd (he.symm.trans (hid _)) (hne r' hr')
    · rfl
  next := by
    intro r hr
    rw [Table.insert_autoIncrement]
    rcases Table.mem_insert.mp hr with hr | rfl
    · exact Nat.lt_succ_of_lt (h.next r hr)
    · rw [hid]
      exact Nat.lt_succ_self _
  hashes := by
    rintro r hr r' hr' he
    rcases Table.mem_insert.mp hr with hr | rfl <;> rcases Table.mem_insert.mp hr' with hr' | rfl
    · exact h.hashes r hr r' hr' he
    · exact absurd he (hnew r hr)
    · exact absurd he.symm (hnew r' hr')
    · rfl

end Keyed

/-! ## Families -/

/-- The sessions of a run whose family ids were drawn from `drawn`: a family has one account, and
an unrevoked row is the newest of its family. -/
structure Orderly (drawn : List Bytes) (t : Table RefreshTokenRow) : Prop extends Keyed t where
  owner : ∀ r ∈ t.rows, ∀ r' ∈ t.rows, r'.familyId = r.familyId → r'.userId = r.userId
  newest : ∀ r ∈ t.rows, ∀ r' ∈ t.rows, r'.familyId = r.familyId → r.revokedAt = none → r'.id ≤ r.id
  drawn : ∀ r ∈ t.rows, r.familyId ∈ drawn

namespace Orderly

variable {db : AuthDb} {t : Table RefreshTokenRow} {drawn : List Bytes}

theorem empty (h : t.rows = []) : Orderly drawn t where
  toKeyed := .empty h
  owner := by simp [h]
  newest := by simp [h]
  drawn := by simp [h]

theorem mono {drawn' : List Bytes} (h : Orderly drawn t) (hsub : ∀ f ∈ drawn, f ∈ drawn') :
    Orderly drawn' t :=
  { h with drawn := fun r hr => hsub _ (h.drawn r hr) }

theorem unrevoked_unique (h : Orderly drawn t) {r r' : RefreshTokenRow} (hr : r ∈ t.rows)
    (hr' : r' ∈ t.rows) (hF : r'.familyId = r.familyId) (hn : r.revokedAt = none)
    (hn' : r'.revokedAt = none) : r' = r :=
  h.ids r' hr' r hr (le_antisymm (h.newest r hr r' hr' hF hn) (h.newest r' hr' r hr hF.symm hn'))

theorem revokeWhere (h : Orderly drawn db.refreshToken) (i : LocalTime)
    (p : RefreshTokenRow → Bool) : Orderly drawn (revokeWhere i db p).2.refreshToken where
  toKeyed := h.toKeyed.revokeWhere i p
  owner := by
    simp only [revokeWhere_rows, List.forall_mem_map, revoked_userId, revoked_familyId]
    exact h.owner
  newest := by
    simp only [revokeWhere_rows, List.forall_mem_map, revoked_familyId, revoked_id]
    exact fun r hr r' hr' hF hn => h.newest r hr r' hr' hF (revoked_eq_none.mp hn).1
  drawn := by
    simp only [revokeWhere_rows, List.forall_mem_map, revoked_familyId]
    exact h.drawn

theorem insert (h : Orderly drawn t) {row : ℕ → RefreshTokenRow} {F : Bytes} {u : ℕ}
    (hid : ∀ id, (row id).id = id) (hF : ∀ id, (row id).familyId = F)
    (hu : ∀ id, (row id).userId = u)
    (hnew : ∀ r ∈ t.rows, r.tokenHash ≠ (row t.autoIncrement).tokenHash)
    (hfam : ∀ r ∈ t.rows, r.familyId = F → r.userId = u ∧ r.revokedAt ≠ none) :
    Orderly (F :: drawn) (t.insert row) where
  toKeyed := h.toKeyed.insert hid hnew
  owner := by
    rintro r hr r' hr' he
    rcases Table.mem_insert.mp hr with hr | rfl <;> rcases Table.mem_insert.mp hr' with hr' | rfl
    · exact h.owner r hr r' hr' he
    · rw [hu, (hfam r hr (he.symm.trans (hF _))).1]
    · rw [hu, (hfam r' hr' (he.trans (hF _))).1]
    · rfl
  newest := by
    rintro r hr r' hr' he hn
    rcases Table.mem_insert.mp hr with hr | rfl <;> rcases Table.mem_insert.mp hr' with hr' | rfl
    · exact h.newest r hr r' hr' he hn
    · exact absurd hn (hfam r hr (he.symm.trans (hF _))).2
    · rw [hid]
      exact (h.next r' hr').le
    · rfl
  drawn := by
    intro r hr
    rcases Table.mem_insert.mp hr with hr | rfl
    · exact List.mem_cons_of_mem _ (h.drawn r hr)
    · rw [hF]
      exact List.mem_cons_self

/-- What a call keeps, where it draws a family id that was not drawn before. -/
theorem effect {E : AuthEnv} {ev : AuthEvent} {res : Except Failure AuthResult} {db' : AuthDb}
    (h : Orderly drawn db.refreshToken) (heff : ev.Effect E db res db')
    (hfresh : ev.entropy.family ∉ drawn) :
    Orderly (ev.entropy.family :: drawn) db'.refreshToken := by
  have hsame : Orderly (ev.entropy.family :: drawn) db.refreshToken :=
    h.mono fun _ => List.mem_cons_of_mem _
  have hrevoke : ∀ p, Orderly (ev.entropy.family :: drawn)
      (RefreshTokenModel.revokeWhere (E.zone.date ev.now) db p).2.refreshToken :=
    fun p => hsame.revokeWhere _ p
  cases heff with
  | quiet _ _ htab | unknown _ _ _ _ _ _ _ htab | orphaned _ _ _ _ _ _ _ _ _ htab
  | loggedOutUnknown _ _ _ _ htab => exact htab ▸ hsame
  | reused _ _ _ _ _ _ _ _ _ htab | expired _ _ _ _ _ _ _ _ _ _ htab
  | clashed _ _ _ _ _ _ _ _ _ _ htab | unopened _ _ _ _ _ htab | loggedOut _ _ _ _ _ htab
  | changed _ _ _ _ _ htab => exact htab ▸ hrevoke _
  | rotated token ua ip row user _ _ hrow hlive _ huser hnew htab =>
    obtain ⟨hmem, -⟩ := findByHash_mem hrow
    have hins : Orderly (row.familyId :: drawn) db'.refreshToken := by
      rw [htab]
      refine (h.revokeWhere _ _).insert (tokenRow_id E ev.entropy ev.now user ua ip _)
        (fun _ => rfl) (fun _ => rfl) (by simpa using hnew) ?_
      simp only [revokeWhere_rows, List.forall_mem_map, revoked_familyId, revoked_userId]
      refine fun r hr hF => ⟨(h.owner row hmem r hr hF).trans huser.symm, fun hn => ?_⟩
      obtain ⟨hn, hne⟩ := revoked_eq_none.mp hn
      rw [h.unrevoked_unique hmem hr hF hlive hn] at hne
      simp at hne
    refine hins.mono fun f hf => List.mem_cons_of_mem _ ?_
    rcases List.mem_cons.mp hf with rfl | hf
    · exact h.drawn row hmem
    · exact hf
  | opened p user ua ip _ _ _ _ hnew htab =>
    rw [htab]
    refine (h.revokeWhere _ p).insert (tokenRow_id E ev.entropy ev.now user ua ip none)
      (fun _ => rfl) (fun _ => rfl) (by simpa using hnew) ?_
    simp only [revokeWhere_rows, List.forall_mem_map, revoked_familyId]
    exact fun r hr hF => absurd (hF ▸ h.drawn r hr) hfresh

end Orderly

/-! ## Runs -/

section Runs

variable {E : AuthEnv} {db₀ : AuthDb} {evs : List AuthEvent}

/-- The sessions of a run from an empty `refresh_token` table are orderly. -/
theorem orderly_course (h₀ : db₀.refreshToken.rows = []) (hfresh : (drawnFamilies evs).Nodup) :
    Orderly (drawnFamilies evs) (course E db₀ evs).db.refreshToken := by
  induction evs using List.reverseRecOn with
  | nil => exact .empty h₀
  | append_singleton evs ev ih =>
    simp only [drawnFamilies, List.map_append, List.map_cons, List.map_nil] at hfresh ⊢
    rw [course_concat]
    refine ((ih hfresh.of_append_left).effect (exec_effect E _ ev).1 fun hmem => ?_).mono ?_
    · exact List.disjoint_of_nodup_append hfresh hmem List.mem_cons_self
    · simp [drawnFamilies, or_comm]

theorem changePassword_ok {db db' : AuthDb} {id : ℕ} {dto : ChangePasswordRequest}
    {token : Option Bytes} {now : Int} {R : Entropy}
    (hok : AuthEvent.exec E ⟨.changePassword id dto token, now, R⟩ db = (.ok .void, db')) :
    db'.refreshToken = (revokeWhere (E.zone.date now) db
      (revokesOther id (keepFamily E db token))).2.refreshToken := by
  have heff := (exec_effect E db ⟨.changePassword id dto token, now, R⟩).1
  rw [hok] at heff
  cases heff with
  | quiet _ hfacts _ => simpa [AuthEvent.facts] using hfacts []
  | changed id' dto' token' hcall _ htab =>
    simp only [AuthCall.changePassword.injEq] at hcall
    obtain ⟨rfl, rfl, rfl⟩ := hcall
    exact htab
  | unopened _ _ _ hres => simp at hres
  | opened _ _ _ _ _ hres => simp at hres
  | unknown _ _ _ _ hcall | orphaned _ _ _ _ _ hcall | reused _ _ _ _ _ hcall
  | expired _ _ _ _ _ hcall | clashed _ _ _ _ _ hcall | rotated _ _ _ _ _ hcall
  | loggedOut _ _ hcall | loggedOutUnknown _ hcall => simp at hcall

/-- The rows of an account that a password change leaves unrevoked are in the kept family. -/
theorem mem_keepFamily {db db' : AuthDb} {i : LocalTime} {id : ℕ} {token : Option Bytes}
    (htab : db'.refreshToken = (revokeWhere i db
      (revokesOther id (keepFamily E db token))).2.refreshToken)
    {r : RefreshTokenRow} (hr : r ∈ db'.refreshToken.rows) (hu : r.userId = id)
    (hn : r.revokedAt = none) :
    r ∈ db.refreshToken.rows ∧ ∃ t row, token = some t
      ∧ findByHash db (E.sha256 t) = some row ∧ r.familyId = row.familyId := by
  rw [htab, revokeWhere_rows] at hr
  obtain ⟨r₀, hr₀, rfl⟩ := List.mem_map.mp hr
  obtain ⟨-, hkept⟩ := revoked_eq_none.mp hn
  rw [revoked_of_spared hkept] at hu ⊢
  have hF : some r₀.familyId = keepFamily E db token := revokesOther_eq_false.mp hkept hu
  obtain ⟨t, rfl, hrow⟩ := Option.bind_eq_some_iff.mp hF.symm
  obtain ⟨row, hrow, hF⟩ := Option.map_eq_some_iff.mp hrow
  exact ⟨hr₀, t, row, rfl, hrow, hF.symm⟩

/-- How an unrevoked row `r` that a password change of account `id` left relates to the row of the
presented token: it is of the same family and its newest, and no other row is left. -/
structure LeftBy (db' : AuthDb) (id : ℕ) (row r : RefreshTokenRow) : Prop where
  account : row.userId = id
  family : r.familyId = row.familyId
  presented : row.revokedAt = none → r = row
  newer : row.revokedAt ≠ none → row.id < r.id
  newest : ∀ r' ∈ db'.refreshToken.rows, r'.familyId = row.familyId → r'.id ≤ r.id
  only : ∀ r' ∈ db'.refreshToken.rows, r'.userId = id → r'.revokedAt = none → r' = r

/-- After a password change an unrevoked row of the account is in the family of the row of the
presented token, and is the newest there; no other row of the account is unrevoked. -/
theorem changePassword_keeps (h₀ : db₀.refreshToken.rows = [])
    (hfresh : (drawnFamilies evs).Nodup) {id : ℕ} {dto : ChangePasswordRequest}
    {token : Option Bytes} {now : Int} {R : Entropy} {db' : AuthDb}
    (hok : AuthEvent.exec E ⟨.changePassword id dto token, now, R⟩ (course E db₀ evs).db =
      (.ok .void, db')) :
    ∀ r ∈ db'.refreshToken.rows, r.userId = id → r.revokedAt = none →
      ∃ t row, token = some t ∧ findByHash (course E db₀ evs).db (E.sha256 t) = some row
        ∧ LeftBy db' id row r := by
  have horder : Orderly (drawnFamilies evs) (course E db₀ evs).db.refreshToken :=
    orderly_course h₀ hfresh
  have htab := changePassword_ok hok
  have horder' : Orderly (drawnFamilies evs) db'.refreshToken := htab ▸ horder.revokeWhere _ _
  intro r hr hu hn
  obtain ⟨hold, t, row, rfl, hrow, hF⟩ := mem_keepFamily htab hr hu hn
  obtain ⟨hmem, -⟩ := findByHash_mem hrow
  have hle : row.id ≤ r.id := horder.newest r hold row hmem hF.symm hn
  refine ⟨t, row, rfl, hrow, ⟨?_, hF, fun hlive => ?_, fun hrevoked => ?_, fun r' hr' hF' => ?_,
    fun r' hr' hu' hn' => ?_⟩⟩
  · rw [horder.owner r hold row hmem hF.symm, hu]
  · exact horder.unrevoked_unique hmem hold hF hlive hn
  · refine lt_of_le_of_ne hle fun he => hrevoked ?_
    rw [horder.ids row hmem r hold he, hn]
  · exact horder'.newest r hr r' hr' (hF'.trans hF.symm) hn
  · obtain ⟨hold', t', row', ht, hrow', hF'⟩ := mem_keepFamily htab hr' hu' hn'
    obtain rfl : t = t' := by simpa using ht
    obtain rfl : row = row' := by simpa [hrow] using hrow'
    exact horder.unrevoked_unique hold hold' (hF'.trans hF.symm) hn hn'

end Runs

namespace Sample

def rotated : AuthDb := (course env db [register 1 1000, refresh 1 2 2000]).db

def changePassword : AuthEvent :=
  ⟨.changePassword 1 ⟨ascii "secret-1", ascii "secret-2", ascii "secret-2"⟩ (some (token 1)), 3000,
    entropy 3⟩

end Sample

theorem changePassword_keeps_sample :
    (Sample.changePassword.exec Sample.env Sample.rotated).1 = .ok .void
      ∧ ∀ r ∈ (Sample.changePassword.exec Sample.env Sample.rotated).2.refreshToken.rows,
        r.userId = 1 → r.revokedAt = none →
        ∃ t row, some (Sample.token 1) = some t
          ∧ findByHash Sample.rotated (Sample.sha256 t) = some row
          ∧ LeftBy (Sample.changePassword.exec Sample.env Sample.rotated).2 1 row r :=
  ⟨by decide +kernel, @changePassword_keeps Sample.env Sample.db
    [Sample.register 1 1000, Sample.refresh 1 2 2000] rfl (by decide +kernel) _ _ _ _ _ _
    (Prod.ext (by decide +kernel) rfl)⟩

/-- A session opened by presenting a stolen token outlives a password change that presents the
token it was rotated from. -/
theorem changePassword_keeps_rotated :
    (Sample.changePassword.exec Sample.env Sample.rotated).1 = .ok .void
      ∧ ∃ r ∈ (Sample.changePassword.exec Sample.env Sample.rotated).2.refreshToken.rows,
        r.userId = 1 ∧ r.revokedAt = none ∧ r.tokenHash = Sample.sha256 (Sample.token 2)
          ∧ r.tokenHash ≠ Sample.sha256 (Sample.token 1) := by
  decide +kernel

end SlimStarter
