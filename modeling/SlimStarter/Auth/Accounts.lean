import SlimStarter.Lib.Interrupt
import SlimStarter.Auth.History

/-!
# Accounts

What the schema says of the `user` table (`UserSchema`), what one statement does to it
(`exec_user_cases`), and how long an account keeps its email and the hash of its password: until a
statement sets its password (`Holds.exec`), so through every call but a password change of its own
(`Holds.calls`). A login for it is then decided by this hash (`Holds.login_iff`).
-/

namespace SlimStarter

open Prog (Only)
open AuthService RefreshTokenModel

variable {E : AuthEnv} {R : Entropy} {db : AuthDb} {id : ℕ} {email hash : Bytes}

/-- `id` is the key of the table, and `uq_user_email` covers all of its rows. -/
structure UserSchema (eq : Bytes → Bytes → Bool) (t : Table UserRow) : Prop where
  keyed : t.Keyed (·.id)
  uniqueEmail : t.rows.Pairwise fun r r' => eq r.email r'.email = false

namespace UserSchema

variable {eq : Bytes → Bytes → Bool} {t : Table UserRow}

theorem insert (h : UserSchema eq t) {row : ℕ → UserRow} (hid : ∀ id, (row id).id = id)
    (hfree : ∀ r ∈ t.rows, eq r.email (row t.autoIncrement).email = false) :
    UserSchema eq (t.insert row) where
  keyed := h.keyed.insert hid
  uniqueEmail := by
    refine List.pairwise_append.mpr ⟨h.uniqueEmail, List.pairwise_singleton _ _, ?_⟩
    intro r hr r' hr'
    rw [List.mem_singleton.mp hr']
    exact hfree r hr

theorem update (h : UserSchema eq t) {p : UserRow → Bool} {f : UserRow → UserRow}
    (hid : ∀ r, (f r).id = r.id) (hemail : ∀ r, (f r).email = r.email) :
    UserSchema eq (t.update p f) where
  keyed := h.keyed.update hid
  uniqueEmail := by
    refine List.pairwise_map.mpr (h.uniqueEmail.imp fun {r r'} hne => ?_)
    split_ifs <;> simpa only [hemail] using hne

/-- Of the rows that the database takes for one email there is one only. -/
theorem eq_of_email (h : UserSchema eq t) (hsymm : ∀ a b, eq a b = true → eq b a = true)
    {r r' : UserRow} (hr : r ∈ t.rows) (hr' : r' ∈ t.rows) (heq : eq r.email r'.email = true) :
    r = r' := by
  have hne : Std.Symm fun r r' : UserRow => eq r.email r'.email = false := by
    refine ⟨fun r r' hrr => ?_⟩
    by_contra hback
    rw [hsymm _ _ (by simpa using hback)] at hrr
    cases hrr
  by_contra hdistinct
  have hfree := h.uniqueEmail.forall hr hr' hdistinct
  rw [heq] at hfree
  cases hfree

end UserSchema

/-- An update that keeps the identity of a row. -/
structure UserRow.Kept (f : UserRow → UserRow) : Prop where
  id : ∀ r, (f r).id = r.id
  email : ∀ r, (f r).email = r.email
  deletedAt : ∀ r, (f r).deletedAt = r.deletedAt

/-- A statement leaves the users alone, adds one whose email is free, or updates one row by its id:
its password, or what is not of the password. -/
theorem exec_user_cases (op : AuthStmt) (i : Int) :
    (E.exec op i db).2.user = db.user
      ∨ (∃ name email hash type, op = .createUser name email hash type
        ∧ (∀ r ∈ db.user.rows, E.sqlEq r.email email = false)
        ∧ (E.exec op i db).2.user = db.user.insert fun id =>
          ⟨id, name, email, hash, type, none, E.zone.date i, some (E.zone.date i), none⟩)
      ∨ ∃ id f, UserRow.Kept f ∧ (E.exec op i db).2.user = db.user.update (·.id = id) f
        ∧ ((∀ r, (f r).passwordHash = r.passwordHash)
          ∨ ∃ hash, op = .updatePassword id hash ∧ ∀ r, (f r).passwordHash = hash) := by
  cases op with
  | createUser name email hash type =>
    simp only [AuthEnv.exec, UserModel.create]
    split_ifs with htaken
    · exact .inl rfl
    · exact .inr (.inl ⟨name, email, hash, type, rfl, Table.not_affected_pos.mp htaken, rfl⟩)
  | updateProfile id name =>
    exact .inr (.inr ⟨id, fun r => { r with name, updatedAt := some (E.zone.date i) },
      ⟨fun _ => rfl, fun _ => rfl, fun _ => rfl⟩, rfl, .inl fun _ => rfl⟩)
  | updatePassword id hash =>
    exact .inr (.inr ⟨id,
      fun r => { r with passwordHash := hash, updatedAt := some (E.zone.date i) },
      ⟨fun _ => rfl, fun _ => rfl, fun _ => rfl⟩, rfl, .inr ⟨hash, rfl, fun _ => rfl⟩⟩)
  | touchLastLogin id =>
    exact .inr (.inr ⟨id, fun r => { r with lastLoginAt := some (E.zone.date i) },
      ⟨fun _ => rfl, fun _ => rfl, fun _ => rfl⟩, rfl, .inl fun _ => rfl⟩)
  | createToken =>
    simp only [AuthEnv.exec, RefreshTokenModel.create]
    split_ifs <;> exact .inl rfl
  | _ => exact .inl rfl

theorem UserSchema.exec (h : UserSchema E.sqlEq db.user) (op : AuthStmt) (i : Int) :
    UserSchema E.sqlEq (E.exec op i db).2.user := by
  rcases @exec_user_cases E db op i with hsame | ⟨name, email, hash, type, -, hfree, hinsert⟩ |
    ⟨id, f, hf, hupdate, -⟩
  · rwa [hsame]
  · rw [hinsert]
    exact h.insert (fun _ => rfl) hfree
  · rw [hupdate]
    exact h.update hf.id hf.email

/-- The account `id` is there, with this email and this hash of its password. -/
structure Holds (E : AuthEnv) (id : ℕ) (email hash : Bytes) (db : AuthDb) : Prop where
  schema : UserSchema E.sqlEq db.user
  row : ∃ u ∈ db.user.rows, u.id = id ∧ u.email = email ∧ u.passwordHash = hash
    ∧ u.deletedAt = none

theorem UserSchema.holds_insert (h : UserSchema E.sqlEq db.user) {row : ℕ → UserRow} {db' : AuthDb}
    (hinsert : db'.user = db.user.insert row) (hid : ∀ id, (row id).id = id)
    (hlive : ∀ id, (row id).deletedAt = none)
    (hfree : ∀ r ∈ db.user.rows, E.sqlEq r.email (row db.user.autoIncrement).email = false) :
    Holds E db.user.autoIncrement (row db.user.autoIncrement).email
      (row db.user.autoIncrement).passwordHash db' := by
  refine ⟨?_, row db.user.autoIncrement, ?_, hid _, rfl, rfl, hlive _⟩
  · rw [hinsert]
    exact h.insert hid hfree
  · rw [hinsert]
    exact Table.mem_insert.mpr (.inr rfl)

/-- The statement does not set the password of the account. -/
def AuthStmt.SparesPassword (id : ℕ) (op : AuthStmt) : Prop := ∀ hash, op ≠ .updatePassword id hash

def AuthStmt.updatesPassword : AuthStmt → Bool
  | updatePassword .. => true
  | _ => false

theorem AuthStmt.SparesPassword.of_other {op : AuthStmt} (h : op.updatesPassword = false) :
    op.SparesPassword id := by
  rintro hash rfl
  cases h

/-- An account keeps its password through every statement that does not set it. -/
theorem Holds.exec (h : Holds E id email hash db) {op : AuthStmt} (hop : op.SparesPassword id)
    (i : Int) : Holds E id email hash (E.exec op i db).2 := by
  refine ⟨h.schema.exec op i, ?_⟩
  obtain ⟨u, hu, hid, hemail, hhash, hlive⟩ := h.row
  rcases @exec_user_cases E db op i with hsame | ⟨name, email', hash', type, -, -, hinsert⟩ |
    ⟨id', f, hf, hupdate, hpassword⟩
  · rw [hsame]
    exact ⟨u, hu, hid, hemail, hhash, hlive⟩
  · rw [hinsert]
    exact ⟨u, Table.mem_insert.mpr (.inl hu), hid, hemail, hhash, hlive⟩
  · rw [hupdate]
    refine ⟨_, Table.mem_update_of_mem hu, ?_⟩
    by_cases hhit : u.id = id'
    · rw [if_pos (by simpa using hhit)]
      refine ⟨(hf.id u).trans hid, (hf.email u).trans hemail, ?_, (hf.deletedAt u).trans hlive⟩
      rcases hpassword with hkept | ⟨hash', rfl, -⟩
      · exact (hkept u).trans hhash
      · exact absurd (by rw [← hhit, hid]) (hop hash')
    · rw [if_neg (by simpa using hhit)]
      exact ⟨hid, hemail, hhash, hlive⟩

theorem Holds.run (h : Holds E id email hash db) {α : Type} {A : α → Prop} {p : AuthProg α}
    (hp : Only (AuthStmt.SparesPassword id) A p) (now : Int) :
    Holds E id email hash (p.run E.exec now db).2 :=
  (Prog.Always.of_only hp (fun _ _ hop h => h.exec hop now) h).final

/-- The call does not change the password of the account. -/
def AuthCall.SparesPassword (id : ℕ) : AuthCall → Prop
  | .changePassword id' _ _ => id' ≠ id
  | _ => True

section Calls

theorem sparesPassword_createSession (user : UserRow) (ua ip familyId : Option Bytes) :
    Only (AuthStmt.SparesPassword id) (fun _ => True) (createSession E R user ua ip familyId) := by
  simp only [createSession, buildAccessToken, Prog.time_bind, Prog.stmt_bind, Prog.only_clock,
    Prog.only_call_resume]
  exact fun _ => ⟨.of_other rfl, fun _ => ⟨.of_other rfl, fun _ _ => trivial⟩⟩

theorem sparesPassword_revokeOthers (id' : ℕ) (kept : Option Bytes) :
    Only (AuthStmt.SparesPassword id) (fun _ => True) (revokeOthers id' kept) := by
  cases kept with
  | none => exact Prog.only_bind.mpr (Prog.only_stmt.mpr ⟨.of_other rfl, fun _ => trivial⟩)
  | some kept => exact Prog.only_bind.mpr (Prog.only_stmt.mpr ⟨.of_other rfl, fun _ => trivial⟩)

theorem sparesPassword_register (dto : RegisterRequest) (ua ip : Option Bytes) :
    Only (AuthStmt.SparesPassword id) (fun _ => True) (register E R dto ua ip) := by
  simp only [register, passwordHash, Prog.stmt_bind, Prog.only_call_resume]
  refine ⟨.of_other rfl, fun taken => ?_⟩
  split_ifs
  · trivial
  · cases E.passwordHash R.salt dto.password with
    | none => trivial
    | some hash =>
      simp only [Prog.pure_eq, Prog.ret_bind, Prog.only_call_resume]
      refine ⟨.of_other rfl, fun userId => ⟨.of_other rfl, fun user => ?_⟩⟩
      cases user with
      | none => trivial
      | some user => exact sparesPassword_createSession user ua ip none

theorem sparesPassword_login (dto : LoginRequest) (ua ip : Option Bytes) :
    Only (AuthStmt.SparesPassword id) (fun _ => True) (login E R dto ua ip) := by
  simp only [login, Prog.stmt_bind, Prog.only_call_resume]
  refine ⟨.of_other rfl, fun user => ?_⟩
  cases user with
  | none => trivial
  | some user =>
    simp only
    split_ifs
    · simp only [Prog.only_call_resume]
      exact ⟨.of_other rfl, fun _ => ⟨.of_other rfl, fun _ =>
        sparesPassword_createSession user ua ip none⟩⟩
    · trivial

theorem sparesPassword_refresh (token : Bytes) (ua ip : Option Bytes) :
    Only (AuthStmt.SparesPassword id) (fun _ => True) (refresh E R token ua ip) := by
  simp only [refresh, Prog.stmt_bind, Prog.only_call_resume]
  refine ⟨.of_other rfl, fun row => ?_⟩
  cases row with
  | none => trivial
  | some row =>
    simp only
    split_ifs
    · simp only [Prog.only_call_resume]
      exact ⟨.of_other rfl, fun _ => trivial⟩
    · simp only [Prog.time_bind, Prog.only_clock]
      intro now
      split_ifs
      · simp only [Prog.only_call_resume]
        exact ⟨.of_other rfl, fun _ => trivial⟩
      · simp only [rotate, rotateAs, Prog.stmt_bind, Prog.only_call_resume]
        refine ⟨.of_other rfl, fun user => ?_⟩
        cases user with
        | none => trivial
        | some user =>
          simp only [Prog.only_call_resume]
          exact ⟨.of_other rfl, fun _ => sparesPassword_createSession user ua ip _⟩

theorem sparesPassword_user (id' : ℕ) :
    Only (AuthStmt.SparesPassword id) (fun _ => True) (AuthService.user id') := by
  simp only [AuthService.user, Prog.stmt_bind, Prog.only_call_resume]
  refine ⟨.of_other rfl, fun user => ?_⟩
  cases user <;> trivial

theorem sparesPassword_changePassword {id' : ℕ} (hid : id' ≠ id) (dto : ChangePasswordRequest)
    (token : Option Bytes) :
    Only (AuthStmt.SparesPassword id) (fun _ => True) (changePassword E R id' dto token) := by
  simp only [changePassword, passwordHash, Prog.stmt_bind, Prog.only_call_resume]
  refine ⟨.of_other rfl, fun user => ?_⟩
  cases user with
  | none => trivial
  | some user =>
    simp only
    split_ifs
    · cases E.passwordHash R.salt dto.newPassword with
      | none => trivial
      | some hash =>
        simp only [Prog.pure_eq, Prog.ret_bind, Prog.only_call_resume]
        refine ⟨?_, fun _ => ?_⟩
        · rintro hash' heq
          exact hid (AuthStmt.updatePassword.inj heq).1
        · cases token with
          | none => exact sparesPassword_revokeOthers id' none
          | some token =>
            simp only [Prog.only_call_resume]
            exact ⟨.of_other rfl, fun row => sparesPassword_revokeOthers id' _⟩
    · trivial

theorem sparesPassword_prog {call : AuthCall} (h : call.SparesPassword id) :
    Only (AuthStmt.SparesPassword id) (fun _ => True) (call.prog E R) := by
  cases call with
  | register dto ua ip => exact Prog.only_map.mpr (sparesPassword_register dto ua ip)
  | login dto ua ip => exact Prog.only_map.mpr (sparesPassword_login dto ua ip)
  | refresh token ua ip => exact Prog.only_map.mpr (sparesPassword_refresh token ua ip)
  | logout token =>
    refine Prog.only_map.mpr ?_
    simp only [logout, Prog.stmt_bind, Prog.only_call_resume]
    refine ⟨.of_other rfl, fun row => ?_⟩
    cases row with
    | none => trivial
    | some row =>
      simp only [Prog.only_call_resume]
      exact ⟨.of_other rfl, fun _ => trivial⟩
  | user id' => exact Prog.only_map.mpr (sparesPassword_user id')
  | updateProfile id' name =>
    refine Prog.only_map.mpr ?_
    simp only [AuthService.updateProfile, Prog.stmt_bind, Prog.only_call_resume]
    refine ⟨.of_other rfl, fun user => ?_⟩
    cases user with
    | none => trivial
    | some user =>
      simp only [Prog.only_call_resume]
      exact ⟨.of_other rfl, fun _ => sparesPassword_user id'⟩
  | changePassword id' dto token =>
    exact Prog.only_map.mpr (sparesPassword_changePassword h dto token)

end Calls

/-- An account keeps its password through all calls but a change of it. -/
theorem Holds.calls (h : Holds E id email hash db) {evs : List AuthEvent}
    (hevs : ∀ ev ∈ evs, ev.call.SparesPassword id) :
    Holds E id email hash (course E db evs).db := by
  induction evs using List.reverseRecOn with
  | nil => exact h
  | append_singleton evs ev ih =>
    rw [course_concat]
    exact (ih fun ev' hev' => hevs ev' (List.mem_append_left _ hev')).run
      (sparesPassword_prog (hevs ev (List.mem_append_right _ List.mem_cons_self))) ev.now

/-! ## Signing in -/

theorem Holds.findByEmail (h : Holds E id email hash db)
    (heq : Equivalence fun a b => E.sqlEq a b = true) {email' : Bytes}
    (hemail' : E.sqlEq email email' = true) :
    ∃ u, UserModel.findByEmail E.sqlEq db email' = some u ∧ u.id = id
      ∧ u.passwordHash = hash := by
  obtain ⟨u, hu, hid, rfl, hhash, hlive⟩ := h.row
  have hsome : (UserModel.findByEmail E.sqlEq db email').isSome := by
    simp only [UserModel.findByEmail, Table.first_isSome, Bool.and_eq_true,
      Option.isNone_iff_eq_none]
    exact ⟨u, hu, hemail', hlive⟩
  obtain ⟨v, hv⟩ := Option.isSome_iff_exists.mp hsome
  obtain ⟨hmem, hp⟩ := Table.first_mem hv
  simp only [Bool.and_eq_true] at hp
  have hvu : v = u := h.schema.eq_of_email (fun _ _ => heq.symm) hmem hu
    (heq.trans hp.1 (heq.symm hemail'))
  exact ⟨v, hv, hvu ▸ hid, hvu ▸ hhash⟩

/-- A login for the account is decided by the hash that it holds. -/
theorem Holds.login_iff (h : Holds E id email hash db)
    (heq : Equivalence fun a b => E.sqlEq a b = true) {dto : LoginRequest}
    (hemail : E.sqlEq email dto.email = true)
    (hnew : ∀ r ∈ db.refreshToken.rows, r.tokenHash ≠ E.sha256 R.token) {now : Int}
    {ua ip : Option Bytes} :
    (∃ s, ((login E R dto ua ip).run E.exec now db).1 = .ok s) ↔
      E.passwordVerify dto.password hash = true := by
  obtain ⟨u, hfound, -, hhash⟩ := h.findByEmail heq hemail
  rw [login_run, hfound]
  simp only [hhash]
  by_cases hverify : E.passwordVerify dto.password hash = true
  · have hfree : ¬ ∃ r ∈ (revokeExpiredForUser (E.zone.date now)
        (UserModel.touchLastLogin (E.zone.date now) db u.id).2 u.id).2.refreshToken.rows,
        r.tokenHash = E.sha256 R.token := by
      simpa [revokeExpiredForUser, UserModel.touchLastLogin, UserModel.updateById] using hnew
    rw [if_pos hverify, createSession_run, if_neg hfree]
    simp [hverify]
  · rw [if_neg hverify]
    simp [hverify]

end SlimStarter
