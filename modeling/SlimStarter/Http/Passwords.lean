import SlimStarter.Auth.Accounts
import SlimStarter.Http.Privilege

/-!
# Passwords

The request classes accept a new password of 8 to 72 bytes (`accepted_length`), and `LoginRequest`
any password that is not empty. The hash function sees the first 72 bytes only, and refuses a NUL.

So a password is exact, that is, the account can be signed in to with it and with no other, where it
has no NUL and fewer than 72 bytes (`passwords_exact_iff`): with all 72, every longer text that it
begins is accepted too (`Holds.not_logsInExactly`), and with a NUL, registering and changing the
password fail in `password_hash`.
-/

namespace SlimStarter

open AuthService

/-- `password_hash` and `password_verify` as bcrypt has them. -/
structure Bcrypt (E : AuthEnv) : Prop where
  refuses : ∀ salt p, E.passwordHash salt p = none ↔ 0 ∈ p
  verifies : ∀ {salt p hash}, E.passwordHash salt p = some hash →
    ∀ q, E.passwordVerify q hash = true ↔ q.take 72 = p.take 72

/-- Whatever calls come first, if none of them changes the password of the account, a login for its
email succeeds with this password and no other. -/
def LogsInExactly (E : AppEnv) (id : ℕ) (email password : Bytes) (db : AuthDb) : Prop :=
  ∀ evs : List AuthEvent, (∀ ev ∈ evs, ev.call.SparesPassword id) →
    ∀ (dto : LoginRequest) (R : Entropy) (now : Int) (ua ip : Option Bytes), dto.validate E = [] →
      E.auth.sqlEq email dto.email = true →
      (∀ r ∈ (course E.auth db evs).db.refreshToken.rows, r.tokenHash ≠ E.auth.sha256 R.token) →
      ((∃ s, ((login E.auth R dto ua ip).run E.auth.exec now (course E.auth db evs).db).1 = .ok s) ↔
        dto.password = password)

/-- Registering with this password does not fail in the hash function, and an account that comes of
it is signed in to with this password only. -/
def RegistersExactly (E : AppEnv) (password : Bytes) : Prop :=
  ∀ dto : RegisterRequest, dto.validate E = [] → dto.password = password →
    ∀ (db : AuthDb) (R : Entropy) (now : Int) (ua ip : Option Bytes),
      UserSchema E.auth.sqlEq db.user →
      ((register E.auth R dto ua ip).run E.auth.exec now db).1 ≠ .error .valueError ∧
      ∀ s, ((register E.auth R dto ua ip).run E.auth.exec now db).1 = .ok s →
        LogsInExactly E s.user.id dto.email password
          ((register E.auth R dto ua ip).run E.auth.exec now db).2

/-- The same of changing the password of an account. -/
def ChangesExactly (E : AppEnv) (password : Bytes) : Prop :=
  ∀ dto : ChangePasswordRequest, dto.validate = [] → dto.newPassword = password →
    ∀ (db : AuthDb) (R : Entropy) (now : Int) (id : ℕ) (token : Option Bytes),
      UserSchema E.auth.sqlEq db.user →
      ((changePassword E.auth R id dto token).run E.auth.exec now db).1 ≠ .error .valueError ∧
      ∀ user, UserModel.findById db id = some user →
        ((changePassword E.auth R id dto token).run E.auth.exec now db).1 = .ok () →
        LogsInExactly E id user.email password
          ((changePassword E.auth R id dto token).run E.auth.exec now db).2

theorem passwordError_eq_nil {field label : String} {p : Bytes} :
    RegisterRequest.passwordError field label p = [] ↔ 8 ≤ p.length ∧ p.length ≤ 72 := by
  unfold RegisterRequest.passwordError RegisterRequest.minPasswordLength
    RegisterRequest.maxPasswordLength
  by_cases hnil : p = []
  · simp [hnil]
  · rw [if_neg hnil]
    split_ifs with hshort hlong
    · simp only [false_iff]
      omega
    · simp only [false_iff]
      omega
    · simp only [true_iff]
      omega

theorem confirmationError_self {field label : String} {p : Bytes} (h : p ≠ []) :
    RegisterRequest.confirmationError field label p p = [] := by
  simp [RegisterRequest.confirmationError, h]

/-- A password that one of the two requests lets pass. -/
def Accepted (E : AppEnv) (p : Bytes) : Prop :=
  (∃ dto : RegisterRequest, dto.validate E = [] ∧ dto.password = p)
    ∨ ∃ dto : ChangePasswordRequest, dto.validate = [] ∧ dto.newPassword = p

theorem accepted_length {E : AppEnv} {p : Bytes} (h : Accepted E p) :
    8 ≤ p.length ∧ p.length ≤ 72 := by
  rcases h with ⟨dto, hvalid, rfl⟩ | ⟨dto, hvalid, rfl⟩
  · simp only [RegisterRequest.validate, List.append_eq_nil_iff] at hvalid
    exact passwordError_eq_nil.mp hvalid.1.2
  · simp only [ChangePasswordRequest.validate, List.append_eq_nil_iff,
      ChangePasswordRequest.newPasswordError] at hvalid
    obtain ⟨⟨-, herror⟩, -⟩ := hvalid
    refine (@passwordError_eq_nil "new_password" "New password" _).mp ?_
    by_contra hne
    rw [if_pos hne] at herror
    exact hne herror

/-- An email that `RegisterRequest` accepts. -/
def IsAddress (E : AppEnv) (email : Bytes) : Prop :=
  email ≠ [] ∧ E.customer.filterVarEmail email = true ∧ mbStrlen email ≤ 190

section Requests

variable {E : AppEnv} {email p : Bytes}

theorem register_valid (hemail : IsAddress E email) (hp : 8 ≤ p.length ∧ p.length ≤ 72) :
    RegisterRequest.validate E ⟨[97], email, p, p⟩ = [] := by
  obtain ⟨hne, hfilter, hlength⟩ := hemail
  have hnonempty : p ≠ [] := by
    rintro rfl
    exact absurd hp.1 (by decide)
  have hname : requiredText "name" "Name" 120 [97] = [] := by decide
  have haddress : RegisterRequest.emailError E ⟨[97], email, p, p⟩ = [] := by
    simp [RegisterRequest.emailError, hne, hfilter, hlength]
  simp only [RegisterRequest.validate, hname, haddress, passwordError_eq_nil.mpr hp,
    confirmationError_self hnonempty, List.append_nil]

theorem change_valid (hp : 8 ≤ p.length ∧ p.length ≤ 72) :
    ChangePasswordRequest.validate ⟨[97], p, p⟩ = [] := by
  have hnonempty : p ≠ [] := by
    rintro rfl
    exact absurd hp.1 (by decide)
  have hdiffers : p ≠ [97] := by
    rintro rfl
    exact absurd hp.1 (by decide)
  simp [ChangePasswordRequest.validate, ChangePasswordRequest.newPasswordError,
    passwordError_eq_nil.mpr hp, confirmationError_self hnonempty, hdiffers]

theorem login_valid (hemail : IsAddress E email) (hne : p ≠ []) :
    LoginRequest.validate E ⟨email, p⟩ = [] := by
  simp [LoginRequest.validate, hemail.1, hemail.2.1, hne]

end Requests

section Verify

variable {p q : Bytes}

theorem take_eq_iff (hp : p.length < 72) : q.take 72 = p.take 72 ↔ q = p := by
  rw [List.take_of_length_le (Nat.le_of_lt hp)]
  constructor
  · intro h
    have hlength : min 72 q.length = p.length := by rw [← List.length_take, h]
    rwa [List.take_of_length_le (by omega)] at h
  · rintro rfl
    exact List.take_of_length_le (Nat.le_of_lt hp)

theorem take_append_of_length (hp : p.length = 72) : (p ++ q).take 72 = p.take 72 := by
  rw [← hp, List.take_left, List.take_length]

variable {E : AppEnv} {db : AuthDb} {id : ℕ} {email salt hash : Bytes}

/-- An account with a password below 72 bytes is signed in to with it only. -/
theorem Holds.logsInExactly (h : Holds E.auth id email hash db) (hbcrypt : Bcrypt E.auth)
    (heq : Equivalence fun a b => E.auth.sqlEq a b = true)
    (hhash : E.auth.passwordHash salt p = some hash) (hp : p.length < 72) :
    LogsInExactly E id email p db := by
  intro evs hevs dto R now ua ip _ hemail hnew
  rw [(h.calls hevs).login_iff heq hemail hnew, hbcrypt.verifies hhash, take_eq_iff hp]

/-- With 72 bytes, it is also signed in to with more. -/
theorem Holds.not_logsInExactly (h : Holds E.auth id email hash db) (hbcrypt : Bcrypt E.auth)
    (heq : Equivalence fun a b => E.auth.sqlEq a b = true)
    (hhash : E.auth.passwordHash salt p = some hash) (hp : p.length = 72)
    (hemail : IsAddress E email) {R : Entropy}
    (hnew : ∀ r ∈ db.refreshToken.rows, r.tokenHash ≠ E.auth.sha256 R.token) :
    ¬ LogsInExactly E id email p db := by
  intro hexact
  have hlogin := hexact [] (by simp) ⟨email, p ++ [97]⟩ R 0 none none
    (login_valid hemail (by simp)) (heq.refl email) hnew
  rw [show (course E.auth db []).db = db from rfl, h.login_iff heq (heq.refl email) hnew,
    hbcrypt.verifies hhash] at hlogin
  have hsame : p ++ [97] = p := hlogin.mp (take_append_of_length hp)
  simp at hsame

end Verify

section Register

variable {E : AuthEnv} {R : Entropy} {db : AuthDb} {now : Int} {ua ip : Option Bytes}
variable {dto : RegisterRequest}

theorem createSession_ne_valueError {user : UserRow} {familyId : Option Bytes} :
    ((createSession E R user ua ip familyId).run E.exec now db).1 ≠ .error .valueError := by
  rw [createSession_run]
  split_ifs <;> simp

theorem register_ne_valueError (h : E.passwordHash R.salt dto.password ≠ none) :
    ((register E R dto ua ip).run E.exec now db).1 ≠ .error .valueError := by
  obtain ⟨hash, hhash⟩ := Option.ne_none_iff_exists'.mp h
  rw [register_run, hhash]
  split_ifs with htaken
  · simp [Failure.validation]
  · unfold UserModel.create
    split_ifs with hunique
    · simp
    · simp only
      split
      · simp [Failure.appException]
      · exact createSession_ne_valueError

/-- A registration that returned has made the account, with a hash of the password. -/
theorem register_holds {s : Session} (hschema : UserSchema E.sqlEq db.user)
    (h : ((register E R dto ua ip).run E.exec now db).1 = .ok s) :
    ∃ hash, E.passwordHash R.salt dto.password = some hash
      ∧ Holds E s.user.id dto.email hash ((register E R dto ua ip).run E.exec now db).2 := by
  rw [register_run] at h ⊢
  split_ifs at h ⊢ with htaken
  cases hhash : E.passwordHash R.salt dto.password with
  | none => simp [hhash] at h
  | some hash =>
    refine ⟨hash, rfl, ?_⟩
    simp only [hhash] at h ⊢
    by_cases hunique : 0 < db.user.affected fun r => E.sqlEq r.email dto.email
    · simp [UserModel.create, hunique] at h
    · have hfree := Table.not_affected_pos.mp hunique
      simp only [UserModel.create, if_neg hunique] at h ⊢
      split at h
      · cases h
      · rename_i user hfound
        simp only [createSession_run] at h ⊢
        split_ifs at h ⊢ with hcollision
        obtain rfl := Except.ok.inj h
        rw [sessionFor_user_id, UserModel.findById_id hfound]
        let row (id : ℕ) : UserRow := ⟨id, dto.name, dto.email, hash, UserType.staff, none,
          E.zone.date now, some (E.zone.date now), none⟩
        exact hschema.holds_insert (show _ = db.user.insert row from rfl) (fun _ => rfl)
          (fun _ => rfl) hfree

/-- Where there are no accounts yet, registering creates one. -/
theorem register_first {hash : Bytes} (hhash : E.passwordHash R.salt dto.password = some hash) :
    ∃ s, ((register E R dto ua ip).run E.exec now ⟨⟨[], 1⟩, ⟨[], 1⟩⟩).1 = .ok s
      ∧ ∀ r ∈ ((register E R dto ua ip).run E.exec now ⟨⟨[], 1⟩, ⟨[], 1⟩⟩).2.refreshToken.rows,
        r.tokenHash = E.sha256 R.token := by
  simp [register_run, UserModel.existsByEmail, Table.affected, hhash, UserModel.create,
    UserModel.findById, Table.first, Table.insert, createSession_run]

end Register

section Change

variable {E : AuthEnv} {R : Entropy} {db : AuthDb} {now : Int} {id : ℕ} {token : Option Bytes}
variable {dto : ChangePasswordRequest}

theorem changePassword_ne_valueError (h : E.passwordHash R.salt dto.newPassword ≠ none) :
    ((changePassword E R id dto token).run E.exec now db).1 ≠ .error .valueError := by
  rw [changePassword_run]
  obtain ⟨hash, hhash⟩ := Option.ne_none_iff_exists'.mp h
  cases UserModel.findById db id with
  | none => simp [Failure.validation]
  | some user =>
    simp only [hhash]
    split_ifs <;> simp [Failure.validation]

theorem changePassword_holds {user : UserRow} (hschema : UserSchema E.sqlEq db.user)
    (hfound : UserModel.findById db id = some user)
    (h : ((changePassword E R id dto token).run E.exec now db).1 = .ok ()) :
    ∃ hash, E.passwordHash R.salt dto.newPassword = some hash
      ∧ Holds E id user.email hash ((changePassword E R id dto token).run E.exec now db).2 := by
  rw [changePassword_run, hfound] at h ⊢
  simp only at h ⊢
  split_ifs at h ⊢ with hverify
  cases hhash : E.passwordHash R.salt dto.newPassword with
  | none => simp [hhash] at h
  | some hash =>
    obtain ⟨hmem, hp⟩ := Table.first_mem hfound
    simp only [Bool.and_eq_true, decide_eq_true_eq, Option.isNone_iff_eq_none] at hp
    refine ⟨hash, rfl, hschema.update (fun _ => rfl) (fun _ => rfl), _,
      Table.mem_update_of_mem hmem, ?_⟩
    rw [if_pos (by simpa using hp.1)]
    exact ⟨hp.1, rfl, rfl, hp.2⟩

end Change

/-! ## The password law -/

section Law

variable {E : AppEnv} {p : Bytes}

theorem registersExactly_iff (hbcrypt : Bcrypt E.auth)
    (heq : Equivalence fun a b => E.auth.sqlEq a b = true)
    (hsha : ∃ a b, E.auth.sha256 a ≠ E.auth.sha256 b) {email : Bytes} (hemail : IsAddress E email)
    (hp : 8 ≤ p.length ∧ p.length ≤ 72) :
    RegistersExactly E p ↔ 0 ∉ p ∧ p.length < 72 := by
  constructor
  · intro h
    obtain ⟨a, b, hab⟩ := hsha
    have hempty : UserSchema E.auth.sqlEq (⟨[], 1⟩ : Table UserRow) :=
      ⟨⟨List.Pairwise.nil, by simp⟩, List.Pairwise.nil⟩
    obtain ⟨herror, hexact⟩ := h _ (register_valid hemail hp) rfl ⟨⟨[], 1⟩, ⟨[], 1⟩⟩ ⟨a, [], []⟩ 0
      none none hempty
    have hnul : 0 ∉ p := by
      intro hnul
      refine herror ?_
      simp [register_run, UserModel.existsByEmail, Table.affected, (hbcrypt.refuses [] p).mpr hnul]
    refine ⟨hnul, lt_of_le_of_ne hp.2 fun hlength => ?_⟩
    obtain ⟨hash, hhash⟩ :=
      Option.ne_none_iff_exists'.mp fun hnone => hnul ((hbcrypt.refuses [] p).mp hnone)
    obtain ⟨s, hs, htokens⟩ := @register_first E.auth ⟨a, [], []⟩ 0 none none ⟨[97], email, p, p⟩
      hash hhash
    obtain ⟨hash', hhash', hholds⟩ := register_holds hempty hs
    refine hholds.not_logsInExactly hbcrypt heq hhash' hlength hemail (R := ⟨b, [], []⟩) ?_
      (hexact s hs)
    intro r hr hsame
    exact hab ((htokens r hr).symm.trans hsame)
  · rintro ⟨hnul, hlength⟩ dto - rfl db R now ua ip hschema
    have hhash : E.auth.passwordHash R.salt dto.password ≠ none := fun hnone =>
      hnul ((hbcrypt.refuses _ _).mp hnone)
    refine ⟨register_ne_valueError hhash, fun s hs => ?_⟩
    obtain ⟨hash, hhash, hholds⟩ := register_holds hschema hs
    exact hholds.logsInExactly hbcrypt heq hhash hlength

/-- Tables with one account, whose password is about to change. -/
def onlyUser (email hash : Bytes) : AuthDb :=
  ⟨⟨[⟨1, [97], email, hash, [], none, ⟨0⟩, none, none⟩], 2⟩, ⟨[], 1⟩⟩

theorem changesExactly_iff (hbcrypt : Bcrypt E.auth)
    (heq : Equivalence fun a b => E.auth.sqlEq a b = true) {email : Bytes}
    (hemail : IsAddress E email) (hp : 8 ≤ p.length ∧ p.length ≤ 72) :
    ChangesExactly E p ↔ 0 ∉ p ∧ p.length < 72 := by
  constructor
  · intro h
    obtain ⟨current, hcurrent⟩ := Option.ne_none_iff_exists'.mp fun hnone =>
      absurd ((hbcrypt.refuses [] [97]).mp hnone) (by decide)
    have hverify : E.auth.passwordVerify [97] current = true :=
      (hbcrypt.verifies hcurrent [97]).mpr rfl
    have hschema : UserSchema E.auth.sqlEq (onlyUser email current).user :=
      ⟨⟨List.pairwise_singleton _ _, by simp [onlyUser]⟩, List.pairwise_singleton _ _⟩
    obtain ⟨herror, hexact⟩ := h _ (change_valid hp) rfl (onlyUser email current) ⟨[], [], []⟩ 0 1
      none hschema
    have hnul : 0 ∉ p := by
      intro hnul
      refine herror ?_
      simp [changePassword_run, onlyUser, UserModel.findById, Table.first, hverify,
        (hbcrypt.refuses [] p).mpr hnul]
    refine ⟨hnul, lt_of_le_of_ne hp.2 fun hlength => ?_⟩
    obtain ⟨hash, hhash⟩ :=
      Option.ne_none_iff_exists'.mp fun hnone => hnul ((hbcrypt.refuses [] p).mp hnone)
    have hok : ((changePassword E.auth ⟨[], [], []⟩ 1 ⟨[97], p, p⟩ none).run E.auth.exec 0
        (onlyUser email current)).1 = .ok () := by
      simp [changePassword_run, onlyUser, UserModel.findById, Table.first, hverify, hhash]
    obtain ⟨hash', hhash', hholds⟩ := changePassword_holds hschema rfl hok
    refine hholds.not_logsInExactly hbcrypt heq hhash' hlength hemail (R := ⟨[], [], []⟩) ?_
      (hexact _ rfl hok)
    simp [changePassword_run, onlyUser, UserModel.findById, Table.first, hverify, hhash,
      UserModel.updatePassword, UserModel.updateById]
  · rintro ⟨hnul, hlength⟩ dto - rfl db R now id token hschema
    have hhash : E.auth.passwordHash R.salt dto.newPassword ≠ none := fun hnone =>
      hnul ((hbcrypt.refuses _ _).mp hnone)
    refine ⟨changePassword_ne_valueError hhash, fun user hfound hs => ?_⟩
    obtain ⟨hash, hhash, hholds⟩ := changePassword_holds hschema hfound hs
    exact hholds.logsInExactly hbcrypt heq hhash hlength

end Law

/-- Of the passwords that the requests accept, those with no NUL and fewer than 72 bytes are exact,
by registering as by a change. -/
theorem passwords_exact_iff (E : AppEnv) (hbcrypt : Bcrypt E.auth)
    (heq : Equivalence fun a b => E.auth.sqlEq a b = true)
    (hsha : ∃ a b, E.auth.sha256 a ≠ E.auth.sha256 b) (haddress : ∃ email, IsAddress E email)
    {p : Bytes} (hp : Accepted E p) :
    (RegistersExactly E p ↔ 0 ∉ p ∧ p.length < 72)
      ∧ (ChangesExactly E p ↔ 0 ∉ p ∧ p.length < 72) := by
  obtain ⟨email, hemail⟩ := haddress
  exact ⟨registersExactly_iff hbcrypt heq hsha hemail (accepted_length hp),
    changesExactly_iff hbcrypt heq hemail (accepted_length hp)⟩

/-! ## A sample setting -/

namespace PasswordSample

/-- A salt-free bcrypt, whose hash is what it sees of the password. -/
def env : AppEnv := { AppSample.env with
  auth := { Sample.env with
    passwordHash := fun _ p => if 0 ∈ p then none else some (p.take 72)
    passwordVerify := fun q hash => q.take 72 = hash } }

theorem bcrypt : Bcrypt env.auth where
  refuses := by simp [env]
  verifies := by
    intro salt p hash hhash q
    simp only [env] at hhash ⊢
    split_ifs at hhash
    obtain rfl := Option.some.inj hhash
    simp

theorem equivalence : Equivalence fun a b => env.auth.sqlEq a b = true where
  refl := by simp [env, Sample.env]
  symm := by
    intro a b h
    simpa [env, Sample.env, eq_comm] using h
  trans := by
    intro a b c hab hbc
    simp only [env, Sample.env, decide_eq_true_eq] at hab hbc ⊢
    exact hab.trans hbc

theorem sha256_distinct : ∃ a b, env.auth.sha256 a ≠ env.auth.sha256 b :=
  ⟨[], [0], Sample.sha256.injective.ne (by decide)⟩

theorem isAddress : IsAddress env (ascii "ann@example.com") := by
  refine ⟨by decide +kernel, ?_, by decide +kernel⟩
  decide +kernel

theorem accepted {p : Bytes} (h : 8 ≤ p.length ∧ p.length ≤ 72) : Accepted env p :=
  .inl ⟨_, register_valid isAddress h, rfl⟩

end PasswordSample

open PasswordSample

theorem passwords_exact_sample :
    RegistersExactly env (ascii "secret-1") ∧ ChangesExactly env (ascii "secret-1") := by
  have hlength : 8 ≤ (ascii "secret-1").length ∧ (ascii "secret-1").length ≤ 72 := by decide
  have hexact : 0 ∉ ascii "secret-1" ∧ (ascii "secret-1").length < 72 := by decide +kernel
  have hiff := passwords_exact_iff env bcrypt equivalence sha256_distinct ⟨_, isAddress⟩
    (accepted hlength)
  exact ⟨hiff.1.mpr hexact, hiff.2.mpr hexact⟩

/-- A password of 72 bytes is accepted, and one more byte is not noticed; a password with a NUL is
accepted, and `password_hash` throws. -/
theorem accepted_passwords_not_exact :
    (Accepted env (List.replicate 72 97) ∧ ¬ RegistersExactly env (List.replicate 72 97)
        ∧ ¬ ChangesExactly env (List.replicate 72 97))
      ∧ Accepted env (ascii "secret-1" ++ [0])
        ∧ ¬ RegistersExactly env (ascii "secret-1" ++ [0])
        ∧ ¬ ChangesExactly env (ascii "secret-1" ++ [0]) := by
  have hfull : 8 ≤ (List.replicate 72 (97 : UInt8)).length
      ∧ (List.replicate 72 (97 : UInt8)).length ≤ 72 := by decide
  have hnul : 8 ≤ (ascii "secret-1" ++ [0]).length ∧ (ascii "secret-1" ++ [0]).length ≤ 72 := by
    decide
  have hregister := fun {p : Bytes} =>
    @registersExactly_iff env p bcrypt equivalence sha256_distinct _ isAddress
  have hchange := fun {p : Bytes} => @changesExactly_iff env p bcrypt equivalence _ isAddress
  refine ⟨⟨accepted hfull, ?_, ?_⟩, accepted hnul, ?_, ?_⟩
  · rw [hregister hfull]
    simp
  · rw [hchange hfull]
    simp
  · rw [hregister hnul]
    simp
  · rw [hchange hnul]
    simp

end SlimStarter
