import SlimStarter.Auth.History
import SlimStarter.Lib.Interrupt

/-!
# Session operations that fail halfway

`register`, `refresh` and `changePassword` issue their statements one by one, outside of a
transaction, and hand on the failure of any of them (`AuthCall.rethrows`). So a call whose `n`-th
statement fails leaves what the statements before it wrote: the tables are as they were exactly
where none of them wrote, or where a password change wrote what was there (`session_untouched_iff`).

A refresh that fails past the revocation leaves the presented token revoked. A client that tries
again with it is taken for a thief, and loses the family (`refresh_again`).
-/

namespace SlimStarter

open AuthService RefreshTokenModel

variable {E : AuthEnv} {R : Entropy} {now : Int} {db : AuthDb} {n : ℕ}
variable {userAgent ipAddress : Option Bytes}

section Rethrows

open Prog (Rethrows rethrows_stmt rethrows_time)

theorem rethrows_passwordHash (password : Bytes) : Rethrows (passwordHash E R password) := by
  unfold passwordHash
  cases E.passwordHash R.salt password <;> trivial

theorem rethrows_createSession (user : UserRow) (familyId : Option Bytes) :
    Rethrows (createSession E R user userAgent ipAddress familyId) :=
  rethrows_time.bind fun _ => rethrows_stmt.bind fun _ => rethrows_stmt.bind fun _ =>
    rethrows_time.bind fun _ => trivial

theorem rethrows_register (dto : RegisterRequest) :
    Rethrows (register E R dto userAgent ipAddress) := by
  refine rethrows_stmt.bind fun taken => ?_
  cases taken
  · refine (rethrows_passwordHash _).bind fun hash => rethrows_stmt.bind fun _ =>
      rethrows_stmt.bind fun user => ?_
    cases user with
    | none => trivial
    | some user => exact rethrows_createSession user none
  · trivial

theorem rethrows_refresh (token : Bytes) : Rethrows (refresh E R token userAgent ipAddress) := by
  refine rethrows_stmt.bind fun row => ?_
  cases row with
  | none => trivial
  | some row =>
    simp only
    split_ifs
    · exact rethrows_stmt.bind fun _ => trivial
    · refine rethrows_time.bind fun _ => ?_
      split_ifs
      · exact rethrows_stmt.bind fun _ => trivial
      · refine rethrows_stmt.bind fun user => ?_
        cases user with
        | none => trivial
        | some user => exact rethrows_stmt.bind fun _ => rethrows_createSession user _

theorem rethrows_revokeOthers (id : ℕ) (kept : Option Bytes) : Rethrows (revokeOthers id kept) := by
  cases kept <;> exact rethrows_stmt.bind fun _ => trivial

theorem rethrows_changePassword (id : ℕ) (dto : ChangePasswordRequest) (token : Option Bytes) :
    Rethrows (changePassword E R id dto token) := by
  refine rethrows_stmt.bind fun user => ?_
  cases user with
  | none => trivial
  | some user =>
    simp only
    split_ifs
    · refine (rethrows_passwordHash _).bind fun hash => rethrows_stmt.bind fun _ => ?_
      cases token with
      | none => exact rethrows_revokeOthers id none
      | some token => exact rethrows_stmt.bind fun row => rethrows_revokeOthers id _
    · trivial

end Rethrows

/-! ## What was written when a statement fails -/

/-- After `n` statements the program stands at another one. -/
def Stopped (E : AuthEnv) (now : Int) (n : ℕ) {α : Type} (p : AuthProg α) (db : AuthDb) : Prop :=
  ((p.steps E.exec now n db).1.statement?).isSome = true

theorem tokenCreate_cases (i : LocalTime) (db : AuthDb) (userId : ℕ) (familyId tokenHash : Bytes)
    (expiresAt : LocalTime) (ua ip : Option Bytes) :
    (∃ e, RefreshTokenModel.create i db userId familyId tokenHash expiresAt ua ip = (.error e, db))
      ∨ ∃ id row, RefreshTokenModel.create i db userId familyId tokenHash expiresAt ua ip =
        (.ok id, { db with refreshToken := db.refreshToken.insert row }) := by
  unfold RefreshTokenModel.create
  split_ifs
  · exact .inl ⟨_, rfl⟩
  · exact .inr ⟨_, _, rfl⟩

/-- A session in the making has added no row, or its own. -/
theorem stopped_createSession {user : UserRow} {familyId : Option Bytes}
    (h : Stopped E now n (createSession E R user userAgent ipAddress familyId) db) :
    let after := ((createSession E R user userAgent ipAddress familyId).steps E.exec now n db).2
    after = db ∨ ∃ row, after = { db with refreshToken := db.refreshToken.insert row } := by
  simp only [Stopped, createSession, buildAccessToken, Prog.time_bind, Prog.stmt_bind,
    Prog.steps_clock] at h ⊢
  rcases n with _ | n
  · exact .inl rfl
  · simp only [Prog.steps_succ_call, AuthEnv.exec] at h ⊢
    rcases tokenCreate_cases (E.zone.date now) db user.id (familyId.getD R.family)
      (E.sha256 R.token) (E.zone.date (now + ttlSeconds E.ttlDays)) userAgent ipAddress with
      ⟨e, hcreate⟩ | ⟨id, row, hcreate⟩
    · rw [hcreate] at h
      simp [Prog.statement?] at h
    · rw [hcreate] at h ⊢
      refine .inr ⟨row, ?_⟩
      rcases n with _ | n
      · rfl
      · simp [Prog.steps_succ_call, AuthEnv.exec]

/-- A registration has added the account after two statements, and not before. -/
theorem stopped_register {dto : RegisterRequest}
    (h : Stopped E now n (register E R dto userAgent ipAddress) db) :
    let after := ((register E R dto userAgent ipAddress).steps E.exec now n db).2
    after = db ↔ n ≤ 1 := by
  simp only [Stopped, register, passwordHash, Prog.stmt_bind] at h ⊢
  rcases n with _ | n
  · simp
  · simp only [Prog.steps_succ_call, AuthEnv.exec, Prog.resume_ok] at h ⊢
    split_ifs at h ⊢
    · simp [Prog.statement?] at h
    · cases hhash : E.passwordHash R.salt dto.password with
      | none => simp [hhash, Prog.statement?] at h
      | some hash =>
        simp only [hhash, Prog.pure_eq, Prog.ret_bind] at h ⊢
        rcases n with _ | n
        · simp
        · simp only [Prog.steps_succ_call, AuthEnv.exec, UserModel.create] at h ⊢
          split_ifs at h ⊢ with htaken
          · simp [Prog.statement?] at h
          · have hne : ∀ after : AuthDb, after.user.autoIncrement = db.user.autoIncrement + 1 →
                (after = db ↔ n + 1 + 1 ≤ 1) := by
              intro after hafter
              refine ⟨fun heq => ?_, fun hle => by omega⟩
              rw [heq] at hafter
              omega
            refine hne _ ?_
            simp only [Prog.resume_ok] at h ⊢
            rcases n with _ | n
            · rfl
            · simp only [Prog.steps_succ_call, AuthEnv.exec, Prog.resume_ok] at h ⊢
              generalize UserModel.findById _ db.user.autoIncrement = found at h ⊢
              cases found with
              | none => simp [Prog.statement?] at h
              | some user =>
                rcases stopped_createSession h with hafter | ⟨row, hafter⟩ <;>
                  (simp only; rw [hafter]; rfl)

/-- A refresh has revoked the token after three statements, and not before. -/
theorem stopped_refresh_cases {token : Bytes}
    (h : Stopped E now n (refresh E R token userAgent ipAddress) db) :
    let after := ((refresh E R token userAgent ipAddress).steps E.exec now n db).2
    n ≤ 2 ∧ after = db
      ∨ 2 < n ∧ ∃ row rows, findByHash db (E.sha256 token) = some row ∧ row.revokedAt = none
        ∧ after.refreshToken.rows =
          db.refreshToken.rows.map (revoked (E.zone.date now) (·.id = row.id)) ++ rows := by
  simp only [Stopped, refresh, Prog.stmt_bind] at h ⊢
  rcases n with _ | n
  · exact .inl ⟨by omega, rfl⟩
  · simp only [Prog.steps_succ_call, AuthEnv.exec, Prog.resume_ok] at h ⊢
    cases hrow : findByHash db (E.sha256 token) with
    | none => simp [hrow, Prog.statement?] at h
    | some row =>
      simp only [hrow] at h ⊢
      split_ifs at h ⊢ with hrevoked
      · -- The family of a token that came back: only its own update was ahead.
        rcases n with _ | n
        · exact .inl ⟨by omega, rfl⟩
        · simp [Prog.steps_succ_call, AuthEnv.exec, updated, Prog.statement?] at h
      · simp only [Prog.time_bind, Prog.steps_clock] at h ⊢
        split_ifs at h ⊢ with hexpired
        · rcases n with _ | n
          · exact .inl ⟨by omega, rfl⟩
          · simp [Prog.steps_succ_call, AuthEnv.exec, updated, Prog.statement?] at h
        · simp only [rotate, Prog.stmt_bind] at h ⊢
          rcases n with _ | n
          · exact .inl ⟨by omega, rfl⟩
          · simp only [Prog.steps_succ_call, AuthEnv.exec, Prog.resume_ok] at h ⊢
            cases huser : UserModel.findById db row.userId with
            | none => simp [huser, Prog.statement?] at h
            | some user =>
              simp only [huser, rotateAs, Prog.stmt_bind] at h ⊢
              rcases n with _ | n
              · exact .inl ⟨by omega, rfl⟩
              · simp only [Prog.steps_succ_call, AuthEnv.exec, updated, Prog.resume_ok] at h ⊢
                refine .inr ⟨by omega, row, ?_⟩
                rcases stopped_createSession h with hafter | ⟨row', hafter⟩
                · exact ⟨[], rfl, by simpa using hrevoked, by rw [hafter]; simp [revoke]⟩
                · exact ⟨_, rfl, by simpa using hrevoked, by rw [hafter]; rfl⟩

theorem stopped_refresh {token : Bytes}
    (h : Stopped E now n (refresh E R token userAgent ipAddress) db) :
    let after := ((refresh E R token userAgent ipAddress).steps E.exec now n db).2
    after = db ↔ n ≤ 2 := by
  intro after
  rcases stopped_refresh_cases h with ⟨hle, hafter⟩ | ⟨hlt, row, rows, hrow, hlive, hrows⟩
  · exact ⟨fun _ => hle, fun _ => hafter⟩
  · refine ⟨fun heq => ?_, fun hle => by omega⟩
    obtain ⟨hmem, -⟩ := findByHash_mem hrow
    have hmap : db.refreshToken.rows.map (revoked (E.zone.date now) (·.id = row.id)) =
        db.refreshToken.rows := by
      have hall := hrows.symm.trans (congrArg (fun db => db.refreshToken.rows) heq)
      simpa using congrArg (List.take db.refreshToken.rows.length) hall
    have hsame : revoked (E.zone.date now) (·.id = row.id) row = row :=
      List.map_inj_left.mp (hmap.trans (List.map_id _).symm) row hmem
    have hgone : (revoked (E.zone.date now) (·.id = row.id) row).revokedAt = none := by
      rw [hsame, hlive]
    simp [revoked_eq_none] at hgone

/-- A password change that writes the hash and the time that the account has already. -/
def SamePassword (E : AuthEnv) (R : Entropy) (now : Int) (db : AuthDb) (id : ℕ)
    (dto : ChangePasswordRequest) : Prop :=
  ∀ u ∈ db.user.rows, u.id = id →
    E.passwordHash R.salt dto.newPassword = some u.passwordHash
      ∧ u.updatedAt = some (E.zone.date now)

theorem updateById_eq_self_iff {id : ℕ} {f : UserRow → UserRow} :
    (UserModel.updateById db id f).2 = db ↔ ∀ u ∈ db.user.rows, u.id = id → f u = u := by
  have hrows : (UserModel.updateById db id f).2 = db ↔
      db.user.rows.map (fun u => if decide (u.id = id) = true then f u else u) =
        db.user.rows := by
    refine ⟨fun h => congrArg (fun db => db.user.rows) h, fun h => ?_⟩
    obtain ⟨⟨rows, next⟩, tokens⟩ := db
    simpa [UserModel.updateById, Table.update] using h
  have hid := List.map_id db.user.rows
  rw [hrows]
  constructor
  · intro h u hu huid
    have hsame := List.map_inj_left.mp (h.trans hid.symm) u hu
    simpa [huid] using hsame
  · intro h
    refine Eq.trans (List.map_congr_left fun u hu => ?_) hid
    by_cases huid : u.id = id
    · simpa [huid] using h u hu huid
    · simp [huid]

/-- A password change has written the password after two statements, and not before. -/
theorem stopped_changePassword {id : ℕ} {dto : ChangePasswordRequest} {token : Option Bytes}
    (h : Stopped E now n (changePassword E R id dto token) db) :
    let after := ((changePassword E R id dto token).steps E.exec now n db).2
    after = db ↔ n ≤ 1 ∨ SamePassword E R now db id dto := by
  simp only [Stopped, changePassword, passwordHash, Prog.stmt_bind] at h ⊢
  rcases n with _ | n
  · simp
  · simp only [Prog.steps_succ_call, AuthEnv.exec, Prog.resume_ok] at h ⊢
    cases hfound : UserModel.findById db id with
    | none => simp [hfound, Prog.statement?] at h
    | some user =>
      simp only [hfound] at h ⊢
      split_ifs at h ⊢
      · cases hhash : E.passwordHash R.salt dto.newPassword with
        | none => simp [hhash, Prog.statement?] at h
        | some hash =>
          simp only [hhash, Prog.pure_eq, Prog.ret_bind] at h ⊢
          rcases n with _ | n
          · simp
          · simp only [Prog.steps_succ_call, AuthEnv.exec, updated, Prog.resume_ok] at h ⊢
            have hwritten : ∀ after : AuthDb,
                after = (UserModel.updatePassword (E.zone.date now) db id hash).2 →
                (after = db ↔ n + 1 + 1 ≤ 1 ∨ SamePassword E R now db id dto) := by
              rintro after rfl
              have hrow : ∀ u : UserRow,
                  { u with passwordHash := hash, updatedAt := some (E.zone.date now) } = u ↔
                    some hash = some u.passwordHash ∧ u.updatedAt = some (E.zone.date now) := by
                rintro ⟨⟩
                simp [eq_comm]
              simp only [UserModel.updatePassword, updateById_eq_self_iff, SamePassword, hhash,
                hrow]
              refine ⟨.inr, fun hsame => ?_⟩
              rcases hsame with hle | hsame
              · omega
              · exact hsame
            refine hwritten _ ?_
            -- What is left only reads, up to the revocation that ends it.
            cases token with
            | none =>
              simp only [revokeOthers, Prog.stmt_bind] at h ⊢
              rcases n with _ | n
              · rfl
              · simp [Prog.steps_succ_call, AuthEnv.exec, updated, Prog.statement?] at h
            | some token =>
              simp only at h ⊢
              rcases n with _ | n
              · rfl
              · simp only [Prog.steps_succ_call, AuthEnv.exec, Prog.resume_ok] at h ⊢
                generalize Option.map _ (findByHash _ (E.sha256 token)) = kept at h ⊢
                cases kept <;>
                · simp only [revokeOthers, Prog.stmt_bind] at h ⊢
                  rcases n with _ | n
                  · rfl
                  · simp [Prog.steps_succ_call, AuthEnv.exec, updated, Prog.statement?] at h
      · simp [Prog.statement?] at h

/-- The operations that write a session. -/
def AuthCall.writesSession : AuthCall → Bool
  | .register .. | .refresh .. | .changePassword .. => true
  | _ => false

/-- The statement after the first `n` comes no later than the first write of the call, or the
statements before it wrote what was there. -/
def AuthCall.Untouched (E : AuthEnv) (R : Entropy) (now : Int) (db : AuthDb) (n : ℕ) :
    AuthCall → Prop
  | .register .. => n ≤ 1
  | .refresh .. => n ≤ 2
  | .changePassword id dto _ => n ≤ 1 ∨ SamePassword E R now db id dto
  | _ => False

variable {c : AuthCall}

theorem AuthCall.rethrows (h : c.writesSession = true) : Prog.Rethrows (c.prog E R) := by
  cases c with
  | register dto ua ip => exact (rethrows_register dto).map
  | refresh token ua ip => exact (rethrows_refresh token).map
  | changePassword id dto token => exact (rethrows_changePassword id dto token).map
  | _ => cases h

/-- Where a statement of a session operation fails, the call throws, and the tables are as they were
before it exactly if nothing was written until then. -/
theorem session_untouched_iff (e : Failure) (hc : c.writesSession = true)
    (hat : Stopped E now n (c.prog E R) db) :
    let stopped := (c.prog E R).steps E.exec now n db
    let after := (stopped.1.failed e).run E.exec now stopped.2
    after.1 = .error e ∧ (after.2 = db ↔ c.Untouched E R now db n) := by
  intro stopped after
  obtain ⟨op, hop⟩ := Option.isSome_iff_exists.mp hat
  have hafter : after = (.error e, stopped.2) := by
    simp only [after, stopped, (AuthCall.rethrows hc).failed hop e]
    rfl
  rw [hafter]
  refine ⟨rfl, ?_⟩
  cases c with
  | register dto ua ip =>
    simp only [Stopped, AuthCall.prog, Prog.steps_map, Prog.statement?_map] at hat
    simp only [stopped, AuthCall.prog, Prog.steps_map]
    exact stopped_register hat
  | refresh token ua ip =>
    simp only [Stopped, AuthCall.prog, Prog.steps_map, Prog.statement?_map] at hat
    simp only [stopped, AuthCall.prog, Prog.steps_map]
    exact stopped_refresh hat
  | changePassword id dto token =>
    simp only [Stopped, AuthCall.prog, Prog.steps_map, Prog.statement?_map] at hat
    simp only [stopped, AuthCall.prog, Prog.steps_map]
    exact stopped_changePassword hat
  | _ => cases hc

/-- A refresh that fails past the revocation has used the token up: presented again, it makes the
whole family go. -/
theorem refresh_again {token : Bytes} (R' : Entropy) (now' : Int) (hn : 2 < n)
    (hat : Stopped E now n (refresh E R token userAgent ipAddress) db) :
    let after := ((refresh E R token userAgent ipAddress).steps E.exec now n db).2
    let again := (refresh E R' token userAgent ipAddress).run E.exec now' after
    ∃ row, findByHash db (E.sha256 token) = some row
      ∧ again.1 = .error (.appException "Session is no longer valid. Please sign in again."
        HttpStatus.unauthorized)
      ∧ ∀ r ∈ again.2.refreshToken.rows, r.familyId = row.familyId → r.revokedAt ≠ none := by
  intro after again
  rcases stopped_refresh_cases hat with ⟨hle, -⟩ | ⟨-, row, rows, hrow, hlive, hrows⟩
  · omega
  · let used := revoked (E.zone.date now) (·.id = row.id) row
    have hused : findByHash after (E.sha256 token) = some used := by
      have hkeeps : ((fun r : RefreshTokenRow => decide (r.tokenHash = E.sha256 token)) ∘
          revoked (E.zone.date now) (·.id = row.id)) =
        fun r => decide (r.tokenHash = E.sha256 token) :=
        funext fun r => by simp
      have hfirst : db.refreshToken.rows.find? (·.tokenHash = E.sha256 token) = some row := hrow
      simp only [findByHash, Table.first, after, hrows, List.find?_append, List.find?_map, hkeeps,
        hfirst]
      rfl
    have hrevoked : used.revokedAt.isSome = true := by
      simp [used, revoked, hlive]
    have hagain : again = _ := refresh_run E R' now' after userAgent ipAddress token
    simp only [hused, hrevoked, if_true] at hagain
    refine ⟨row, hrow, congrArg Prod.fst hagain, ?_⟩
    rw [hagain]
    simp only [revokeFamily, revokeWhere_rows, List.mem_map]
    rintro r ⟨r', -, rfl⟩ hfamily hnone
    rw [revoked_familyId] at hfamily
    have hspared := (revoked_eq_none.mp hnone).2
    simp [used, hfamily] at hspared

/-! ## Sample failures -/

namespace Sample

/-- The session of the first token. -/
def signedIn : AuthDb := (course env Sample.db [register 1 1000]).db

end Sample

open Sample in
theorem session_untouched_sample :
    let c := AuthCall.refresh (token 1) none none
    let stopped := (c.prog env (entropy 2)).steps env.exec 2000 2 signedIn
    let after := (stopped.1.failed .database).run env.exec 2000 stopped.2
    after.1 = .error .database
      ∧ (after.2 = signedIn ↔ c.Untouched env (entropy 2) 2000 signedIn 2) :=
  session_untouched_iff (c := .refresh (token 1) none none) .database rfl
    (by unfold Stopped; decide +kernel)

open Sample in
/-- A refresh whose insert fails leaves the client a token that is revoked. -/
theorem refresh_fails_halfway :
    let p := AuthCall.prog env (entropy 2) (.refresh (token 1) none none)
    let stopped := p.steps env.exec 2000 3 signedIn
    stopped.1.statement?.isSome = true
      ∧ ((stopped.1.failed .database).run env.exec 2000 stopped.2).1 = .error .database
      ∧ ((stopped.1.failed .database).run env.exec 2000 stopped.2).2 ≠ signedIn := by
  decide +kernel

end SlimStarter
