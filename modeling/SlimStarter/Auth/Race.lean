import SlimStarter.Lib.Pool
import SlimStarter.Auth.Families

/-!
# Sessions under interleaving

A pool of calls of `AuthService`, interleaved at single SQL statements, any of which can fail. A
`Phase` says how far a call has come towards adding its `refresh_token` row, and `Stands` ties it to
what is left of the program; `Stands.step` goes through the programs once.

`Tracked` is what holds of every pool whose calls draw fresh family ids, and `Tracked.step` says
what an act does to the table and the phases.
-/

namespace SlimStarter

open AuthService RefreshTokenModel
open Prog (Only Once)

abbrev AuthPool : Type :=
  Pool (AuthCall × Entropy) AuthDb AuthStmt AuthStmt.Res Int Failure AuthResult

abbrev AuthProc : Type :=
  Proc (AuthCall × Entropy) AuthStmt AuthStmt.Res Int Failure AuthResult

abbrev AuthAct : Type := Act (AuthCall × Entropy) Int Failure

/-- The program of a call with its random bytes. -/
def AuthPool.start (E : AuthEnv) (c : AuthCall × Entropy) : AuthProg AuthResult := c.1.prog E c.2

/-- A pool that has made no call. -/
def AuthPool.idle (db : AuthDb) (now : Int) : AuthPool := ⟨db, now, [], []⟩

/-- A new call draws a family id that no call drew before. -/
def AuthPool.FreshFamily (s : AuthPool) : AuthAct → Prop
  | .spawn c => ∀ p ∈ s.procs, p.call.2.family ≠ c.2.family
  | _ => True

instance (s : AuthPool) (a : AuthAct) : Decidable (s.FreshFamily a) :=
  match a with
  | .spawn _ => inferInstanceAs (Decidable (∀ p ∈ _, _ ≠ _))
  | .step _ | .fail .. | .tick _ => inferInstanceAs (Decidable True)

def AuthCall.isRefresh : AuthCall → Bool
  | refresh .. => true
  | _ => false

def AuthStmt.creates : AuthStmt → Bool
  | createToken .. => true
  | _ => false

/-! ## Phases -/

/-- How far a call has come. `opening` is a call that can still add the first row of its own
family. A refresh is `asking` for the row, `holding` one it found live, `rotating` it, `issuing` the
next row of its family, and has `issued` it, or is `closing` without a session. -/
inductive Phase where
  | opening
  | settled
  | asking
  | holding (row : RefreshTokenRow)
  | rotating (row : RefreshTokenRow)
  | issuing (row : RefreshTokenRow)
  | issued (row : RefreshTokenRow)
  | closing

/-- The row a refresh found live. -/
def Phase.row : Phase → Option RefreshTokenRow
  | holding row | rotating row | issuing row | issued row => some row
  | _ => none

/-- The row whose family a refresh can still add to. -/
def Phase.held : Phase → Option RefreshTokenRow
  | holding row | rotating row | issuing row => some row
  | _ => none

section Stands

variable (E : AuthEnv)

/-- A statement that adds the row of the token of `R` to a family of the account. -/
def AddsTo (R : Entropy) (u : ℕ) (F : Bytes) (op : AuthStmt) : Prop :=
  ∃ e ua ip, op = .createToken u F (E.sha256 R.token) e ua ip

/-- What is left of a call in each phase. -/
inductive Stands : AuthCall × Entropy → AuthProg AuthResult → Phase → Prop
  | opening {call R p} (hcall : call.isRefresh = false)
      (h : Once (fun op => ∃ u, AddsTo E R u R.family op) (·.creates = false) p) :
      Stands (call, R) p .opening
  | settled {call R p} (hcall : call.isRefresh = false)
      (h : Only (·.creates = false) (fun _ => True) p) : Stands (call, R) p .settled
  | asking {token ua ip R} : Stands (.refresh token ua ip, R)
      (.session <$> refresh E R token ua ip) .asking
  | holding {token ua ip R row} : Stands (.refresh token ua ip, R)
      (.session <$> rotate E R row ua ip) (.holding row)
  | rotating {token ua ip R row user} (huser : user.id = row.userId) :
      Stands (.refresh token ua ip, R) (.session <$> rotateAs E R row user ua ip) (.rotating row)
  | issuing {token ua ip R row op k} (hop : AddsTo E R row.userId row.familyId op)
      (hok : ∀ id, Only (·.creates = false) (fun _ => True) (k (.ok id)))
      (herror : ∀ e, Only (·.creates = false) (fun _ => False) (k (.error e))) :
      Stands (.refresh token ua ip, R) (.call op k) (.issuing row)
  | issued {token ua ip R row p} (h : Only (·.creates = false) (fun _ => True) p) :
      Stands (.refresh token ua ip, R) p (.issued row)
  | closing {token ua ip R p} (h : Only (·.creates = false) (fun _ => False) p) :
      Stands (.refresh token ua ip, R) p .closing

/-- How a reply moves a call from one phase to the next. -/
inductive Moves (c : AuthCall × Entropy) :
    Phase → (op : AuthStmt) → Except Failure op.Res → Phase → Prop
  | stay {φ op r} (hop : op.creates = false) : Moves c φ op r φ
  | stop {φ op r φ'} (hop : op.creates = false ∨ ∃ e, r = .error e)
      (hφ' : φ' = .settled ∨ φ' = .closing) : Moves c φ op r φ'
  | found {token ua ip row} (hcall : c.1 = .refresh token ua ip) (hlive : row.revokedAt = none) :
      Moves c .asking (.findByHash (E.sha256 token)) (.ok (some row)) (.holding row)
  | looked {row op r} (hop : op.creates = false) : Moves c (.holding row) op r (.rotating row)
  | rotated {row n} : Moves c (.rotating row) (.revoke row.id) (.ok n) (.issuing row)
  | created {row e ua ip id} : Moves c (.issuing row)
      (.createToken row.userId row.familyId (E.sha256 c.2.token) e ua ip) (.ok id) (.issued row)
  | opened {u e ua ip id} : Moves c .opening
      (.createToken u c.2.family (E.sha256 c.2.token) e ua ip) (.ok id) .settled

variable {E}

/-- A reply of the store, or a failure, takes a call to the next phase. -/
theorem Stands.step {c : AuthCall × Entropy} {op : AuthStmt} {k} {φ : Phase}
    (h : Stands E c (.call op k) φ) (now : Int) (db : AuthDb) {r : Except Failure op.Res}
    (hr : r = (E.exec op now db).1 ∨ ∃ e, r = .error e) :
    ∃ φ', Stands E c ((k r).settle now) φ' ∧ Moves E c φ op r φ' := by
  generalize hp : Prog.call op k = p at h
  cases h with
  | opening hcall h =>
    subst hp
    rcases h with ⟨hop, h⟩ | ⟨hop, h⟩
    · exact ⟨.opening, .opening hcall ((h r).settle now), .stay hop⟩
    · refine ⟨.settled, .settled hcall ((h r).settle now), ?_⟩
      obtain ⟨u, e, ua, ip, rfl⟩ := hop
      cases r with
      | ok id => exact .opened
      | error e => exact .stop (.inr ⟨e, rfl⟩) (.inl rfl)
  | settled hcall h =>
    subst hp
    exact ⟨.settled, .settled hcall ((h.2 r).settle now), .stay h.1⟩
  | @asking token ua ip R =>
    simp only [refresh, Prog.stmt_bind, Prog.map_call_resume] at hp
    obtain ⟨rfl, hk⟩ := Prog.call.inj hp
    obtain rfl := eq_of_heq hk
    have hclosing : ∀ e, Stands E (.refresh token ua ip, R) (.throw e) .closing :=
      fun e => .closing Prog.only_throw
    rcases r with e | _ | row
    · exact ⟨_, hclosing e, .stop (.inl rfl) (.inr rfl)⟩
    · exact ⟨_, hclosing _, .stop (.inl rfl) (.inr rfl)⟩
    · simp only [Prog.resume_ok]
      split_ifs with hrevoked
      · refine ⟨.closing, .closing ?_, .stop (.inl rfl) (.inr rfl)⟩
        simp [AuthStmt.creates]
      · simp only [Prog.time_bind, Prog.map_clock, Prog.settle_clock]
        split_ifs with hexpired
        · refine ⟨.closing, .closing ?_, .stop (.inl rfl) (.inr rfl)⟩
          simp [AuthStmt.creates]
        · refine ⟨.holding row, ?_, .found rfl (by simpa using hrevoked)⟩
          exact .holding
  | @holding token ua ip R row =>
    simp only [rotate, Prog.stmt_bind, Prog.map_call_resume] at hp
    obtain ⟨rfl, hk⟩ := Prog.call.inj hp
    obtain rfl := eq_of_heq hk
    have hclosing : ∀ e, Stands E (.refresh token ua ip, R) (.throw e) .closing :=
      fun e => .closing Prog.only_throw
    rcases r with e | _ | user
    · exact ⟨_, hclosing e, .stop (.inl rfl) (.inr rfl)⟩
    · exact ⟨_, hclosing _, .stop (.inl rfl) (.inr rfl)⟩
    · have hfind : UserModel.findById db row.userId = some user := by
        rcases hr with hr | ⟨e, he⟩
        · simpa [AuthEnv.exec] using hr.symm
        · simp at he
      exact ⟨.rotating row, .rotating (UserModel.findById_id hfind), .looked rfl⟩
  | @rotating token ua ip R row user huser =>
    simp only [rotateAs, Prog.stmt_bind, Prog.map_call_resume] at hp
    obtain ⟨rfl, hk⟩ := Prog.call.inj hp
    obtain rfl := eq_of_heq hk
    rcases r with e | n
    · exact ⟨_, .closing Prog.only_throw, .stop (.inl rfl) (.inr rfl)⟩
    · refine ⟨.issuing row, ?_, .rotated⟩
      simp only [Prog.resume_ok, createSession, buildAccessToken, Prog.time_bind, Prog.stmt_bind,
        Prog.map_clock, Prog.map_call_resume, Prog.settle_clock, Prog.settle_call]
      refine .issuing ⟨_, _, _, by rw [huser]; rfl⟩ (fun id => ?_) fun e => ?_
      · simp [AuthStmt.creates]
      · exact Prog.only_throw
  | issuing hop hok herror =>
    obtain ⟨rfl, hk⟩ := Prog.call.inj hp
    obtain rfl := eq_of_heq hk
    obtain ⟨e, ua, ip, rfl⟩ := hop
    cases r with
    | ok id => exact ⟨_, .issued ((hok id).settle now), .created⟩
    | error e => exact ⟨_, .closing ((herror e).settle now), .stop (.inr ⟨e, rfl⟩) (.inr rfl)⟩
  | issued h =>
    subst hp
    exact ⟨_, .issued ((h.2 r).settle now), .stay h.1⟩
  | closing h =>
    subst hp
    exact ⟨.closing, .closing ((h.2 r).settle now), .stay h.1⟩

theorem once_createSession (R : Entropy) (user : UserRow) (ua ip : Option Bytes) :
    Once (fun op => ∃ u, AddsTo E R u R.family op) (·.creates = false)
      (AuthResult.session <$> createSession E R user ua ip none) := by
  simp [createSession, buildAccessToken, AddsTo, AuthStmt.creates]

theorem once_register (R : Entropy) (dto : RegisterRequest) (ua ip : Option Bytes) :
    Once (fun op => ∃ u, AddsTo E R u R.family op) (·.creates = false)
      (AuthResult.session <$> register E R dto ua ip) := by
  simp only [register, passwordHash, Prog.stmt_bind, Prog.map_call_resume, Prog.once_call_resume]
  refine .inl ⟨rfl, fun taken => ?_⟩
  split_ifs
  · exact Prog.once_throw
  cases E.passwordHash R.salt dto.password with
  | none => exact Prog.once_throw
  | some hash =>
    simp only [Prog.pure_eq, Prog.ret_bind, Prog.map_call_resume, Prog.once_call_resume]
    refine .inl ⟨rfl, fun id => .inl ⟨rfl, fun user => ?_⟩⟩
    cases user with
    | none => exact Prog.once_throw
    | some user => exact once_createSession R user ua ip

theorem once_login (R : Entropy) (dto : LoginRequest) (ua ip : Option Bytes) :
    Once (fun op => ∃ u, AddsTo E R u R.family op) (·.creates = false)
      (AuthResult.session <$> login E R dto ua ip) := by
  simp only [login, Prog.stmt_bind, Prog.map_call_resume, Prog.once_call_resume]
  refine .inl ⟨rfl, fun user => ?_⟩
  cases user with
  | none => exact Prog.once_throw
  | some user =>
    simp only
    split_ifs
    · simp only [Prog.map_call_resume, Prog.once_call_resume]
      exact .inl ⟨rfl, fun _ => .inl ⟨rfl, fun _ => once_createSession R user ua ip⟩⟩
    · exact Prog.once_throw

theorem only_user (id : ℕ) : Only (·.creates = false) (fun _ => True)
    (AuthResult.user <$> AuthService.user id) := by
  simp only [AuthService.user, Prog.stmt_bind, Prog.map_call_resume, Prog.only_call_resume]
  refine ⟨rfl, fun user => ?_⟩
  cases user <;> trivial

theorem only_logout (token : Bytes) : Only (·.creates = false) (fun _ => True)
    ((fun _ => AuthResult.void) <$> logout E token) := by
  simp only [logout, Prog.stmt_bind, Prog.map_call_resume, Prog.only_call_resume]
  refine ⟨rfl, fun row => ?_⟩
  cases row with
  | none => trivial
  | some row => simp [AuthStmt.creates]

theorem only_updateProfile (id : ℕ) (name : Bytes) : Only (·.creates = false) (fun _ => True)
    (AuthResult.user <$> updateProfile id name) := by
  simp only [updateProfile, Prog.stmt_bind, Prog.map_call_resume, Prog.only_call_resume]
  refine ⟨rfl, fun user => ?_⟩
  cases user with
  | none => trivial
  | some user =>
    simp only [Prog.map_call_resume, Prog.only_call_resume]
    exact ⟨rfl, fun _ => only_user id⟩

theorem only_revokeOthers (id : ℕ) (kept : Option Bytes) : Only (·.creates = false) (fun _ => True)
    ((fun _ => AuthResult.void) <$> revokeOthers id kept) := by
  cases kept <;> simp [revokeOthers, AuthStmt.creates]

theorem only_changePassword (R : Entropy) (id : ℕ) (dto : ChangePasswordRequest)
    (token : Option Bytes) : Only (·.creates = false) (fun _ => True)
    ((fun _ => AuthResult.void) <$> changePassword E R id dto token) := by
  simp only [changePassword, passwordHash, Prog.stmt_bind, Prog.map_call_resume,
    Prog.only_call_resume]
  refine ⟨rfl, fun user => ?_⟩
  cases user with
  | none => trivial
  | some user =>
    simp only
    split_ifs
    · cases E.passwordHash R.salt dto.newPassword with
      | none => trivial
      | some hash =>
        simp only [Prog.pure_eq, Prog.ret_bind, Prog.map_call_resume, Prog.only_call_resume]
        refine ⟨rfl, fun _ => ?_⟩
        cases token with
        | none => exact only_revokeOthers id none
        | some token =>
          simp only [Prog.map_call_resume, Prog.only_call_resume]
          exact ⟨rfl, fun row => only_revokeOthers id _⟩
    · trivial

/-- A new call stands at its start, and holds no row. -/
theorem stands_start (c : AuthCall × Entropy) (now : Int) :
    ∃ φ : Phase, φ.row = none ∧ Stands E c ((AuthPool.start E c).settle now) φ := by
  obtain ⟨call, R⟩ := c
  cases call with
  | register dto ua ip => exact ⟨_, rfl, .opening rfl ((once_register R dto ua ip).settle now)⟩
  | login dto ua ip => exact ⟨_, rfl, .opening rfl ((once_login R dto ua ip).settle now)⟩
  | refresh token ua ip => exact ⟨_, rfl, .asking⟩
  | logout token => exact ⟨_, rfl, .settled rfl ((only_logout token).settle now)⟩
  | user id => exact ⟨_, rfl, .settled rfl ((only_user id).settle now)⟩
  | updateProfile id name => exact ⟨_, rfl, .settled rfl ((only_updateProfile id name).settle now)⟩
  | changePassword id dto token =>
    exact ⟨_, rfl, .settled rfl ((only_changePassword R id dto token).settle now)⟩

end Stands

section Statements

variable (E : AuthEnv) (now : Int) (db : AuthDb)

/-- A statement that adds no row only revokes. -/
theorem exec_revokes {op : AuthStmt} (h : op.creates = false) :
    ∃ p, (E.exec op now db).2.refreshToken =
      (revokeWhere (E.zone.date now) db p).2.refreshToken := by
  cases op with
  | createToken => simp [AuthStmt.creates] at h
  | createUser name email hash type =>
    exact ⟨fun _ => false, (userCreate_cases ..).1.trans revokeWhere_false.symm⟩
  | revoke _ | revokeFamily _ | revokeAllForUser _ | revokeAllForUserExceptFamily _ _
  | revokeExpiredForUser _ => exact ⟨_, rfl⟩
  | _ => exact ⟨fun _ => false, revokeWhere_false.symm⟩

theorem exec_createToken (u : ℕ) (F hash : Bytes) (e : LocalTime) (ua ip : Option Bytes) :
    (∃ f, E.exec (.createToken u F hash e ua ip) now db = (.error f, db))
    ∨ ∃ id new, E.exec (.createToken u F hash e ua ip) now db =
        (.ok id, { db with refreshToken := db.refreshToken.insert new })
      ∧ (∀ n, (new n).id = n ∧ (new n).userId = u ∧ (new n).familyId = F
          ∧ (new n).tokenHash = hash ∧ (new n).revokedAt = none)
      ∧ ∀ r ∈ db.refreshToken.rows, r.tokenHash ≠ hash := by
  simp only [AuthEnv.exec, create]
  split_ifs with hpos
  · exact .inl ⟨_, rfl⟩
  · refine .inr ⟨_, _, rfl, fun n => ⟨rfl, rfl, rfl, rfl, rfl⟩, ?_⟩
    simpa [Table.affected_pos] using hpos

end Statements

/-! ## Pools -/

/-- Two states of one row: a row only ever changes in `revoked_at`. -/
def SameToken (r r' : RefreshTokenRow) : Prop :=
  r.id = r'.id ∧ r.userId = r'.userId ∧ r.familyId = r'.familyId ∧ r.tokenHash = r'.tokenHash

/-- What holds of a pool whose calls stand in the phases `ph`. -/
structure Tracked (E : AuthEnv) (s : AuthPool) (ph : ℕ → Phase) : Prop where
  stands : ∀ (i : ℕ) (p : AuthProc), s.procs[i]? = some p → Stands E p.call p.rest (ph i)
  out : ∀ i, s.procs.length ≤ i → ph i = .settled
  draws : ∀ (i j : ℕ) (p q : AuthProc), s.procs[i]? = some p → s.procs[j]? = some q →
    p.call.2.family = q.call.2.family → i = j
  keyed : Keyed s.db.refreshToken
  owner : ∀ r ∈ s.db.refreshToken.rows, ∀ r' ∈ s.db.refreshToken.rows,
    r.familyId = r'.familyId → r.userId = r'.userId
  known : ∀ i row, (ph i).row = some row → ∃ r ∈ s.db.refreshToken.rows, SameToken r row
  presented : ∀ (i : ℕ) (p : AuthProc) row token ua ip, s.procs[i]? = some p →
    (ph i).row = some row →
    p.call.1 = .refresh token ua ip → row.tokenHash = E.sha256 token
  drawn : ∀ r ∈ s.db.refreshToken.rows,
    ∃ (i : ℕ) (p : AuthProc), s.procs[i]? = some p ∧ p.call.2.family = r.familyId ∧ ph i ≠ .opening

/-- A move that adds no row and takes no refresh past its rotation; `db` are the tables after it. -/
inductive Minor (db : AuthDb) (φ : Phase) : Phase → Prop
  | same : Minor db φ φ
  | stop {φ'} (h : φ'.row = none) : Minor db φ φ'
  | found {row} (hmem : row ∈ db.refreshToken.rows) (hlive : row.revokedAt = none) :
      Minor db φ (.holding row)
  | looked {row} (h : φ = .holding row) : Minor db φ (.rotating row)

/-- What an act does to the table and the phases. -/
inductive Change (E : AuthEnv) (s : AuthPool) (a : AuthAct) (ph : ℕ → Phase) (s' : AuthPool)
    (ph' : ℕ → Phase) : Prop
  | quiet (p) (htab : s'.db.refreshToken =
        (revokeWhere (E.zone.date s.now) s.db p).2.refreshToken)
      (hph : ∀ j, Minor s'.db (ph j) (ph' j))
  | rotated (i : ℕ) (row) (p : AuthProc) (hact : a = .step i) (hi : s.procs[i]? = some p)
      (hφ : ph i = .rotating row)
      (hrest : ∃ user ua ip, p.rest = .session <$> rotateAs E p.call.2 row user ua ip)
      (htab : s'.db.refreshToken = (revoke (E.zone.date s.now) s.db row.id).2.refreshToken)
      (hph : ph' = Function.update ph i (.issuing row))
  | created (i row new) (hφ : ph i = .issuing row)
      (htab : s'.db.refreshToken = s.db.refreshToken.insert new)
      (hnew : ∀ n, (new n).id = n ∧ (new n).familyId = row.familyId ∧ (new n).revokedAt = none)
      (hph : ph' = Function.update ph i (.issued row))
  | opened (i F new) (hF : ∀ r ∈ s.db.refreshToken.rows, r.familyId ≠ F)
      (htab : s'.db.refreshToken = s.db.refreshToken.insert new)
      (hnew : ∀ n, (new n).id = n ∧ (new n).familyId = F ∧ (new n).revokedAt = none)
      (hph : ph' = Function.update ph i .settled)

namespace Tracked

variable {E : AuthEnv} {s s' : AuthPool} {ph : ℕ → Phase} {a : AuthAct}

theorem idle {db : AuthDb} {now : Int} (h : db.refreshToken.rows = []) :
    Tracked E (AuthPool.idle db now) fun _ => .settled where
  stands := by simp [AuthPool.idle]
  out := by simp
  draws := by simp [AuthPool.idle]
  keyed := .empty h
  owner := by simp [AuthPool.idle, h]
  known := by simp [Phase.row]
  presented := by simp [AuthPool.idle]
  drawn := by simp [AuthPool.idle, h]

/-- The family of a call that can still open it has no row. -/
theorem family_unused (h : Tracked E s ph) {i : ℕ} {p : AuthProc} (hi : s.procs[i]? = some p)
    (hφ : ph i = .opening) : ∀ r ∈ s.db.refreshToken.rows, r.familyId ≠ p.call.2.family := by
  intro r hr hF
  obtain ⟨j, q, hj, hq, hne⟩ := h.drawn r hr
  obtain rfl := h.draws i j p q hi hj (hF.symm.trans hq.symm)
  exact hne hφ

theorem spawn (h : Tracked E s ph) {c : AuthCall × Entropy} {p : AuthProg AuthResult} {φ : Phase}
    (hfresh : ∀ q ∈ s.procs, q.call.2.family ≠ c.2.family) (hst : Stands E c p φ)
    (hφ : φ.row = none) :
    Tracked E { s with procs := s.procs ++ [⟨c, p⟩] } (Function.update ph s.procs.length φ) := by
  have hne : ∀ {i q}, s.procs[i]? = some q → i ≠ s.procs.length := by
    intro i q hi
    exact (List.getElem?_eq_some_iff.mp hi).1.ne
  have hrow : ∀ {i row}, (Function.update ph s.procs.length φ i).row = some row →
      i ≠ s.procs.length ∧ (ph i).row = some row := by
    intro i row hi
    rcases eq_or_ne i s.procs.length with rfl | hin
    · simp [hφ] at hi
    · exact ⟨hin, by simpa [hin] using hi⟩
  refine ⟨?_, ?_, ?_, h.keyed, h.owner, ?_, ?_, ?_⟩
  · intro i q hi
    rcases Pool.spawn_procs hi with ⟨rfl, rfl⟩ | ⟨hlt, hi⟩
    · simpa using hst
    · simpa [hlt.ne] using h.stands i q hi
  · intro i hle
    simp only [List.length_append, List.length_singleton] at hle
    rw [Function.update_of_ne (by omega)]
    exact h.out i (by omega)
  · intro i j q q' hi hj he
    rcases Pool.spawn_procs hi with ⟨rfl, rfl⟩ | ⟨-, hi⟩ <;>
      rcases Pool.spawn_procs hj with ⟨rfl, rfl⟩ | ⟨-, hj⟩
    · rfl
    · exact absurd he.symm (hfresh q' (List.mem_of_getElem? hj))
    · exact absurd he (hfresh q (List.mem_of_getElem? hi))
    · exact h.draws i j q q' hi hj he
  · exact fun i row hi => h.known i row (hrow hi).2
  · intro i q row token ua ip hi hr
    rcases Pool.spawn_procs hi with ⟨rfl, -⟩ | ⟨-, hi⟩
    · exact absurd rfl (hrow hr).1
    · exact h.presented i q row token ua ip hi (hrow hr).2
  · intro r hr
    obtain ⟨i, q, hi, hF, hop⟩ := h.drawn r hr
    refine ⟨i, q, ?_, hF, by simpa [hne hi] using hop⟩
    exact List.getElem?_append_left (List.getElem?_eq_some_iff.mp hi).1 ▸ hi

/-- A call got a reply that took it to `φ'`, and the rows of before are still there. -/
theorem advance (h : Tracked E s ph) {i : ℕ} {c : AuthCall × Entropy} {op : AuthStmt} {k r db'}
    {φ' : Phase} (hi : s.procs[i]? = some ⟨c, .call op k⟩)
    (hst : Stands E c ((k r).settle s.now) φ') (hkeyed : Keyed db'.refreshToken)
    (howner : ∀ r ∈ db'.refreshToken.rows, ∀ r' ∈ db'.refreshToken.rows,
      r.familyId = r'.familyId → r.userId = r'.userId)
    (hold : ∀ row ∈ s.db.refreshToken.rows, ∃ row' ∈ db'.refreshToken.rows, SameToken row' row)
    (hnew : ∀ row' ∈ db'.refreshToken.rows,
      (∃ row ∈ s.db.refreshToken.rows, row.familyId = row'.familyId)
        ∨ (row'.familyId = c.2.family ∧ φ' ≠ .opening))
    (hopening : φ' = .opening → ph i = .opening)
    (hrow : ∀ row, φ'.row = some row → (ph i).row = some row
      ∨ (row ∈ s.db.refreshToken.rows
        ∧ ∀ token ua ip, c.1 = .refresh token ua ip → row.tokenHash = E.sha256 token)) :
    Tracked E (s.advance i c op r db' k) (Function.update ph i φ') := by
  have hlt : i < s.procs.length := (List.getElem?_eq_some_iff.mp hi).1
  refine ⟨?_, ?_, ?_, hkeyed, howner, ?_, ?_, ?_⟩
  · intro j q hj
    rcases Pool.advance_procs hj with ⟨rfl, rfl⟩ | ⟨hji, hj⟩
    · simpa using hst
    · simpa [hji] using h.stands j q hj
  · intro j hle
    simp only [Pool.advance, List.length_set] at hle
    rw [Function.update_of_ne (by omega)]
    exact h.out j hle
  · intro j j' q q' hj hj' he
    obtain ⟨p, hp, hcall⟩ := Pool.advance_call hi hj
    obtain ⟨p', hp', hcall'⟩ := Pool.advance_call hi hj'
    exact h.draws _ _ _ _ hp hp' (by rw [hcall, hcall', he])
  · intro j row hj
    have hmem : ∃ row' ∈ s.db.refreshToken.rows, SameToken row' row := by
      rcases eq_or_ne j i with rfl | hji
      · rcases hrow row (by simpa using hj) with hj | ⟨hmem, -⟩
        · exact h.known _ row hj
        · exact ⟨row, hmem, rfl, rfl, rfl, rfl⟩
      · exact h.known j row (by simpa [hji] using hj)
    obtain ⟨row', hmem, h₁, h₂, h₃, h₄⟩ := hmem
    obtain ⟨row'', hmem', h₁', h₂', h₃', h₄'⟩ := hold row' hmem
    exact ⟨row'', hmem', h₁'.trans h₁, h₂'.trans h₂, h₃'.trans h₃, h₄'.trans h₄⟩
  · intro j q row token ua ip hj hr hcall
    rcases Pool.advance_procs hj with ⟨rfl, rfl⟩ | ⟨hji, hj⟩
    · rcases hrow row (by simpa using hr) with hr | ⟨-, hp⟩
      · exact h.presented _ _ row token ua ip hi hr hcall
      · exact hp token ua ip hcall
    · exact h.presented j q row token ua ip hj (by simpa [hji] using hr) hcall
  · intro row' hmem
    rcases hnew row' hmem with ⟨row, hrow', hF⟩ | ⟨hF, hne⟩
    · obtain ⟨j, q, hj, hq, hop⟩ := h.drawn row hrow'
      rcases eq_or_ne j i with rfl | hji
      · obtain rfl : q = ⟨c, .call op k⟩ := Option.some.inj (hj.symm.trans hi)
        refine ⟨j, _, Pool.advance_procs_self hi, hq.trans hF, ?_⟩
        simpa using fun he => hop (hopening he)
      · exact ⟨j, q, (Pool.advance_procs_of_ne hji).trans hj, hq.trans hF, by simpa [hji] using hop⟩
    · exact ⟨i, _, Pool.advance_procs_self hi, hF.symm, by simpa using hne⟩

theorem sameToken_revoked (i : LocalTime) (p : RefreshTokenRow → Bool) (r : RefreshTokenRow) :
    SameToken (revoked i p r) r :=
  ⟨revoked_id r, revoked_userId r, revoked_familyId r, revoked_tokenHash r⟩

/-- A reply that adds no row: what moves is minor, or is a rotation. -/
theorem advance_revoke (h : Tracked E s ph) {i : ℕ} {c : AuthCall × Entropy} {op : AuthStmt}
    {k r db'} {φ' : Phase} (hi : s.procs[i]? = some ⟨c, .call op k⟩)
    (hst : Stands E c ((k r).settle s.now) φ') {p : RefreshTokenRow → Bool}
    (htab : db'.refreshToken = (revokeWhere (E.zone.date s.now) s.db p).2.refreshToken)
    (hopening : φ' = .opening → ph i = .opening)
    (hrow : ∀ row, φ'.row = some row → (ph i).row = some row
      ∨ (row ∈ s.db.refreshToken.rows
        ∧ ∀ token ua ip, c.1 = .refresh token ua ip → row.tokenHash = E.sha256 token)) :
    Tracked E (s.advance i c op r db' k) (Function.update ph i φ') := by
  refine h.advance hi hst (htab ▸ h.keyed.revokeWhere _ p) ?_ ?_ ?_ hopening hrow
  · simp only [htab, revokeWhere_rows, List.forall_mem_map, revoked_familyId, revoked_userId]
    exact h.owner
  · intro row hrow'
    refine ⟨revoked (E.zone.date s.now) p row, ?_, sameToken_revoked ..⟩
    rw [htab]
    exact List.mem_map_of_mem hrow'
  · simp only [htab, revokeWhere_rows, List.forall_mem_map, revoked_familyId]
    exact fun row hrow' => .inl ⟨row, hrow', rfl⟩

theorem advance_insert (h : Tracked E s ph) {i : ℕ} {c : AuthCall × Entropy} {op : AuthStmt}
    {k r db'} {φ' : Phase} (hi : s.procs[i]? = some ⟨c, .call op k⟩)
    (hst : Stands E c ((k r).settle s.now) φ') {new : ℕ → RefreshTokenRow} {u : ℕ} {F hash : Bytes}
    (htab : db'.refreshToken = s.db.refreshToken.insert new)
    (hnew : ∀ n, (new n).id = n ∧ (new n).userId = u ∧ (new n).familyId = F
      ∧ (new n).tokenHash = hash ∧ (new n).revokedAt = none)
    (hhash : ∀ row ∈ s.db.refreshToken.rows, row.tokenHash ≠ hash)
    (hF : (∃ row ∈ s.db.refreshToken.rows, row.familyId = F) ∨ F = c.2.family)
    (hu : ∀ row ∈ s.db.refreshToken.rows, row.familyId = F → row.userId = u)
    (hφ' : φ' ≠ .opening) (hrow : ∀ row, φ'.row = some row → (ph i).row = some row) :
    Tracked E (s.advance i c op r db' k) (Function.update ph i φ') := by
  refine h.advance hi hst ?_ ?_ ?_ ?_ (fun he => absurd he hφ') fun row hr => .inl (hrow row hr)
  · rw [htab]
    refine h.keyed.insert (fun n => (hnew n).1) fun row hrow' => ?_
    rw [(hnew _).2.2.2.1]
    exact hhash row hrow'
  · intro row hr row' hr' he
    rw [htab, Table.mem_insert] at hr hr'
    rcases hr with hr | rfl <;> rcases hr' with hr' | rfl
    · exact h.owner row hr row' hr' he
    · rw [(hnew _).2.1, hu row hr (he.trans (hnew _).2.2.1)]
    · rw [(hnew _).2.1, hu row' hr' (he.symm.trans (hnew _).2.2.1)]
    · rfl
  · intro row hrow'
    refine ⟨row, ?_, rfl, rfl, rfl, rfl⟩
    rw [htab, Table.mem_insert]
    exact .inl hrow'
  · intro row' hmem
    rw [htab, Table.mem_insert] at hmem
    rcases hmem with hmem | rfl
    · exact .inl ⟨row', hmem, rfl⟩
    · rw [(hnew _).2.2.1]
      exact hF.imp_right fun he => ⟨he, hφ'⟩

theorem reply_revokes {op : AuthStmt} {r : Except Failure op.Res} {db db' : AuthDb} {now : Int}
    (hr : (r = (E.exec op now db).1 ∧ db' = (E.exec op now db).2)
      ∨ (∃ e, r = .error e) ∧ db' = db)
    (hop : op.creates = false ∨ ∃ e, r = .error e) :
    ∃ p, db'.refreshToken = (revokeWhere (E.zone.date now) db p).2.refreshToken := by
  rcases hr with ⟨rfl, rfl⟩ | ⟨-, rfl⟩
  · cases hcreates : op.creates with
    | false => exact exec_revokes E now db hcreates
    | true =>
      obtain ⟨e, he⟩ := hop.resolve_left (by simp [hcreates])
      cases op with
      | createToken u F hash exp ua ip =>
        rcases exec_createToken E now db u F hash exp ua ip with ⟨f, hexec⟩ | ⟨id, new, hexec, -⟩
        · exact ⟨fun _ => false, by rw [hexec, revokeWhere_false]⟩
        · simp [hexec] at he
      | _ => simp [AuthStmt.creates] at hcreates
  · exact ⟨fun _ => false, revokeWhere_false.symm⟩

/-- An insert that succeeds has added its row, which had a new hash. -/
theorem reply_inserts {now : Int} {db db' : AuthDb} {u id : ℕ} {F hash : Bytes} {x : LocalTime}
    {ua ip : Option Bytes}
    (hr : (.ok id = (E.exec (.createToken u F hash x ua ip) now db).1
        ∧ db' = (E.exec (.createToken u F hash x ua ip) now db).2)
      ∨ (∃ e, (.ok id : Except Failure ℕ) = .error e) ∧ db' = db) :
    ∃ new, db' = { db with refreshToken := db.refreshToken.insert new }
      ∧ (∀ n, (new n).id = n ∧ (new n).userId = u ∧ (new n).familyId = F
          ∧ (new n).tokenHash = hash ∧ (new n).revokedAt = none)
      ∧ ∀ r ∈ db.refreshToken.rows, r.tokenHash ≠ hash := by
  rcases hr with ⟨hok, rfl⟩ | ⟨⟨e, he⟩, -⟩
  · rcases exec_createToken E now db u F hash x ua ip with ⟨f, hexec⟩ | ⟨id', new, hexec, hnew⟩
    · simp [hexec] at hok
    · exact ⟨new, by rw [hexec], hnew⟩
  · cases he

theorem reply (h : Tracked E s ph) {i : ℕ} {c : AuthCall × Entropy} {op : AuthStmt} {k r db'}
    (hi : s.procs[i]? = some ⟨c, .call op k⟩)
    (hr : (a = .step i ∧ r = (E.exec op s.now s.db).1 ∧ db' = (E.exec op s.now s.db).2)
      ∨ (∃ e, r = .error e) ∧ db' = s.db) :
    ∃ ph', Tracked E (s.advance i c op r db' k) ph'
      ∧ Change E s a ph (s.advance i c op r db' k) ph' := by
  have hstands : Stands E c (.call op k) (ph i) := h.stands i _ hi
  obtain ⟨φ', hst, hmoves⟩ := hstands.step s.now s.db (hr.imp (·.2.1) And.left)
  have hminor : ∀ {ψ}, Minor db' (ph i) ψ →
      ∀ j, Minor db' (ph j) (Function.update ph i ψ j) := by
    intro ψ hψ j
    rcases eq_or_ne j i with rfl | hj
    · simpa using hψ
    · simpa [hj] using .same
  generalize hφ : ph i = φ at hstands hmoves
  cases hmoves with
  | stay hop =>
    obtain ⟨p, htab⟩ := reply_revokes (hr.imp_left And.right) (.inl hop)
    refine ⟨_, h.advance_revoke hi hst htab (fun he => hφ.trans he) fun row hrow => ?_,
      .quiet p htab (hminor (hφ ▸ .same))⟩
    exact .inl (hφ ▸ hrow)
  | stop hop hφ' =>
    obtain ⟨p, htab⟩ := reply_revokes (hr.imp_left And.right) hop
    have hnone : φ'.row = none := by rcases hφ' with rfl | rfl <;> rfl
    refine ⟨_, h.advance_revoke hi hst htab (fun he => ?_) fun row hrow => ?_,
      .quiet p htab (hminor (.stop hnone))⟩
    · rcases hφ' with rfl | rfl <;> simp at he
    · simp [hnone] at hrow
  | @found token ua ip row hcall hlive =>
    obtain ⟨p, htab⟩ := reply_revokes (hr.imp_left And.right) (.inl rfl)
    obtain ⟨hfind, rfl⟩ : findByHash s.db (E.sha256 token) = some row ∧ s.db = db' := by
      rcases hr with ⟨-, hr, hdb⟩ | ⟨⟨e, he⟩, -⟩
      · exact ⟨by simpa [AuthEnv.exec] using hr.symm, hdb.symm⟩
      · simp at he
    obtain ⟨hmem, hhash⟩ := findByHash_mem hfind
    refine ⟨_, h.advance_revoke hi hst htab (by simp) fun row' hrow => .inr ?_,
      .quiet p htab (hminor (.found hmem hlive))⟩
    obtain rfl : row = row' := by simpa [Phase.row] using hrow
    refine ⟨hmem, fun token' ua' ip' hcall' => ?_⟩
    obtain ⟨rfl, -, -⟩ := AuthCall.refresh.inj (hcall.symm.trans hcall')
    exact hhash
  | @looked row _ _ hop =>
    obtain ⟨p, htab⟩ := reply_revokes (hr.imp_left And.right) (.inl hop)
    exact ⟨_, h.advance_revoke hi hst htab (by simp) fun row' hrow => .inl (hφ ▸ hrow),
      .quiet p htab (hminor (.looked hφ))⟩
  | @rotated row n =>
    obtain ⟨hact, htab⟩ : a = .step i
        ∧ db'.refreshToken = (revoke (E.zone.date s.now) s.db row.id).2.refreshToken := by
      rcases hr with ⟨hact, -, rfl⟩ | ⟨⟨e, he⟩, -⟩
      · exact ⟨hact, rfl⟩
      · simp at he
    refine ⟨_, h.advance_revoke hi hst htab (by simp) fun row' hrow => .inl (hφ ▸ hrow),
      .rotated i row _ hact hi hφ ?_ htab rfl⟩
    generalize hp : Prog.call (AuthStmt.revoke row.id) k = p at hstands
    cases hstands with
    | @rotating token ua ip R _ user => exact ⟨user, ua, ip, rfl⟩
  | @created row e ua ip id =>
    obtain ⟨new, rfl, hnew, hhash⟩ := reply_inserts (hr.imp_left And.right)
    obtain ⟨row', hmem, -, hu, hF, -⟩ := h.known i row (by rw [hφ]; rfl)
    refine ⟨_, h.advance_insert hi hst rfl hnew hhash (.inl ⟨row', hmem, hF⟩)
      (fun r hr he => (h.owner r hr row' hmem (he.trans hF.symm)).trans hu) (by simp)
      fun row' hrow => hφ ▸ hrow, .created i row new hφ rfl (fun n => ?_) rfl⟩
    exact ⟨(hnew n).1, (hnew n).2.2.1, (hnew n).2.2.2.2⟩
  | @opened u e ua ip id =>
    obtain ⟨new, rfl, hnew, hhash⟩ := reply_inserts (hr.imp_left And.right)
    have hunused := h.family_unused hi hφ
    refine ⟨_, h.advance_insert hi hst rfl hnew hhash (.inr rfl)
      (fun r hr he => absurd he (hunused r hr)) (by simp) (by simp [Phase.row]),
      .opened i c.2.family new hunused rfl (fun n => ?_) rfl⟩
    exact ⟨(hnew n).1, (hnew n).2.2.1, (hnew n).2.2.2.2⟩

/-- Every act keeps the pool tracked, and changes the table and the phases in one of four ways. -/
theorem step (h : Tracked E s ph) (hG : s.FreshFamily a)
    (ha : Pool.act E.exec (AuthPool.start E) s a = some s') :
    ∃ ph', Tracked E s' ph' ∧ Change E s a ph s' ph' := by
  rcases Pool.act_cases ha with ⟨c, rfl, rfl⟩ | ⟨t, rfl, rfl⟩ | ⟨i, c, op, k, rfl, hi, rfl⟩
    | ⟨i, e, c, op, k, rfl, hi, rfl⟩
  · obtain ⟨φ, hφ, hst⟩ := stands_start (E := E) c s.now
    refine ⟨_, h.spawn hG hst hφ, .quiet (fun _ => false) revokeWhere_false.symm fun j => ?_⟩
    rcases eq_or_ne j s.procs.length with rfl | hj
    · simpa using .stop hφ
    · simpa [hj] using .same
  · exact ⟨ph, { h with }, .quiet (fun _ => false) revokeWhere_false.symm fun _ => .same⟩
  · exact h.reply hi (.inl ⟨rfl, rfl, rfl⟩)
  · exact h.reply hi (.inr ⟨⟨e, rfl⟩, rfl⟩)

end Tracked

end SlimStarter
