import SlimStarter.Lib.Trace
import SlimStarter.Lib.Outcome
import SlimStarter.Auth.Accounts
import SlimStarter.Auth.Race

/-!
# Registering at the same time

A registration looks for a live account of the email, inserts the account, reads it back and creates
the session: its replies say how far it has come (`Stage`). The insert violates `uq_user_email`
where a row of the email is deleted, which the look-up passes over, or where another registration
has inserted one since the look-up (`Overtaken`).

Where neither occurs, and the hash function takes the password, every statement succeeds
(`Smooth.replied`), and a registration that has ended has created one account with one session, or
was refused for its email (`registers_or_refuses`).
-/

namespace SlimStarter

open AuthService RefreshTokenModel
open Prog (Reaches)

abbrev AuthReply : Type := Reply AuthStmt AuthStmt.Res Failure

variable {E : AuthEnv} {R : Entropy} {dto : RegisterRequest} {ua ip : Option Bytes}

/-- What `register` throws where the email is taken. -/
def emailTaken : Failure :=
  .validation "Email is already registered." [("email", "Email is already registered.")]

/-- The replies that a registration has got, and what is left of its program. -/
inductive Stage (E : AuthEnv) (R : Entropy) (dto : RegisterRequest) (ua ip : Option Bytes) :
    List AuthReply → AuthProg AuthResult → Prop
  | asking {k} : Stage E R dto ua ip [] (.call (.existsByEmail dto.email) k)
  | refused : Stage E R dto ua ip [⟨.existsByEmail dto.email, .ok true⟩] (.throw emailTaken)
  | inserting {hash k} (hhash : E.passwordHash R.salt dto.password = some hash) :
      Stage E R dto ua ip [⟨.existsByEmail dto.email, .ok false⟩]
        (.call (.createUser dto.name dto.email hash UserType.staff) k)
  | looking {hash id k} (hhash : E.passwordHash R.salt dto.password = some hash) :
      Stage E R dto ua ip [⟨.existsByEmail dto.email, .ok false⟩,
        ⟨.createUser dto.name dto.email hash UserType.staff, .ok id⟩]
        (.call (.findUserById id) k)
  | lost {hash id} : Stage E R dto ua ip [⟨.existsByEmail dto.email, .ok false⟩,
        ⟨.createUser dto.name dto.email hash UserType.staff, .ok id⟩,
        ⟨.findUserById id, .ok none⟩]
      (.throw (.appException "The account could not be created." HttpStatus.internalServerError))
  | issuing {hash id user e k} : Stage E R dto ua ip [⟨.existsByEmail dto.email, .ok false⟩,
        ⟨.createUser dto.name dto.email hash UserType.staff, .ok id⟩,
        ⟨.findUserById id, .ok (some user)⟩]
      (.call (.createToken user.id R.family (E.sha256 R.token) e ua ip) k)
  | signing {hash id user e n claims k} : Stage E R dto ua ip
      [⟨.existsByEmail dto.email, .ok false⟩,
        ⟨.createUser dto.name dto.email hash UserType.staff, .ok id⟩,
        ⟨.findUserById id, .ok (some user)⟩,
        ⟨.createToken user.id R.family (E.sha256 R.token) e ua ip, .ok n⟩]
      (.call (.buildToken claims) k)
  | done {hash id user e n claims token expiresIn} : Stage E R dto ua ip
      [⟨.existsByEmail dto.email, .ok false⟩,
        ⟨.createUser dto.name dto.email hash UserType.staff, .ok id⟩,
        ⟨.findUserById id, .ok (some user)⟩,
        ⟨.createToken user.id R.family (E.sha256 R.token) e ua ip, .ok n⟩,
        ⟨.buildToken claims, .ok token⟩]
      (.ret (.session ⟨token, "Bearer", expiresIn, R.token, toPublicArray user⟩))
  | between {rs k} : Stage E R dto ua ip rs (.clock k)

/-- While no statement fails, a registration is in one of its stages. -/
theorem stage_of_reaches {rs : List AuthReply} {q : AuthProg AuthResult}
    (hhash : E.passwordHash R.salt dto.password ≠ none)
    (h : Reaches ((AuthCall.register dto ua ip).prog E R) rs q)
    (hok : ∀ r ∈ rs, ∃ a, r.reply = .ok a) : Stage E R dto ua ip rs q := by
  have hfailed : ∀ (rs : List AuthReply) {op : AuthStmt} {e : Failure},
      (∀ r ∈ rs ++ [(⟨op, .error e⟩ : AuthReply)], ∃ a, r.reply = .ok a) → False := by
    intro rs op e hok
    obtain ⟨a, ha⟩ := hok ⟨op, .error e⟩ (by simp)
    cases ha
  obtain ⟨hash, hhash⟩ := Option.ne_none_iff_exists'.mp hhash
  simp only [AuthCall.prog, register, passwordHash, hhash, Prog.stmt_bind,
    Prog.map_call_resume] at h
  rcases h.of_resume with ⟨rfl, rfl⟩ | ⟨e, rfl, -⟩ | ⟨taken, rs, rfl, h₁⟩
  · exact .asking
  · exact (hfailed [] hok).elim
  cases taken with
  | true =>
    simp only [if_true, Prog.map_throw] at h₁
    cases h₁ with
    | refl => exact .refused
  | false =>
    simp only [Bool.false_eq_true, if_false, Prog.pure_eq, Prog.ret_bind,
      Prog.map_call_resume] at h₁
    rcases h₁.of_resume with ⟨rfl, rfl⟩ | ⟨e, rfl, -⟩ | ⟨id, rs, rfl, h₂⟩
    · exact .inserting hhash
    · exact (hfailed [_] hok).elim
    rcases h₂.of_resume with ⟨rfl, rfl⟩ | ⟨e, rfl, -⟩ | ⟨user, rs, rfl, h₃⟩
    · exact .looking hhash
    · exact (hfailed [_, _] hok).elim
    cases user with
    | none =>
      simp only [Prog.map_throw] at h₃
      cases h₃ with
      | refl => exact .lost
    | some user =>
      simp only [createSession, buildAccessToken, Prog.time_bind, Prog.stmt_bind, Prog.map_clock,
        Prog.map_call_resume, Prog.pure_eq, Prog.map_ret, Option.getD_none] at h₃
      cases h₃ with
      | refl => exact .between
      | clock h₃ =>
        rcases h₃.of_resume with ⟨rfl, rfl⟩ | ⟨e, rfl, -⟩ | ⟨n, rs, rfl, h₄⟩
        · exact .issuing
        · exact (hfailed [_, _, _] hok).elim
        rcases h₄.of_resume with ⟨rfl, rfl⟩ | ⟨e, rfl, -⟩ | ⟨token, rs, rfl, h₅⟩
        · exact .signing
        · exact (hfailed [_, _, _, _] hok).elim
        cases h₅ with
        | refl => exact .between
        | clock h₅ =>
          cases h₅ with
          | refl => exact .done

/-! ## Registrations in a pool -/

/-- The statement inserts an account whose email the database takes for this one. -/
def AuthStmt.Inserts (E : AuthEnv) (email : Bytes) (op : AuthStmt) : Prop :=
  ∃ name email' hash type, op = .createUser name email' hash type ∧ E.sqlEq email' email = true

namespace AuthPool

variable (E)

/-- Since call `i` found no account of this email, one has been inserted. -/
def Overtaken (s : AuthPool) (i : ℕ) (email : Bytes) : Prop :=
  ∃ l e l', s.log = l ++ e :: l' ∧ e.pid = i ∧ e.answer = ⟨.existsByEmail email, .ok false⟩
    ∧ ∃ d ∈ l, d.op.Inserts E email

/-- Only registrations are called, each draws a token of its own, and the database does not fail by
itself. -/
def Registrations (s : AuthPool) : AuthAct → Prop
  | .spawn (call, R) => (∃ dto ua ip, call = .register dto ua ip)
      ∧ (∀ p ∈ s.procs, E.sha256 p.call.2.token ≠ E.sha256 R.token)
      ∧ ∀ r ∈ s.db.refreshToken.rows, r.tokenHash ≠ E.sha256 R.token
  | .fail _ _ => False
  | _ => True

/-- The hash function takes the password; no deleted account has an equal email when a call looks
for one, and none is inserted between its look-up and its own insert. -/
def Unopposed (s : AuthPool) : AuthAct → Prop
  | .spawn (call, R) => ∀ dto ua ip, call = .register dto ua ip →
      E.passwordHash R.salt dto.password ≠ none
  | .step i => ∀ c op k, s.procs[i]? = some ⟨c, .call op k⟩ →
      (∀ email, op = .existsByEmail email →
        ∀ r ∈ s.db.user.rows, r.deletedAt ≠ none → E.sqlEq r.email email = false)
      ∧ ∀ name email hash type, op = .createUser name email hash type → ¬ s.Overtaken E i email
  | _ => True

def Smoothly (s : AuthPool) (a : AuthAct) : Prop := s.Registrations E a ∧ s.Unopposed E a

end AuthPool

/-- No statement has failed; the answers logged are backed by the tables. -/
structure Smooth (E : AuthEnv) (s : AuthPool) : Prop where
  traced : Pool.Traced (AuthPool.start E) s
  registers : ∀ p ∈ s.procs, ∃ dto ua ip, p.call.1 = .register dto ua ip
    ∧ E.passwordHash p.call.2.salt dto.password ≠ none
  replied : ∀ e ∈ s.log, ∃ a, e.reply = .ok a
  keyed : s.db.user.Keyed (·.id)
  free : ∀ l e l' email, s.log = l ++ e :: l' → e.answer = ⟨.existsByEmail email, .ok false⟩ →
    ∀ r ∈ s.db.user.rows, E.sqlEq r.email email = true → ∃ d ∈ l, d.op.Inserts E email
  accounts : ∀ e ∈ s.log, ∀ name email hash type id,
    e.answer = ⟨.createUser name email hash type, .ok id⟩ →
    ∃ u ∈ s.db.user.rows, u.id = id ∧ u.email = email ∧ u.deletedAt = none
  found : ∀ e ∈ s.log, ∀ id r, e.answer = ⟨.findUserById id, .ok r⟩ →
    ∃ u ∈ s.db.user.rows, r = some u ∧ u.id = id
  issued : ∀ e ∈ s.log, ∀ u F h x ua ip n, e.answer = ⟨.createToken u F h x ua ip, .ok n⟩ →
    ∃ r ∈ s.db.refreshToken.rows, r.tokenHash = h ∧ r.userId = u ∧ r.revokedAt = none
  fresh : ∀ (i : ℕ) (p : AuthProc), s.procs[i]? = some p → ∀ r ∈ s.db.refreshToken.rows,
    r.tokenHash = E.sha256 p.call.2.token → ∃ e ∈ s.log, e.pid = i ∧ e.op.creates = true
  distinct : ∀ (i j : ℕ) (p q : AuthProc), s.procs[i]? = some p → s.procs[j]? = some q →
    E.sha256 p.call.2.token = E.sha256 q.call.2.token → i = j

namespace Smooth

variable {s : AuthPool} {i : ℕ} {c : AuthCall × Entropy}

theorem idle {db : AuthDb} {now : Int} (hkeyed : db.user.Keyed (·.id)) :
    Smooth E (AuthPool.idle db now) where
  traced := Pool.traced_idle
  registers := by simp [AuthPool.idle]
  replied := by simp [AuthPool.idle]
  keyed := hkeyed
  free := by simp [AuthPool.idle]
  accounts := by simp [AuthPool.idle]
  found := by simp [AuthPool.idle]
  issued := by simp [AuthPool.idle]
  fresh := by simp [AuthPool.idle]
  distinct := by simp [AuthPool.idle]

theorem stage (h : Smooth E s) {p : AuthProc} (hi : s.procs[i]? = some p) :
    ∃ dto ua ip, p.call.1 = .register dto ua ip
      ∧ Stage E p.call.2 dto ua ip (Pool.replies i s.log) p.rest := by
  obtain ⟨dto, ua, ip, hcall, hhash⟩ := h.registers p (List.mem_of_getElem? hi)
  refine ⟨dto, ua, ip, hcall, stage_of_reaches hhash ?_ fun r hr => ?_⟩
  · rw [← hcall]
    exact h.traced.rest i p hi
  · obtain ⟨e, he, -, rfl⟩ := Pool.mem_replies hr
    exact h.replied e he

theorem spawn (h : Smooth E s) {call : AuthCall} {R : Entropy}
    (hcall : s.Registrations E (.spawn (call, R))) (hopen : s.Unopposed E (.spawn (call, R))) :
    Smooth E { s with
      procs := s.procs ++ [⟨(call, R), (AuthPool.start E (call, R)).settle s.now⟩] } where
  traced := h.traced.spawn (call, R)
  registers := by
    intro p hp
    rcases List.mem_append.mp hp with hp | hp
    · exact h.registers p hp
    · obtain rfl := List.mem_singleton.mp hp
      obtain ⟨⟨dto, ua, ip, rfl⟩, -, -⟩ := hcall
      exact ⟨dto, ua, ip, rfl, hopen dto ua ip rfl⟩
  replied := h.replied
  keyed := h.keyed
  free := h.free
  accounts := h.accounts
  found := h.found
  issued := h.issued
  fresh := by
    intro i p hp r hr hhash
    rcases Pool.spawn_procs hp with ⟨-, rfl⟩ | ⟨-, hp⟩
    · exact absurd hhash (hcall.2.2 r hr)
    · exact h.fresh i p hp r hr hhash
  distinct := by
    intro i j p q hp hq hhash
    rcases Pool.spawn_procs hp with ⟨rfl, rfl⟩ | ⟨-, hp⟩ <;>
      rcases Pool.spawn_procs hq with ⟨rfl, rfl⟩ | ⟨-, hq⟩
    · rfl
    · exact absurd hhash.symm (hcall.2.1 q (List.mem_of_getElem? hq))
    · exact absurd hhash (hcall.2.1 p (List.mem_of_getElem? hp))
    · exact h.distinct i j p q hp hq hhash

/-- A statement that succeeds keeps what is logged, if the tables back its own answer and the rows
it adds. -/
theorem advance (h : Smooth E s) {op : AuthStmt}
    {k : Except Failure op.Res → AuthProg AuthResult} (hi : s.procs[i]? = some ⟨c, .call op k⟩)
    {a : op.Res} {db : AuthDb} (hkeyed : db.user.Keyed (·.id))
    (huser : ∀ r ∈ s.db.user.rows, r ∈ db.user.rows)
    (htoken : ∀ r ∈ s.db.refreshToken.rows, r ∈ db.refreshToken.rows)
    (hinserts : ∀ r ∈ db.user.rows, r ∈ s.db.user.rows
      ∨ ∀ email, E.sqlEq r.email email = true → op.Inserts E email)
    (hcreates : ∀ r ∈ db.refreshToken.rows, r ∈ s.db.refreshToken.rows
      ∨ r.tokenHash = E.sha256 c.2.token ∧ op.creates = true)
    (hfree : ∀ email, (⟨op, .ok a⟩ : AuthReply) = ⟨.existsByEmail email, .ok false⟩ →
      ∀ r ∈ db.user.rows, E.sqlEq r.email email = false)
    (haccount : ∀ name email hash type id,
      (⟨op, .ok a⟩ : AuthReply) = ⟨.createUser name email hash type, .ok id⟩ →
      ∃ u ∈ db.user.rows, u.id = id ∧ u.email = email ∧ u.deletedAt = none)
    (hfound : ∀ id r, (⟨op, .ok a⟩ : AuthReply) = ⟨.findUserById id, .ok r⟩ →
      ∃ u ∈ db.user.rows, r = some u ∧ u.id = id)
    (hissued : ∀ u F h x ua ip n,
      (⟨op, .ok a⟩ : AuthReply) = ⟨.createToken u F h x ua ip, .ok n⟩ →
      ∃ r ∈ db.refreshToken.rows, r.tokenHash = h ∧ r.userId = u ∧ r.revokedAt = none) :
    Smooth E (s.advance i c op (.ok a) db k) where
  traced := h.traced.advance hi _ _
  registers := by
    intro p hp
    rcases List.mem_or_eq_of_mem_set hp with hp | rfl
    · exact h.registers p hp
    · have hcall := h.registers ⟨c, .call op k⟩ (List.mem_of_getElem? hi)
      exact hcall
  replied := by
    intro e he
    rcases List.mem_cons.mp he with rfl | he
    · exact ⟨a, rfl⟩
    · exact h.replied e he
  keyed := hkeyed
  free := by
    intro l e l' email hlog hanswer r hr heq
    rw [Pool.advance_log] at hlog
    rcases l with _ | ⟨d, l⟩
    · obtain ⟨rfl, -⟩ := List.cons_eq_cons.mp hlog
      rw [hfree email hanswer r hr] at heq
      cases heq
    · obtain ⟨rfl, hrest⟩ := List.cons_eq_cons.mp hlog
      rcases hinserts r hr with hold | hnew
      · obtain ⟨d, hd, hins⟩ := h.free l e l' email hrest hanswer r hold heq
        exact ⟨d, List.mem_cons_of_mem _ hd, hins⟩
      · exact ⟨_, List.mem_cons_self, hnew email heq⟩
  accounts := by
    intro e he name email hash type id hanswer
    rcases List.mem_cons.mp he with rfl | he
    · exact haccount name email hash type id hanswer
    · obtain ⟨u, hu, hrow⟩ := h.accounts e he name email hash type id hanswer
      exact ⟨u, huser u hu, hrow⟩
  found := by
    intro e he id r hanswer
    rcases List.mem_cons.mp he with rfl | he
    · exact hfound id r hanswer
    · obtain ⟨u, hu, hrow⟩ := h.found e he id r hanswer
      exact ⟨u, huser u hu, hrow⟩
  issued := by
    intro e he u F hash x ua ip n hanswer
    rcases List.mem_cons.mp he with rfl | he
    · exact hissued u F hash x ua ip n hanswer
    · obtain ⟨r, hr, hrow⟩ := h.issued e he u F hash x ua ip n hanswer
      exact ⟨r, htoken r hr, hrow⟩
  fresh := by
    intro j p hp r hr hhash
    obtain ⟨q, hq, hcall⟩ := Pool.advance_call hi hp
    rw [← hcall] at hhash
    rcases hcreates r hr with hold | ⟨hnew, hop⟩
    · obtain ⟨e, he, hrow⟩ := h.fresh j q hq r hold hhash
      exact ⟨e, List.mem_cons_of_mem _ he, hrow⟩
    · exact ⟨_, List.mem_cons_self, h.distinct i j _ q hi hq (hnew.symm.trans hhash), hop⟩
  distinct := by
    intro j j' p q hp hq hhash
    obtain ⟨p', hp', hpcall⟩ := Pool.advance_call hi hp
    obtain ⟨q', hq', hqcall⟩ := Pool.advance_call hi hq
    refine h.distinct j j' p' q' hp' hq' ?_
    rw [hpcall, hqcall, hhash]

theorem advance_read (h : Smooth E s) {op : AuthStmt}
    {k : Except Failure op.Res → AuthProg AuthResult} (hi : s.procs[i]? = some ⟨c, .call op k⟩)
    {a : op.Res}
    (hfree : ∀ email, (⟨op, .ok a⟩ : AuthReply) = ⟨.existsByEmail email, .ok false⟩ →
      ∀ r ∈ s.db.user.rows, E.sqlEq r.email email = false)
    (haccount : ∀ name email hash type id,
      (⟨op, .ok a⟩ : AuthReply) ≠ ⟨.createUser name email hash type, .ok id⟩)
    (hfound : ∀ id r, (⟨op, .ok a⟩ : AuthReply) = ⟨.findUserById id, .ok r⟩ →
      ∃ u ∈ s.db.user.rows, r = some u ∧ u.id = id)
    (hissued : ∀ u F h x ua ip n,
      (⟨op, .ok a⟩ : AuthReply) ≠ ⟨.createToken u F h x ua ip, .ok n⟩) :
    Smooth E (s.advance i c op (.ok a) s.db k) :=
  h.advance hi h.keyed (fun _ hr => hr) (fun _ hr => hr) (fun _ hr => .inl hr)
    (fun _ hr => .inl hr) hfree (fun _ _ _ _ _ ha => absurd ha (haccount _ _ _ _ _)) hfound
    fun _ _ _ _ _ _ _ ha => absurd ha (hissued _ _ _ _ _ _ _)

theorem logged {r : AuthReply} (hr : r ∈ Pool.replies i s.log) :
    ∃ e ∈ s.log, e.pid = i ∧ e.answer = r := by
  obtain ⟨e, he, hi, rfl⟩ := Pool.mem_replies hr
  exact ⟨e, he, hi, rfl⟩

/-- When a call inserts its account, the email is free. -/
theorem free_of_not_overtaken (h : Smooth E s) {email : Bytes}
    (hlooked : ⟨.existsByEmail email, .ok false⟩ ∈ Pool.replies i s.log)
    (hopen : ¬ s.Overtaken E i email) : ∀ r ∈ s.db.user.rows, E.sqlEq r.email email = false := by
  intro r hr
  obtain ⟨e, he, hi, hanswer⟩ := logged hlooked
  obtain ⟨l, l', hlog⟩ := List.append_of_mem he
  by_contra htaken
  exact hopen ⟨l, e, l', hlog, hi, hanswer,
    h.free l e l' email hlog hanswer r hr (by simpa using htaken)⟩

/-- An account that a call has created is found by its id. -/
theorem account_found (h : Smooth E s) {name email hash type : Bytes} {id : ℕ}
    (hcreated : ⟨.createUser name email hash type, .ok id⟩ ∈ Pool.replies i s.log) :
    ∃ v, UserModel.findById s.db id = some v := by
  obtain ⟨e, he, -, hanswer⟩ := logged hcreated
  obtain ⟨u, hu, hid, -, hlive⟩ := h.accounts e he _ _ _ _ _ hanswer
  exact Option.isSome_iff_exists.mp (UserModel.findById_isSome.mpr ⟨u, hu, hid, hlive⟩)

/-- A call that has created no token has a hash that no row has. -/
theorem hash_unused (h : Smooth E s) {p : AuthProc} (hi : s.procs[i]? = some p)
    (hnone : ∀ r ∈ Pool.replies i s.log, r.op.creates = false) :
    ∀ r ∈ s.db.refreshToken.rows, r.tokenHash ≠ E.sha256 p.call.2.token := by
  intro r hr hhash
  obtain ⟨e, he, hpid, hcreates⟩ := h.fresh i p hi r hr hhash
  have hnot : e.op.creates = false := hnone e.answer (Pool.replies_of_mem he hpid)
  rw [hnot] at hcreates
  cases hcreates

theorem create_account (h : Smooth E s) {name email hash type : Bytes}
    {k : Except Failure ℕ → AuthProg AuthResult}
    (hi : s.procs[i]? = some ⟨c, .call (.createUser name email hash type) k⟩)
    (hfree : ∀ r ∈ s.db.user.rows, E.sqlEq r.email email = false) :
    Smooth E (s.advance i c (.createUser name email hash type)
      (E.exec (.createUser name email hash type) s.now s.db).1
      (E.exec (.createUser name email hash type) s.now s.db).2 k) := by
  let row (id : ℕ) : UserRow := ⟨id, name, email, hash, type, none, E.zone.date s.now,
    some (E.zone.date s.now), none⟩
  have hexec : E.exec (.createUser name email hash type) s.now s.db =
      (.ok s.db.user.autoIncrement, { s.db with user := s.db.user.insert row }) :=
    UserModel.create_of_free hfree _ _ _ _
  rw [hexec]
  refine h.advance hi (h.keyed.insert fun _ => rfl) (fun r hr => Table.mem_insert.mpr (.inl hr))
    (fun _ hr => hr) (fun r hr => ?_) (fun _ hr => .inl hr) (by simp) ?_ (by simp) (by simp)
  · rcases Table.mem_insert.mp hr with hr | rfl
    · exact .inl hr
    · exact .inr fun email heq => ⟨_, _, _, _, rfl, heq⟩
  · intro name' email' hash' type' id hanswer
    simp only [Reply.mk.injEq, AuthStmt.createUser.injEq] at hanswer
    obtain ⟨⟨rfl, rfl, rfl, rfl⟩, hid⟩ := hanswer
    refine ⟨row s.db.user.autoIncrement, Table.mem_insert.mpr (.inr rfl), ?_, rfl, rfl⟩
    simpa using hid

theorem create_token (h : Smooth E s) {userId : ℕ} {family : Bytes} {x : LocalTime}
    {ua ip : Option Bytes} {k : Except Failure ℕ → AuthProg AuthResult}
    (hi : s.procs[i]? = some
      ⟨c, .call (.createToken userId family (E.sha256 c.2.token) x ua ip) k⟩)
    (hunused : ∀ r ∈ s.db.refreshToken.rows, r.tokenHash ≠ E.sha256 c.2.token) :
    Smooth E (s.advance i c (.createToken userId family (E.sha256 c.2.token) x ua ip)
      (E.exec (.createToken userId family (E.sha256 c.2.token) x ua ip) s.now s.db).1
      (E.exec (.createToken userId family (E.sha256 c.2.token) x ua ip) s.now s.db).2 k) := by
  let row (id : ℕ) : RefreshTokenRow := ⟨id, userId, family, E.sha256 c.2.token, x, none,
    ua.map (·.take 255), ip, E.zone.date s.now⟩
  have hexec : E.exec (.createToken userId family (E.sha256 c.2.token) x ua ip) s.now s.db =
      (.ok s.db.refreshToken.autoIncrement,
        { s.db with refreshToken := s.db.refreshToken.insert row }) :=
    RefreshTokenModel.create_of_new hunused _ _ _ _ _
  rw [hexec]
  refine h.advance hi h.keyed (fun _ hr => hr) (fun r hr => Table.mem_insert.mpr (.inl hr))
    (fun _ hr => .inl hr) (fun r hr => ?_) (by simp) (by simp) (by simp) ?_
  · rcases Table.mem_insert.mp hr with hr | rfl
    · exact .inl hr
    · exact .inr ⟨rfl, rfl⟩
  · intro u F hash' x' ua' ip' n hanswer
    simp only [Reply.mk.injEq, AuthStmt.createToken.injEq] at hanswer
    obtain ⟨⟨rfl, rfl, rfl, rfl, rfl, rfl⟩, -⟩ := hanswer
    exact ⟨_, Table.mem_insert.mpr (.inr rfl), rfl, rfl, rfl⟩

theorem step (h : Smooth E s) {op : AuthStmt} {k : Except Failure op.Res → AuthProg AuthResult}
    (hi : s.procs[i]? = some ⟨c, .call op k⟩) (hopen : s.Unopposed E (.step i)) :
    Smooth E (s.advance i c op (E.exec op s.now s.db).1 (E.exec op s.now s.db).2 k) := by
  obtain ⟨dto, ua, ip, -, hstage⟩ := h.stage hi
  obtain ⟨hdeleted, hovertaken⟩ := hopen c op k hi
  generalize hrs : Pool.replies i s.log = rs at hstage
  simp only at hstage
  cases hstage with
  | asking =>
    refine h.advance_read hi (a := UserModel.existsByEmail E.sqlEq s.db dto.email) ?_ (by simp)
      (by simp) (by simp)
    intro email hanswer r hr
    simp only [Reply.mk.injEq, AuthStmt.existsByEmail.injEq] at hanswer
    obtain ⟨rfl, hfalse⟩ := hanswer
    by_cases hlive : r.deletedAt = none
    · exact UserModel.sqlEq_of_existsByEmail (by simpa using hfalse) r hr hlive
    · exact hdeleted _ rfl r hr hlive
  | @inserting hash k hhash =>
    have hfree := h.free_of_not_overtaken (i := i) (hrs ▸ List.mem_cons_self)
      (hovertaken _ _ _ _ rfl)
    exact h.create_account hi hfree
  | @looking hash id k hhash =>
    have hcreated : ⟨.createUser dto.name dto.email hash UserType.staff, .ok id⟩ ∈
        Pool.replies i s.log := by simp [hrs]
    obtain ⟨v, hv⟩ := h.account_found hcreated
    have hexec : E.exec (.findUserById id) s.now s.db = (.ok (some v), s.db) := by
      simp only [AuthEnv.exec, hv]
    rw [hexec]
    refine h.advance_read hi (by simp) (by simp) ?_ (by simp)
    intro id' r hanswer
    simp only [Reply.mk.injEq, AuthStmt.findUserById.injEq] at hanswer
    obtain ⟨rfl, hr⟩ := hanswer
    refine ⟨v, (Table.first_mem hv).1, ?_, UserModel.findById_id hv⟩
    simpa using hr.symm
  | @issuing hash id user x k =>
    have hnone : ∀ r ∈ Pool.replies i s.log, r.op.creates = false := by
      simp [hrs, AuthStmt.creates]
    exact h.create_token hi (h.hash_unused hi hnone)
  | @signing hash id user x n claims k =>
    exact h.advance_read hi (by simp) (by simp) (by simp) (by simp)

theorem act (h : Smooth E s) {a : AuthAct} {s' : AuthPool} (hcalls : s.Registrations E a)
    (hopen : s.Unopposed E a) (ha : Pool.act E.exec (AuthPool.start E) s a = some s') :
    Smooth E s' := by
  rcases Pool.act_cases ha with ⟨⟨call, R⟩, rfl, rfl⟩ | ⟨t, rfl, rfl⟩ |
    ⟨i, c, op, k, rfl, hi, rfl⟩ | ⟨i, e, c, op, k, rfl, hi, rfl⟩
  · exact h.spawn hcalls hopen
  · exact { h with traced := ⟨h.traced.rest, h.traced.event⟩ }
  · exact h.step hi hopen
  · exact hcalls.elim

end Smooth

/-- The account that an answer says was created. -/
def AuthReply.account : AuthReply → Option ℕ
  | ⟨.createUser .., .ok id⟩ => some id
  | _ => none

/-- The token row that an answer says was created. -/
def AuthReply.token : AuthReply → Option ℕ
  | ⟨.createToken .., .ok id⟩ => some id
  | _ => none

namespace AuthPool

/-- The accounts that call `i` has created. -/
def accounts (s : AuthPool) (i : ℕ) : List ℕ := (Pool.replies i s.log).filterMap AuthReply.account

/-- The token rows that call `i` has created. -/
def tokens (s : AuthPool) (i : ℕ) : List ℕ := (Pool.replies i s.log).filterMap AuthReply.token

end AuthPool

/-- Call `i` has created one account, that of the session, and one token, which stands for it. -/
structure Registered (E : AuthEnv) (s : AuthPool) (i : ℕ) (dto : RegisterRequest)
    (session : Session) : Prop where
  accounts : s.accounts i = [session.user.id]
  tokens : (s.tokens i).length = 1
  user : ∃ u ∈ s.db.user.rows, toPublicArray u = session.user ∧ u.email = dto.email
    ∧ u.deletedAt = none
  token : ∃ r ∈ s.db.refreshToken.rows, r.tokenHash = E.sha256 session.refreshToken
    ∧ r.userId = session.user.id ∧ r.revokedAt = none

theorem Smooth.outcome {s : AuthPool} (h : Smooth E s) {i : ℕ} {p : AuthProc}
    {r : Except Failure AuthResult} (hi : s.procs[i]? = some p) (hr : p.rest.outcome? = some r) :
    ∃ dto ua ip, p.call.1 = .register dto ua ip
      ∧ ((∃ session, r = .ok (.session session) ∧ Registered E s i dto session)
        ∨ (r = .error emailTaken ∧ s.accounts i = [] ∧ s.tokens i = [])) := by
  obtain ⟨dto, ua, ip, hcall, hstage⟩ := h.stage hi
  refine ⟨dto, ua, ip, hcall, ?_⟩
  obtain ⟨c, q⟩ := p
  generalize hrs : Pool.replies i s.log = rs at hstage
  simp only at hstage hr
  cases hstage with
  | refused =>
    refine .inr ⟨(Option.some.inj hr).symm, ?_, ?_⟩
    · simp [AuthPool.accounts, hrs, AuthReply.account]
    · simp [AuthPool.tokens, hrs, AuthReply.token]
  | @lost hash id =>
    obtain ⟨e, he, -, hanswer⟩ := @Smooth.logged s i ⟨.findUserById id, .ok none⟩
      (by rw [hrs]; simp)
    obtain ⟨u, -, hnone, -⟩ := h.found e he id none hanswer
    cases hnone
  | @done hash id user x n claims token expiresIn =>
    obtain ⟨e, he, -, hanswer⟩ := @Smooth.logged s i ⟨.createUser _ _ _ _, .ok id⟩
      (by rw [hrs]; simp)
    obtain ⟨u, hu, hid, hemail, hlive⟩ := h.accounts e he _ _ _ _ _ hanswer
    obtain ⟨e, he, -, hanswer⟩ := @Smooth.logged s i ⟨.findUserById id, .ok (some user)⟩
      (by rw [hrs]; simp)
    obtain ⟨v, hv, huser, hvid⟩ := h.found e he _ _ hanswer
    obtain rfl := Option.some.inj huser
    obtain rfl := h.keyed.eq_of_key hu hv (hid.trans hvid.symm)
    obtain ⟨e, he, -, hanswer⟩ := @Smooth.logged s i ⟨.createToken _ _ _ _ _ _, .ok n⟩
      (by rw [hrs]; simp)
    obtain ⟨row, hrow, hhash, huid, hunrevoked⟩ := h.issued e he _ _ _ _ _ _ _ hanswer
    refine .inl ⟨_, (Option.some.inj hr).symm, ?_, ?_, ⟨u, hu, rfl, hemail, hlive⟩,
      ⟨row, hrow, hhash, huid, hunrevoked⟩⟩
    · rw [AuthPool.accounts, hrs]
      exact congrArg (fun id => [id]) hid.symm
    · rw [AuthPool.tokens, hrs]
      rfl
  | _ => cases hr

/-- In every interleaving of registrations that do not run into one of the two gaps, each comes to
one account with its session, or is refused for its email; no statement fails, and where a look-up
finds the email free the insert would be accepted. -/
theorem registers_or_refuses {db₀ : AuthDb} {now₀ : Int} {s : AuthPool}
    (hkeyed : db₀.user.Keyed (·.id))
    (run : Pool.Steps E.exec (AuthPool.start E) (AuthPool.Smoothly E) (AuthPool.idle db₀ now₀) s) :
    (∀ (i : ℕ) (p : AuthProc) (r : Except Failure AuthResult), s.procs[i]? = some p →
        p.rest.outcome? = some r → ∃ dto ua ip, p.call.1 = .register dto ua ip
          ∧ ((∃ session, r = .ok (.session session) ∧ Registered E s i dto session)
            ∨ (r = .error emailTaken ∧ s.accounts i = [] ∧ s.tokens i = [])))
      ∧ (∀ e ∈ s.log, ∃ a, e.reply = .ok a)
      ∧ ∀ i c email k, s.procs[i]? = some ⟨c, .call (.existsByEmail email) k⟩ →
        s.Unopposed E (.step i) → UserModel.existsByEmail E.sqlEq s.db email = false →
        ∀ now name hash type,
          ∃ id, (UserModel.create E.sqlEq now s.db name email hash type).1 = .ok id := by
  have hsmooth : Smooth E s := Pool.Steps.inv (I := Smooth E) run
    (fun _ _ _ h hG ha => h.act hG.1 hG.2 ha) (.idle hkeyed)
  refine ⟨fun i p r hi hr => hsmooth.outcome hi hr, hsmooth.replied, ?_⟩
  intro i c email k hi hopen hnone now name hash type
  have hfree : ∀ r ∈ s.db.user.rows, E.sqlEq r.email email = false := by
    intro r hr
    by_cases hlive : r.deletedAt = none
    · exact UserModel.sqlEq_of_existsByEmail hnone r hr hlive
    · exact (hopen c _ k hi).1 email rfl r hr hlive
  exact ⟨s.db.user.autoIncrement, by rw [UserModel.create_of_free hfree]⟩

/-! ## The two gaps -/

namespace RegisterSample

def ann : RegisterRequest :=
  ⟨ascii "Ann", ascii "ann@example.com", ascii "secret-1", ascii "secret-1"⟩

/-- A deleted account of the same email. -/
def deleted : AuthDb :=
  { Sample.db with
    user := ⟨[⟨1, ascii "Ann", ascii "ann@example.com", [], UserType.staff, none, ⟨0⟩, none,
      some ⟨1⟩⟩], 2⟩ }

def call (n : UInt8) : AuthAct := .spawn (.register ann none none, Sample.entropy n)

/-- Call `i` runs to its end alone. -/
def alone (i : ℕ) : List AuthAct := List.replicate 5 (.step i)

/-- The email of the sample is free for the statement, as long as no account was inserted. -/
def unopposed (s : AuthPool) : AuthStmt → Bool
  | .existsByEmail email => s.db.user.rows.all fun r => r.deletedAt = none || r.email ≠ email
  | .createUser .. => s.log.all fun e => match e.op with
    | .createUser .. => false
    | _ => true
  | _ => true

def registrations (s : AuthPool) : AuthAct → Bool
  | .spawn (.register _ _ _, R) =>
    (s.procs.all fun p => Sample.sha256 p.call.2.token ≠ Sample.sha256 R.token)
      && s.db.refreshToken.rows.all fun r => r.tokenHash ≠ Sample.sha256 R.token
  | .step _ => true
  | _ => false

def smoothly (s : AuthPool) (a : AuthAct) : Bool :=
  registrations s a && match a with
    | .step i => (s.procs[i]?.bind (·.rest.statement?)).all (unopposed s)
    | _ => true

theorem registrations_sound {s : AuthPool} {a : AuthAct} (h : registrations s a = true) :
    s.Registrations Sample.env a := by
  cases a with
  | spawn c =>
    obtain ⟨call, R⟩ := c
    cases call with
    | register dto ua ip =>
      simp only [registrations, Bool.and_eq_true, List.all_eq_true, decide_eq_true_eq] at h
      exact ⟨⟨dto, ua, ip, rfl⟩, h.1, h.2⟩
    | _ => cases h
  | fail i e => cases h
  | _ => trivial

theorem smoothly_sound (s : AuthPool) (a : AuthAct) (h : smoothly s a = true) :
    s.Smoothly Sample.env a := by
  simp only [smoothly, Bool.and_eq_true] at h
  refine ⟨registrations_sound h.1, ?_⟩
  cases a with
  | spawn c => exact fun _ _ _ _ => nofun
  | step i =>
    intro c op k hi
    have hop : unopposed s op = true := by simpa [hi, Prog.statement?] using h.2
    constructor
    · rintro email rfl r hr hdeleted
      simp only [unopposed, List.all_eq_true, Bool.or_eq_true, decide_eq_true_eq] at hop
      simpa [Sample.env] using (hop r hr).resolve_left hdeleted
    · rintro name email hash type rfl ⟨l, e, l', hlog, -, -, d, hd, name', email', hash', type',
        hinsert, -⟩
      simp only [unopposed, List.all_eq_true] at hop
      have hnone := hop d (by rw [hlog]; exact List.mem_append_left _ hd)
      rw [hinsert] at hnone
      cases hnone
  | _ => trivial

end RegisterSample

open RegisterSample

/-- Of two registrations one after the other, one comes to its account and the other is refused. -/
theorem registers_or_refuses_sample :
    ∃ s : AuthPool, s.procs.length = 2 ∧ ∀ (i : ℕ) (p : AuthProc), s.procs[i]? = some p →
      ∃ r, p.rest.outcome? = some r ∧ ∃ dto ua ip, p.call.1 = .register dto ua ip
        ∧ ((∃ session, r = .ok (.session session) ∧ Registered Sample.env s i dto session)
          ∨ (r = .error emailTaken ∧ s.accounts i = [] ∧ s.tokens i = [])) := by
  have h : ∃ s ∈ Pool.acts Sample.env.exec (AuthPool.start Sample.env)
      (fun s a => smoothly s a = true) ([call 1] ++ alone 0 ++ [call 2, .step 1])
      (AuthPool.idle Sample.db 0),
      s.procs.length = 2 ∧ ∀ p ∈ s.procs, p.rest.outcome?.isSome = true := by
    decide +kernel
  obtain ⟨s, hs, hlength, hended⟩ := h
  have run := (Pool.steps_of_acts hs).mono smoothly_sound
  have hkeyed : Sample.db.user.Keyed (·.id) := ⟨List.Pairwise.nil, by simp [Sample.db]⟩
  refine ⟨s, hlength, fun i p hi => ?_⟩
  obtain ⟨r, hr⟩ := Option.isSome_iff_exists.mp (hended p (List.mem_of_getElem? hi))
  exact ⟨r, hr, (registers_or_refuses hkeyed run).1 i p r hi hr⟩

/-- The look-up passes over a deleted account, and of two registrations both find the email free:
either way the insert violates the index. -/
theorem registration_violates_index :
    (∃ s : AuthPool, UserSchema Sample.env.sqlEq deleted.user
        ∧ Pool.Steps Sample.env.exec (AuthPool.start Sample.env)
          (AuthPool.Registrations Sample.env) (AuthPool.idle deleted 0) s
        ∧ s.procs.map (·.rest.outcome?) = [some (.error .database)])
      ∧ ∃ s : AuthPool, Pool.Steps Sample.env.exec (AuthPool.start Sample.env)
          (AuthPool.Registrations Sample.env) (AuthPool.idle Sample.db 0) s
        ∧ (s.procs.map (·.rest.outcome?))[1]? = some (some (.error .database)) := by
  have hdeleted : ∃ s ∈ Pool.acts Sample.env.exec (AuthPool.start Sample.env)
      (fun s a => registrations s a = true) [call 1, .step 0, .step 0] (AuthPool.idle deleted 0),
      s.procs.map (·.rest.outcome?) = [some (.error .database)] := by
    decide +kernel
  have hraced : ∃ s ∈ Pool.acts Sample.env.exec (AuthPool.start Sample.env)
      (fun s a => registrations s a = true) [call 1, call 2, .step 0, .step 1, .step 0, .step 1]
      (AuthPool.idle Sample.db 0),
      (s.procs.map (·.rest.outcome?))[1]? = some (some (.error .database)) := by
    decide +kernel
  obtain ⟨s, hs, hend⟩ := hdeleted
  obtain ⟨s', hs', hend'⟩ := hraced
  refine ⟨⟨s, ⟨⟨List.pairwise_singleton _ _, by simp [deleted]⟩, List.pairwise_singleton _ _⟩,
    (Pool.steps_of_acts hs).mono fun _ _ => registrations_sound, hend⟩,
    s', (Pool.steps_of_acts hs').mono fun _ _ => registrations_sound, hend'⟩

end SlimStarter
