import SlimStarter.Http.Directory
import SlimStarter.Http.Queue

/-!
# Changes are committed once

However calls interleave, the directory changes at single statements, each of which commits what it
does to it (`exec_committed`). A request for an operation commits what its operation does, once,
and it is answered with the customer as the directory has it at a later moment; where the answer is
an error it has committed nothing, unless the customer was gone from the directory at such a moment
(404) or a statement of the request failed (500). No other request commits anything, on its way
either (`operations_committed_once`).
-/

namespace SlimStarter

open Register (Commit Operation)
open Monitor (keeps_bind keeps_stmt keeps_map keeps_tryCatch)
open Pool (EndsIn Ending)
open CustomerService (assertUnique bump dropAvatar toPublicArray)

/-- What a statement with its reply has committed. -/
def CustomerStmt.committed : (op : CustomerStmt) → Except Failure op.Res →
    List (Commit CustomerData)
  | .create d, .ok id => [.enter id d]
  | .createMany rows, .ok _ => [.enterAll (rows.map (·.toCustomerData))]
  | .update id (.data d), .ok _ => [.put id (some d)]
  | .deleteById id, .ok _ => [.put id none]
  | _, _ => []

def AppStmt.committed : (op : AppStmt) → Except Failure op.Res → List (Commit CustomerData)
  | .customer op, r => op.committed r
  | _, _ => []

/-- What the events of a log have committed, in their order. -/
def AppEvent.commits (log : List AppEvent) : List (Commit CustomerData) :=
  log.reverse.flatMap fun e => e.op.committed e.reply

theorem CustomerStmt.committed_error (op : CustomerStmt) (e : Failure) :
    op.committed (.error e) = [] := by
  cases op with
  | update id change => cases change <;> rfl
  | _ => rfl

theorem CustomerStmt.committed_kept {op : CustomerStmt} (h : op.keepsDirectory = true)
    (r : Except Failure op.Res) : op.committed r = [] := by
  cases op with
  | update id change =>
    cases change with
    | data d => cases h
    | avatarPath path => rfl
  | create | createMany | deleteById => cases h
  | _ => rfl

section Exec

variable {E : AppEnv} {F : CustomerEnv} {i : Int}

theorem directory_insert_all (rows : List NewCustomer) :
    ∀ {db : CustomerDb}, db.customer.Keyed (·.id) →
      ({ db with customer := rows.foldl (fun t c => t.insert (NewCustomer.row c)) db.customer } :
        CustomerDb).directory =
        (rows.map (·.toCustomerData)).foldl Register.add db.directory := by
  induction rows with
  | nil => exact fun _ => rfl
  | cons c rows ih =>
    intro db h
    have hinsert : (db.customer.insert (NewCustomer.row c)).Keyed (·.id) := h.insert fun _ => rfl
    rw [List.map_cons, List.foldl_cons, List.foldl_cons, ← directory_insert h c]
    exact @ih { db with customer := db.customer.insert (NewCustomer.row c) } hinsert

/-- An update of a customer that is not there changes nothing that the directory has. -/
theorem directory_update_missing {db : CustomerDb} {id : ℕ} {d : CustomerData}
    (h : db.customer.Keyed (·.id)) (hentry : db.directory.entry id = none) :
    (F.exec (.update id (.data d)) i db).2.directory = db.directory := by
  have hkeyed : (F.exec (.update id (.data d)) i db).2.customer.Keyed (·.id) :=
    exec_keyed h (.update id (.data d))
  refine directory_ext rfl fun k => ?_
  by_cases hk : k = id
  · subst hk
    rw [hentry]
    refine Option.map_eq_none_iff.mpr (Option.eq_none_iff_forall_ne_some.mpr fun r hfound => ?_)
    obtain ⟨hr, hid, hlive⟩ := (findById_eq_some_iff hkeyed).mp hfound
    rcases Table.mem_update.mp hr with ⟨-, hne⟩ | ⟨r', hr', hid', rfl⟩
    · simp [hid] at hne
    · have hfound' : CustomerModel.findById db.customer k = some r' :=
        (findById_eq_some_iff h).mpr ⟨hr', of_decide_eq_true hid', hlive⟩
      simp [CustomerDb.directory, hfound'] at hentry
  · refine congrArg (Option.map _) ?_
    apply findById_update _ hk
    exact fun _ => rfl

/-- A statement makes of the directory what it commits. -/
theorem CustomerEnv.exec_committed {db : CustomerDb} (h : db.customer.Keyed (·.id))
    (op : CustomerStmt) : (F.exec op i db).2.directory =
      (op.committed (F.exec op i db).1).foldl Register.commit db.directory := by
  by_cases hkept : op.keepsDirectory = true
  · rw [op.committed_kept hkept]
    exact directory_kept hkept
  cases op with
  | create d => exact directory_create h
  | createMany rows => exact directory_insert_all rows h
  | update id change =>
    cases change with
    | data d =>
      show _ = Register.commit db.directory (.put id (some d))
      cases hentry : db.directory.entry id with
      | none =>
        rw [directory_update_missing h hentry]
        simp [Register.commit, hentry]
      | some c =>
        rw [directory_update h (by simp [hentry])]
        simp [Register.commit, hentry]
    | avatarPath path => exact absurd rfl hkept
  | deleteById id =>
    show _ = Register.commit db.directory (.put id none)
    rw [directory_delete h]
    cases hentry : db.directory.entry id with
    | none => simp [Register.commit, hentry, Register.put_none_eq_self hentry]
    | some c => simp [Register.commit, hentry]
  | _ => exact absurd rfl hkept

theorem AppEnv.exec_committed {db : AppDb} (h : db.customer.customer.Keyed (·.id)) (op : AppStmt) :
    (E.exec op i db).2.customer.directory =
      (op.committed (E.exec op i db).1).foldl Register.commit db.customer.directory := by
  cases op with
  | customer op => exact E.customer.exec_committed h op
  | «export» op => cases op <;> rfl
  | _ => rfl

end Exec

/-- The directory is what the statements of a run have made of it, in their order. -/
theorem directory_eq_commits {E : AppEnv} {G : AppPool → AppAct → Prop} {db : AppDb} {now : Int}
    {s : AppPool} (h : db.customer.customer.Keyed (·.id))
    (run : Pool.Steps E.exec (AppPool.start E) G (AppPool.idle db now) s) :
    s.db.customer.customer.Keyed (·.id) ∧ s.db.customer.directory =
      (AppEvent.commits s.log).foldl Register.commit db.customer.directory := by
  refine run.inv (I := fun s => s.db.customer.customer.Keyed (·.id) ∧ s.db.customer.directory =
    (AppEvent.commits s.log).foldl Register.commit db.customer.directory)
    (fun s₁ s₂ a hinv _ ha => ?_) ⟨h, rfl⟩
  obtain ⟨hkeyed, hdirectory⟩ := hinv
  obtain ⟨c, rfl, rfl⟩ | ⟨t, rfl, rfl⟩ | ⟨i, c, op, k, rfl, hi, rfl⟩ |
    ⟨i, e, c, op, k, rfl, hi, rfl⟩ := Pool.act_cases ha
  · exact ⟨hkeyed, hdirectory⟩
  · exact ⟨hkeyed, hdirectory⟩
  · refine ⟨App.exec_keyed op _ hkeyed, ?_⟩
    simp only [Pool.advance_db, AppEnv.exec_committed hkeyed, hdirectory, Pool.advance_log,
      AppEvent.commits, List.reverse_cons, List.flatMap_append, List.flatMap_cons,
      List.flatMap_nil, List.append_nil, List.foldl_append]
  · have hnone : op.committed (.error e) = [] := by
      cases op with
      | customer op => exact op.committed_error e
      | _ => rfl
    refine ⟨hkeyed, ?_⟩
    simp only [Pool.advance_db, hdirectory, Pool.advance_log, AppEvent.commits, List.reverse_cons,
      List.flatMap_append, List.flatMap_cons, List.flatMap_nil, List.append_nil, hnone]

/-- The id that a statement has looked up, and what it has found. -/
def CustomerStmt.shown : (op : CustomerStmt) → Except Failure op.Res →
    Option (ℕ × Option CustomerRow)
  | .findById id, .ok found => some (id, found)
  | _, _ => none

/-- The reply is an exception of the application's own, which no statement fails with. -/
def Failure.isOwn {α : Type} : Except Failure α → Bool
  | .error (.app _) => true
  | _ => false

/-- What a call has committed, what its last statement has found, whether a statement has failed,
and whether all that did have failed as statements do. -/
structure Progress where
  commits : List (Commit CustomerData)
  shown : Option (ℕ × Option CustomerRow)
  failed : Bool
  genuine : Bool

def Progress.start : Progress := ⟨[], none, false, true⟩

def serviceProgress : Monitor CustomerStmt CustomerStmt.Res Failure Progress where
  next φ op r := ⟨φ.commits ++ op.committed r, op.shown r, φ.failed || !r.isOk,
    φ.genuine && !Failure.isOwn r⟩
  allowed _ _ := True

def AppStmt.shown : (op : AppStmt) → Except Failure op.Res → Option (ℕ × Option CustomerRow)
  | .customer op, r => op.shown r
  | _, _ => none

def appProgress : Monitor AppStmt AppStmt.Res Failure Progress where
  next φ op r := ⟨φ.commits ++ op.committed r, op.shown r, φ.failed || !r.isOk,
    φ.genuine && !Failure.isOwn r⟩
  allowed _ _ := True

theorem progress_onCustomers {α : Type} {Q : Progress → α → Prop} {T : Progress → Failure → Prop}
    {φ : Progress} {p : CustomerProg α} (h : serviceProgress.Keeps Q T φ p) :
    appProgress.Keeps Q T φ (onCustomers p) := by
  induction p generalizing φ with
  | ret a => exact h
  | throw e => exact h
  | clock k ih => exact fun t => ih t (h t)
  | call op k ih =>
    refine ⟨trivial, fun r => ?_⟩
    cases r with
    | error e => exact ih _ (h.2 (.error e))
    | ok a => exact ih _ (h.2 (.ok a))

namespace Progress

variable {E : CustomerEnv} {φ : Progress} {operation : Operation CustomerData} {d : CustomerData}
variable {id : ℕ}

/-- A method for the operation has committed it once and returns what it has found since, or it has
committed nothing, unless it has found the customer gone since or a statement has failed. -/
def Ends (E : CustomerEnv) (operation : Operation CustomerData) (φ : Progress) :
    Except Failure (Option PublicCustomer) → Prop
  | .ok none => ∃ key, operation = .remove key ∧ φ.commits = operation.commits key
  | .ok (some c) => ∃ key row, operation.At key ∧ φ.commits = operation.commits key
      ∧ φ.shown = some (key, some row) ∧ c = toPublicArray E row
  | .error e => φ.genuine = true → φ.commits = []
      ∨ ∃ key, operation.At key ∧ φ.commits = operation.commits key
        ∧ (e = .notFoundException "Customer not found." ∧ φ.shown = some (key, none)
          ∨ e.IsFault ∧ φ.failed = true)

/-- A program without writes has committed what there was before. -/
theorem silent {α : Type} {p : CustomerProg α} (commits : List (Commit CustomerData))
    (h : Prog.Only (fun op => op.keepsDirectory = true) (fun _ => True) p)
    (hφ : φ.commits = commits) :
    serviceProgress.Keeps (fun ψ _ => ψ.commits = commits) (fun ψ _ => ψ.commits = commits) φ
      p := by
  have hkeeps := Monitor.Keeps.of_inv (m := serviceProgress)
    (I := fun ψ => ψ.commits = commits) (fun ψ op r hop hψ => by
      simp [serviceProgress, op.committed_kept hop, hψ]) (fun _ _ _ => trivial) h hφ
  exact hkeeps.mono (fun ψ a hψ => hψ.1) fun ψ e hψ => hψ

/-- A statement that fails does so with no exception of the application. -/
theorem isFault_of_genuine {op : CustomerStmt} {e : Failure}
    (h : (serviceProgress.next φ op (.error e)).genuine = true) :
    e.IsFault ∧ (serviceProgress.next φ op (.error e)).failed = true := by
  refine ⟨?_, by simp [serviceProgress, Except.isOk, Except.toBool]⟩
  rintro exception rfl
  simp [serviceProgress, Failure.isOwn] at h

/-- What comes after a commit, where the program ends with a `get`. -/
theorem ends_get {key : ℕ} (hkey : operation.At key) (hφ : φ.commits = operation.commits key) :
    serviceProgress.Keeps (fun ψ c => Ends E operation ψ (.ok (some c)))
      (fun ψ e => Ends E operation ψ (.error e)) φ (CustomerService.get E key) := by
  refine keeps_bind.mpr (keeps_stmt.mpr ⟨trivial, fun e => fun hgenuine => ?_, fun found => ?_⟩)
  · refine .inr ⟨key, hkey, ?_, .inr (isFault_of_genuine hgenuine)⟩
    simp [serviceProgress, CustomerStmt.committed, hφ]
  · cases found with
    | none =>
      refine fun _ => .inr ⟨key, hkey, ?_, .inl ⟨rfl, rfl⟩⟩
      simp [serviceProgress, CustomerStmt.committed, hφ]
    | some row =>
      refine ⟨key, row, hkey, ?_, rfl, rfl⟩
      simp [serviceProgress, CustomerStmt.committed, hφ]

theorem ends_bump {α : Type} {rest : CustomerProg α} {Q : Progress → α → Prop}
    {T : Progress → Failure → Prop} (commits : List (Commit CustomerData))
    (hφ : φ.commits = commits)
    (h : ∀ ψ : Progress, ψ.commits = commits → serviceProgress.Keeps Q T ψ rest) :
    serviceProgress.Keeps Q T φ (do bump E; rest) := by
  rw [bump_eq]
  refine keeps_bind.mpr ?_
  split_ifs
  · refine ⟨trivial, fun r => h _ ?_⟩
    simp [serviceProgress, CustomerStmt.committed, hφ]
  · exact h φ hφ

theorem ends_create : EndsIn serviceProgress (Ends E (.enter d)) start
    (some <$> CustomerService.create E d) := by
  refine keeps_map.mpr (keeps_bind.mpr ?_)
  have hunique : Prog.Only (fun op => op.keepsDirectory = true) (fun _ => True)
      (assertUnique d.name d.email none) :=
    (only_assertUnique _ _ _).imp fun _ => CustomerService.keepsDirectory_of_plain
  refine (silent [] hunique rfl).mono (fun φ _ hφ => ?_) fun φ e hφ _ => .inl hφ
  refine keeps_bind.mpr (keeps_stmt.mpr ⟨trivial, fun e _ => .inl ?_, fun id => ?_⟩)
  · simp [serviceProgress, CustomerStmt.committed, hφ]
  · refine ends_bump [.enter id d] ?_ fun ψ hψ => ends_get trivial hψ
    simp [serviceProgress, CustomerStmt.committed, hφ]

theorem ends_update : EndsIn serviceProgress (Ends E (.replace id d)) start
    (some <$> CustomerService.update E id d) := by
  refine keeps_map.mpr (keeps_bind.mpr (keeps_stmt.mpr ⟨trivial, fun e _ => .inl rfl,
    fun found => ?_⟩))
  cases found with
  | false => exact fun _ => .inl rfl
  | true =>
    have hunique : Prog.Only (fun op => op.keepsDirectory = true) (fun _ => True)
        (assertUnique d.name d.email (some id)) :=
      (only_assertUnique _ _ _).imp fun _ => CustomerService.keepsDirectory_of_plain
    refine keeps_bind.mpr ((silent [] hunique rfl).mono (fun φ _ hφ => ?_)
      fun φ e hφ _ => .inl hφ)
    refine keeps_bind.mpr (keeps_stmt.mpr ⟨trivial, fun e _ => .inl ?_, fun _ => ?_⟩)
    · simp [serviceProgress, CustomerStmt.committed, hφ]
    · refine ends_bump [.put id (some d)] ?_ fun ψ hψ => ends_get rfl hψ
      simp [serviceProgress, CustomerStmt.committed, hφ]

theorem ends_show : EndsIn serviceProgress (Ends E (.lookup id)) start
    (some <$> CustomerService.get E id) :=
  keeps_map.mpr (ends_get rfl rfl)

/-- A statement without a write, after the commit. -/
theorem ends_silent {α : Type} {op : CustomerStmt} {f : op.Res → CustomerProg α}
    {Q : Progress → α → Prop} {key : ℕ} (hop : op.keepsDirectory = true) (hkey : operation.At key)
    (hφ : φ.commits = operation.commits key)
    (h : ∀ a ψ, ψ.commits = operation.commits key →
      serviceProgress.Keeps Q (fun ψ e => Ends E operation ψ (.error e)) ψ (f a)) :
    serviceProgress.Keeps Q (fun ψ e => Ends E operation ψ (.error e)) φ (issue op >>= f) := by
  have hcommits : ∀ r, (serviceProgress.next φ op r).commits = operation.commits key := by
    intro r
    simp [serviceProgress, op.committed_kept hop, hφ]
  exact keeps_bind.mpr (keeps_stmt.mpr ⟨trivial, fun e hgenuine =>
    .inr ⟨key, hkey, hcommits _, .inr (isFault_of_genuine hgenuine)⟩, fun a => h a _ (hcommits _)⟩)

theorem ends_dropAvatar (key : ℕ) (path : Option Bytes) (hkey : operation.At key)
    (hφ : φ.commits = operation.commits key) :
    serviceProgress.Keeps (fun ψ _ => ψ.commits = operation.commits key)
      (fun ψ e => Ends E operation ψ (.error e)) φ (dropAvatar E path) := by
  unfold dropAvatar UploadHelper.deleteUploadedFile
  split
  · exact hφ
  · split_ifs
    · exact hφ
    · split
      · exact hφ
      · rw [bind_assoc]
        refine ends_silent rfl hkey hφ fun isFile ψ hψ => ?_
        cases isFile with
        | false => exact hψ
        | true => exact ends_silent rfl hkey hψ fun _ ψ hψ => hψ

theorem ends_delete : EndsIn serviceProgress (Ends E (.remove id)) start
    ((fun _ => none) <$> CustomerService.delete E id) := by
  refine keeps_map.mpr (keeps_bind.mpr (keeps_stmt.mpr ⟨trivial, fun e _ => .inl rfl,
    fun found => ?_⟩))
  cases found with
  | none => exact fun _ => .inl rfl
  | some row =>
    refine keeps_bind.mpr (keeps_stmt.mpr ⟨trivial, fun e _ => .inl rfl, fun _ => ?_⟩)
    have hkey : (Operation.remove id : Operation CustomerData).At id := rfl
    refine keeps_bind.mpr ((ends_dropAvatar id _ hkey rfl).mono (fun φ _ hφ => ?_) fun _ _ h => h)
    have hpure : bump E = (do bump E; .ret ()) := (bind_pure _).symm
    rw [hpure]
    exact ends_bump _ hφ fun ψ hψ => ⟨id, rfl, hψ⟩

end Progress

namespace Progress

variable {E : AppEnv} {φ : Progress} {operation : Operation CustomerData}

/-- A request for the operation has committed it once and is answered with what it has found since,
or it is answered with an error and has committed nothing, unless it has found the customer gone
since or a statement has failed. -/
def Answers (E : AppEnv) (operation : Operation CustomerData) (φ : Progress) :
    Except Failure Response → Prop
  | .ok response => φ.genuine = true →
    (∃ key, operation.At key ∧ φ.commits = operation.commits key
      ∧ (operation = .remove key ∧ response = Directory.shown E operation none
        ∨ ∃ row, φ.shown = some (key, some row)
          ∧ response = Directory.shown E operation (some (toPublicArray E.customer row))))
    ∨ response.isError ∧ (φ.commits = []
      ∨ ∃ key, operation.At key ∧ φ.commits = operation.commits key
        ∧ (response = Directory.missing E ∧ φ.shown = some (key, none)
          ∨ response.httpStatus = HttpStatus.internalServerError ∧ φ.failed = true))
  | .error e => φ.genuine = true → e.IsFault ∧ (φ.commits = []
      ∨ ∃ key, operation.At key ∧ φ.commits = operation.commits key ∧ φ.failed = true)

theorem answers_attempt {α : Type} {p : CustomerProg α} {customer : α → Option PublicCustomer}
    (h : EndsIn serviceProgress (Ends E.customer operation) start (customer <$> p)) :
    EndsIn appProgress (Answers E operation) start (Controller.attempt E (onCustomers p)
      fun a => Directory.shown E operation (customer a)) := by
  have hp := progress_onCustomers (keeps_map.mp h)
  refine keeps_tryCatch.mpr (keeps_map.mpr (hp.mono (fun φ a hends => ?_) fun φ e hends => ?_))
  · intro _
    cases hcustomer : customer a with
    | none =>
      rw [hcustomer] at hends
      obtain ⟨key, rfl, hcommits⟩ := hends
      exact .inl ⟨key, rfl, hcommits, .inl ⟨rfl, rfl⟩⟩
    | some c =>
      rw [hcustomer] at hends
      obtain ⟨key, row, hkey, hcommits, hshown, rfl⟩ := hends
      exact .inl ⟨key, hkey, hcommits, .inr ⟨row, hshown, rfl⟩⟩
  · cases e with
    | app exception =>
      intro hgenuine
      refine .inr ⟨isError_error, ?_⟩
      rcases hends hgenuine with hnone | ⟨key, hkey, hcommits, ⟨heq, hshown⟩ | ⟨hfault, -⟩⟩
      · exact .inl hnone
      · obtain rfl := Failure.app.inj heq
        exact .inr ⟨key, hkey, hcommits, .inl ⟨rfl, hshown⟩⟩
      · exact absurd rfl (hfault exception)
    | database | valueError | typeError | runtime _ =>
      intro hgenuine
      refine ⟨fun exception => by simp, ?_⟩
      rcases hends hgenuine with hnone | ⟨key, hkey, hcommits, ⟨heq, -⟩ | ⟨-, hfailed⟩⟩
      · exact .inl hnone
      · cases heq
      · exact .inr ⟨key, hkey, hcommits, hfailed⟩

variable {c : Context} {i : Int}

theorem answers_action {action : Action}
    (hop : action.operation E c.request c.id = some operation) :
    EndsIn appProgress (Answers E operation) start (action.run E c) := by
  cases action with
  | «show» =>
    obtain rfl := Option.some.inj hop
    exact answers_attempt ends_show
  | create =>
    simp only [Action.operation] at hop
    split_ifs at hop with hvalid
    obtain rfl := Option.some.inj hop
    simp only [Action.run, Controller.Customer.create, Controller.validated, hvalid, if_true]
    exact answers_attempt ends_create
  | update =>
    simp only [Action.operation] at hop
    split_ifs at hop with hvalid
    obtain rfl := Option.some.inj hop
    simp only [Action.run, Controller.Customer.update, Controller.validated, hvalid, if_true]
    exact answers_attempt ends_update
  | delete =>
    obtain rfl := Option.some.inj hop
    exact answers_attempt ends_delete
  | _ => cases hop

end Progress

variable {E : AppEnv}

variable (E) in
/-- A request answers for its operation. -/
def AppCall.Commits (φ : Progress) (r : Except Failure AppResult) : AppCall → Prop
  | .request arrival received =>
    ∀ operation, received.operation E arrival = some operation →
      ∃ outcome, r = outcome.map .response ∧ φ.Answers E operation outcome
  | _ => True

theorem AppStmt.committed_kept {op : AppStmt} (h : op.keepsDirectory = true)
    (r : Except Failure op.Res) : op.committed r = [] := by
  cases op with
  | customer op => exact op.committed_kept h r
  | _ => rfl

section Requests

variable {received : Request} {R : AppEntropy} {i : Int} {operation : Operation CustomerData}

theorem App.commits_operation (hop : received.operation E i = some operation) :
    EndsIn appProgress (Progress.Answers E operation) .start
      ((App.handle E received R).settle i) := by
  obtain ⟨route, id, hfound, hadd, hadmits, haction⟩ := Request.operation_eq_some hop
  obtain ⟨user, hsettle⟩ := App.settle_admitted (R := R) hfound hadd hadmits
  rw [hsettle]
  refine Monitor.Keeps.settle i (keeps_tryCatch.mpr ?_)
  refine (Progress.answers_action (c := ⟨received, some user, id.map E.rawurldecode, R⟩)
    haction).mono (fun φ response hφ => hφ)
    fun φ e hφ hgenuine => .inr ⟨errorHandler_isError e, ?_⟩
  obtain ⟨hfault, hnone | ⟨key, hkey, hcommits, hfailed⟩⟩ := hφ hgenuine
  · exact .inl hnone
  · refine .inr ⟨key, hkey, hcommits, .inr ⟨?_, hfailed⟩⟩
    cases e with
    | app exception => exact absurd rfl (hfault exception)
    | _ => rfl

end Requests

theorem AppCall.commits {c : AppCall × AppEntropy} {s : AppPool} (h : s.Arrives (.spawn c)) :
    EndsIn appProgress (fun φ r => c.1.Commits E φ r) .start
      ((AppPool.start E c).settle s.now) := by
  obtain ⟨call, R⟩ := c
  cases call with
  | request arrival received =>
    obtain rfl : arrival = s.now := h
    refine Pool.EndsIn.settle_map ?_
    cases hop : received.operation E s.now with
    | none =>
      refine (Monitor.Keeps.of_allowed (fun _ _ _ => trivial) (App.keepsDirectory hop)).mono
        (fun _ _ _ => ?_) fun _ _ _ => ?_ <;> simp [AppCall.Commits, hop]
    | some operation =>
      refine (App.commits_operation hop).mono (fun φ response hφ => ?_) fun φ e hφ => ?_
      · intro operation' hop'
        obtain rfl := Option.some.inj (hop.symm.trans hop')
        exact ⟨.ok response, rfl, hφ⟩
      · intro operation' hop'
        obtain rfl := Option.some.inj (hop.symm.trans hop')
        exact ⟨.error e, rfl, hφ⟩
  | work job =>
    exact Monitor.Keeps.settle s.now (keeps_map.mpr ((Monitor.Keeps.of_allowed
      (fun _ _ _ => trivial) (JobRegistry.within job)).mono (fun _ _ _ => trivial)
        fun _ _ _ => trivial))
  | record jobId state =>
    exact Monitor.Keeps.settle s.now (keeps_map.mpr (keeps_stmt.mpr
      ⟨trivial, fun _ => trivial, fun _ => trivial⟩))

/-! ## Moments -/

section Moments

variable {db : AppDb} {now : Int} {s : AppPool}

/-- What call `i` has come to. -/
def AppPool.progress (s : AppPool) (i : ℕ) : Progress := appProgress.phase .start i s.log

theorem AppPool.progress_commits (s : AppPool) (i : ℕ) :
    (s.progress i).commits = AppEvent.commits (s.log.filter (·.pid = i)) := by
  unfold AppPool.progress
  induction s.log with
  | nil => rfl
  | cons e log ih =>
    by_cases hi : e.pid = i
    · rw [Monitor.phase_cons_self hi, List.filter_cons_of_pos (by simpa using hi)]
      simp only [AppEvent.commits, List.reverse_cons, List.flatMap_append, List.flatMap_cons,
        List.flatMap_nil, List.append_nil]
      exact congrArg (· ++ _) ih
    · rw [Monitor.phase_cons_of_ne hi, ih, List.filter_cons_of_neg (by simpa using hi)]

theorem AppStmt.shown_eq_some {op : AppStmt} {r : Except Failure op.Res} {key : ℕ}
    {found : Option CustomerRow} (h : op.shown r = some (key, found)) :
    op = .customer (.findById key) ∧ HEq r (.ok found : Except Failure (Option CustomerRow)) := by
  cases op with
  | customer op =>
    cases op with
    | findById id =>
      rcases r with e | found'
      · cases h
      · cases h
        exact ⟨rfl, .rfl⟩
    | _ => cases h
  | _ => cases h

/-- What a call has found last is what the directory had at a moment when it had committed as much
as it has now. -/
theorem AppPool.shown_moment {G : AppPool → AppAct → Prop}
    (run : Pool.Steps E.exec (AppPool.start E) G (AppPool.idle db now) s) {i key : ℕ}
    {found : Option CustomerRow} (h : (s.progress i).shown = some (key, found)) :
    ∃ s₁ : AppPool, Pool.Steps E.exec (AppPool.start E) G (AppPool.idle db now) s₁
      ∧ Pool.Steps E.exec (AppPool.start E) G s₁ s
      ∧ (s₁.progress i).commits = (s.progress i).commits
      ∧ CustomerModel.findById s₁.db.customer.customer key = found := by
  induction run with
  | refl => cases h
  | @tail s s' hrun hstep ih =>
    obtain ⟨a, hG, ha⟩ := hstep
    have hbefore : s'.progress i = s.progress i →
        ∃ s₁ : AppPool, Pool.Steps E.exec (AppPool.start E) G (AppPool.idle db now) s₁
          ∧ Pool.Steps E.exec (AppPool.start E) G s₁ s'
          ∧ (s₁.progress i).commits = (s'.progress i).commits
          ∧ CustomerModel.findById s₁.db.customer.customer key = found := by
      intro hsame
      rw [hsame] at h ⊢
      obtain ⟨s₁, hfirst, hthen, hcommits, hfound⟩ := ih h
      exact ⟨s₁, hfirst, hthen.tail ⟨a, hG, ha⟩, hcommits, hfound⟩
    obtain ⟨c, rfl, rfl⟩ | ⟨t, rfl, rfl⟩ | ⟨j, c, op, k, rfl, hj, rfl⟩ |
      ⟨j, e, c, op, k, rfl, hj, rfl⟩ := Pool.act_cases ha
    · exact hbefore rfl
    · exact hbefore rfl
    · by_cases hi : j = i
      · have hnext : AppPool.progress (s.advance j c op (E.exec op s.now s.db).1
            (E.exec op s.now s.db).2 k) i =
              appProgress.next (s.progress i) op (E.exec op s.now s.db).1 :=
          Monitor.phase_cons_self (e := ⟨s.log.length, j, op, _⟩) hi
        rw [hnext] at h ⊢
        obtain ⟨rfl, hreply⟩ := AppStmt.shown_eq_some h
        have hfound : CustomerModel.findById s.db.customer.customer key = found :=
          Except.ok.inj (eq_of_heq hreply)
        refine ⟨s, hrun, .tail .refl ⟨_, hG, ha⟩, ?_, hfound⟩
        exact (List.append_nil _).symm
      · exact hbefore (Monitor.phase_cons_of_ne hi)
    · by_cases hi : j = i
      · have hnext : AppPool.progress (s.advance j c op (.error e) s.db k) i =
            appProgress.next (s.progress i) op (.error e) :=
          Monitor.phase_cons_self (e := ⟨s.log.length, j, op, _⟩) hi
        rw [hnext] at h
        obtain ⟨rfl, hreply⟩ := AppStmt.shown_eq_some h
        cases hreply
      · exact hbefore (Monitor.phase_cons_of_ne hi)

/-- In a run in which statements fail as statements do, those of every call do. -/
theorem AppPool.progress_genuine {G : AppPool → AppAct → Prop}
    (run : Pool.Steps E.exec (AppPool.start E) G (AppPool.idle db now) s)
    (hfaulty : ∀ s a, G s a → AppPool.Faulty s a) (i : ℕ) : (s.progress i).genuine = true := by
  have hlog : ∀ ev ∈ s.log, Failure.isOwn ev.reply = false := by
    have hfault : ∀ {α : Type} {r : Except Failure α}, (∀ e, r = .error e → e.IsFault) →
        Failure.isOwn r = false := by
      intro α r h
      rcases r with (exception | _ | _ | _ | _) | a
      · exact absurd rfl (h _ rfl exception)
      all_goals rfl
    refine run.inv (I := fun s => ∀ ev ∈ s.log, Failure.isOwn ev.reply = false)
      (fun s₁ s₂ a hinv hG ha => ?_) (by simp [AppPool.idle])
    obtain ⟨c, rfl, rfl⟩ | ⟨t, rfl, rfl⟩ | ⟨j, c, op, k, rfl, hj, rfl⟩ |
      ⟨j, e, c, op, k, rfl, hj, rfl⟩ := Pool.act_cases ha
    · exact hinv
    · exact hinv
    · intro ev hev
      rcases List.mem_cons.mp hev with rfl | hev
      · exact hfault (exec_failsWith op _ _)
      · exact hinv ev hev
    · intro ev hev
      rcases List.mem_cons.mp hev with rfl | hev
      · refine hfault fun e' heq => ?_
        obtain rfl := Except.error.inj heq
        exact hfaulty s₁ _ hG
      · exact hinv ev hev
  unfold AppPool.progress
  generalize s.log = log at hlog ⊢
  induction log with
  | nil => rfl
  | cons ev log ih =>
    have hrest := ih fun ev hev => hlog ev (List.mem_cons_of_mem _ hev)
    by_cases hi : ev.pid = i
    · rw [Monitor.phase_cons_self hi]
      simp only [appProgress, hlog ev List.mem_cons_self, Bool.not_false, Bool.and_true]
      exact hrest
    · rw [Monitor.phase_cons_of_ne hi]
      exact hrest

/-- Where a call has seen a failure, it has logged one. -/
theorem AppPool.progress_failed {i : ℕ} (h : (s.progress i).failed = true) :
    ∃ ev ∈ s.log, ev.pid = i ∧ ∃ e, ev.reply = .error e := by
  unfold AppPool.progress at h
  revert h
  generalize s.log = log
  intro h
  induction log with
  | nil => cases h
  | cons ev log ih =>
    by_cases hi : ev.pid = i
    · rw [Monitor.phase_cons_self hi] at h
      rcases Bool.or_eq_true_iff.mp h with h | h
      · obtain ⟨ev', hev', herror⟩ := ih h
        exact ⟨ev', List.mem_cons_of_mem _ hev', herror⟩
      · cases hreply : ev.reply with
        | error e => exact ⟨ev, List.mem_cons_self, hi, e, hreply⟩
        | ok a => simp [hreply, Except.isOk, Except.toBool] at h
    · rw [Monitor.phase_cons_of_ne hi] at h
      obtain ⟨ev', hev', herror⟩ := ih h
      exact ⟨ev', List.mem_cons_of_mem _ hev', herror⟩

end Moments

/-! ## Runs -/

/-- The acts of a run in which requests arrive now and statements fail as statements do. -/
def AppPool.Ordinary (s : AppPool) (a : AppAct) : Prop := s.Arrives a ∧ s.Faulty a

variable (E) in
/-- At a moment of the run at which call `i` has committed this, the directory has this under the
key. -/
def AppPool.Had (db : AppDb) (now : Int) (s : AppPool) (i : ℕ)
    (commits : List (Commit CustomerData)) (key : ℕ) (entry : Option CustomerData) : Prop :=
  ∃ s₁ : AppPool, Pool.Steps E.exec (AppPool.start E) AppPool.Ordinary (AppPool.idle db now) s₁
    ∧ Pool.Steps E.exec (AppPool.start E) AppPool.Ordinary s₁ s
    ∧ AppEvent.commits (s₁.log.filter (·.pid = i)) = commits
    ∧ s₁.db.customer.directory.entry key = entry

variable (E) in
/-- Call `i` has committed its operation once, and its response has what the directory had under the
key at a moment after that. Or the response is an error and it has committed nothing, unless the
directory had nothing under the key at such a moment (404) or a statement of it has failed (500). -/
def AppPool.Committed (db : AppDb) (now : Int) (s : AppPool) (i : ℕ)
    (operation : Operation CustomerData) (response : Response) : Prop :=
  (∃ key, operation.At key
    ∧ AppEvent.commits (s.log.filter (·.pid = i)) = operation.commits key
    ∧ (operation = .remove key ∧ response = Directory.shown E operation none
      ∨ ∃ c : PublicCustomer, c.id = key ∧ response = Directory.shown E operation (some c)
        ∧ AppPool.Had E db now s i (operation.commits key) key (some c.toCustomerData)))
  ∨ response.isError ∧ (AppEvent.commits (s.log.filter (·.pid = i)) = []
    ∨ ∃ key, operation.At key
      ∧ AppEvent.commits (s.log.filter (·.pid = i)) = operation.commits key
      ∧ response.httpStatus ∈ [HttpStatus.notFound, HttpStatus.internalServerError]
      ∧ (response = Directory.missing E ∧ AppPool.Had E db now s i (operation.commits key) key none
        ∨ response.httpStatus = HttpStatus.internalServerError
          ∧ ∃ ev ∈ s.log, ev.pid = i ∧ ∃ e, ev.reply = .error e))

/-- A request that stands for no operation commits nothing, on its way either. -/
theorem AppPool.commits_nothing {db : AppDb} {now : Int} {s : AppPool}
    (run : Pool.Steps E.exec (AppPool.start E) AppPool.Ordinary (AppPool.idle db now) s)
    {i : ℕ} {p : Proc (AppCall × AppEntropy) AppStmt AppStmt.Res Int Failure AppResult}
    {arrival : Int} {request : Request} (hp : s.procs[i]? = some p)
    (hcall : p.call.1 = .request arrival request) (hop : request.operation E arrival = none) :
    AppEvent.commits (s.log.filter (·.pid = i)) = [] := by
  let silent (c : AppCall × AppEntropy) (op : AppStmt) : Prop :=
    ∀ arrival request, c.1 = .request arrival request → request.operation E arrival = none →
      op.keepsDirectory = true
  have hspawn : ∀ (s : AppPool) c, s.Ordinary (.spawn c) →
      Prog.Under (fun _ _ => True) (silent c) (fun _ => True)
        ((AppPool.start E c).settle s.now) := by
    intro s c hG
    obtain ⟨call, R⟩ := c
    cases call with
    | request arrival request =>
      obtain rfl : arrival = s.now := hG.1
      cases hop : request.operation E s.now with
      | none =>
        refine (Prog.only_settle_map _ ((App.keepsDirectory (R := R) hop).imp
          fun op hop _ _ _ _ => hop)).under
      | some operation =>
        refine Prog.under_any (fun op => ?_) _
        rintro _ _ ⟨⟩ hnone
        cases hop.symm.trans hnone
    | work job => exact Prog.under_any (fun _ _ _ h => by cases h) _
    | record jobId state => exact Prog.under_any (fun _ _ _ h => by cases h) _
  have hkept : Pool.Kept (fun _ => True) (fun _ _ => True) silent s :=
    Pool.Kept.steps (fun _ _ _ _ _ _ => trivial) (fun _ _ _ _ _ _ => trivial) hspawn
      ⟨trivial, by simp [AppPool.idle], by simp [AppPool.idle]⟩ run
  refine List.flatMap_eq_nil_iff.mpr fun ev hev => ?_
  obtain ⟨hev, hi⟩ := List.mem_filter.mp (List.mem_reverse.mp hev)
  obtain ⟨q, hq, hsilent⟩ := hkept.log ev hev
  obtain rfl : q = p := by
    rw [of_decide_eq_true hi, hp] at hq
    exact (Option.some.inj hq).symm
  exact AppStmt.committed_kept (hsilent _ _ hcall hop) _

/-- In every run, the directory is what the commits in the log have made of it, in their order. A
request that was answered has committed its operation once, or nothing, as its answer says; one that
stands for no operation has committed nothing, answered or not. -/
theorem operations_committed_once {db : AppDb} {now : Int} {s : AppPool}
    (h : db.customer.customer.Keyed (·.id))
    (run : Pool.Steps E.exec (AppPool.start E) AppPool.Ordinary (AppPool.idle db now) s) :
    s.db.customer.directory =
        (AppEvent.commits s.log).foldl Register.commit db.customer.directory
      ∧ ∀ i p arrival request, s.procs[i]? = some p → p.call.1 = .request arrival request →
        (request.operation E arrival = none →
          AppEvent.commits (s.log.filter (·.pid = i)) = [])
        ∧ ∀ response, p.rest.outcome? = some (.ok (.response response)) →
          ∀ operation, request.operation E arrival = some operation →
            s.Committed E db now i operation response := by
  refine ⟨(directory_eq_commits h run).2, fun i p arrival request hp hcall =>
    ⟨AppPool.commits_nothing run hp hcall, fun response hresponse operation hop => ?_⟩⟩
  have hending : Ending appProgress .start (fun c φ r => c.1.Commits E φ r) s :=
    run.ending (fun s c h => AppCall.commits h.1) Pool.ending_idle
  have hcommits := hending.outcome hp hresponse
  rw [hcall] at hcommits
  change AppCall.Commits E (s.progress i) _ _ at hcommits
  obtain ⟨outcome, heq, hanswers⟩ := hcommits operation hop
  obtain ⟨response', rfl⟩ : ∃ response', outcome = .ok response' := by
    cases outcome with
    | error e => cases heq
    | ok response' => exact ⟨response', rfl⟩
  obtain rfl := AppResult.response.inj (Except.ok.inj heq)
  have hgenuine := AppPool.progress_genuine run (fun _ _ h => h.2) i
  -- What the call has found last, the directory had at a moment.
  have hhad : ∀ {key found}, (s.progress i).commits = operation.commits key →
      (s.progress i).shown = some (key, found) →
      AppPool.Had E db now s i (operation.commits key) key (found.map (·.toCustomerData))
        ∧ ∀ row ∈ found, row.id = key := by
    intro key found hcommitted hshown
    obtain ⟨s₁, hbefore, hafter, hsame, hfound⟩ := AppPool.shown_moment run hshown
    refine ⟨⟨s₁, hbefore, hafter, ?_, by rw [← hfound]; rfl⟩, fun row hrow => ?_⟩
    · rw [← AppPool.progress_commits, hsame, hcommitted]
    · obtain ⟨-, hid⟩ := Table.first_mem (hfound.trans hrow)
      simp only [Bool.and_eq_true, decide_eq_true_eq] at hid
      exact hid.1
  unfold AppPool.Committed
  rw [← AppPool.progress_commits]
  rcases hanswers hgenuine with ⟨key, hkey, hcommitted, hanswer⟩ |
    ⟨herror, hnone | ⟨key, hkey, hcommitted, hcause⟩⟩
  · refine .inl ⟨key, hkey, hcommitted, hanswer.imp_right ?_⟩
    rintro ⟨row, hrow, rfl⟩
    obtain ⟨hhad, hid⟩ := hhad hcommitted hrow
    exact ⟨_, hid row rfl, rfl, hhad⟩
  · exact .inr ⟨herror, .inl hnone⟩
  · refine .inr ⟨herror, .inr ⟨key, hkey, hcommitted, ?_⟩⟩
    rcases hcause with ⟨rfl, hshown⟩ | ⟨hstatus, hfailed⟩
    · refine ⟨?_, .inl ⟨rfl, (hhad hcommitted hshown).1⟩⟩
      unfold Directory.missing JsonResponse.error JsonResponse.withJson
      split_ifs <;> simp [HttpStatus.notFound, HttpStatus.internalServerError]
    · exact ⟨by simp [hstatus], .inr ⟨hstatus, AppPool.progress_failed hfailed⟩⟩

namespace AppSample

/-- A customer is created, and changed by one request while another deletes it. -/
def clashing : List AppAct :=
  let call (request : Request) : AppAct := .spawn (.request 0 request, entropy)
  [call createCustomer, .step 0, .step 0, .step 0, .step 0,
    call (one "PUT" 1).request, call (one "DELETE" 1).request,
    .step 1, .step 1, .step 1, .step 2, .step 2, .step 1, .step 1]

def operation : AppCall → Option (Operation CustomerData)
  | .request arrival received => received.operation env arrival
  | _ => none

end AppSample

open AppSample in
/-- The change is committed, and is answered 404 since the customer is gone when it is shown. -/
theorem operations_committed_once_sample : ∃ (s : AppPool) (response : Response),
    s.db.customer.directory =
        (AppEvent.commits s.log).foldl Register.commit db.customer.directory
      ∧ AppEvent.commits s.log = [.enter 1 shownCustomer.toCustomerData,
        .put 1 (some shownCustomer.toCustomerData), .put 1 none]
      ∧ s.Committed env db 0 1 (.replace 1 shownCustomer.toCustomerData) response
      ∧ response.httpStatus = HttpStatus.notFound := by
  have h : ∃ s ∈ Pool.acts env.exec (AppPool.start env) (fun s a => calm s a = true) clashing
      (AppPool.idle db 0), AppEvent.commits s.log = [.enter 1 shownCustomer.toCustomerData,
        .put 1 (some shownCustomer.toCustomerData), .put 1 none]
      ∧ ∃ p ∈ s.procs[1]?, operation p.call.1 = some (.replace 1 shownCustomer.toCustomerData)
        ∧ p.rest.outcome?.bind status = some HttpStatus.notFound := by
    decide +kernel
  obtain ⟨s, hs, hcommits, p, hp, hop, hstatus⟩ := h
  obtain ⟨hdirectory, hrequests⟩ := operations_committed_once
    ⟨by decide +kernel, by decide +kernel⟩ ((Pool.steps_of_acts hs).mono calm_sound)
  obtain ⟨r, hr, hstatus⟩ := Option.bind_eq_some_iff.mp hstatus
  obtain e | ⟨response | result | _⟩ := r
  all_goals
    simp only [status, Option.some.injEq, reduceCtorEq] at hstatus
  cases hcall : p.call.1 with
  | request arrival request =>
    rw [hcall] at hop
    obtain ⟨-, hcommitted⟩ := hrequests 1 p arrival request hp hcall
    exact ⟨s, response, hdirectory, hcommits, hcommitted response hr _ hop, hstatus⟩
  | work job => simp [hcall, operation] at hop
  | record jobId state => simp [hcall, operation] at hop

end SlimStarter
