import SlimStarter.Lib.Interrupt
import SlimStarter.Customer.Directory
import SlimStarter.Customer.Request
import SlimStarter.Http.Access

/-!
# The API is a directory

`Request.operation` is the operation on the directory that a request stands for, if its token lets
it pass and its payload is valid. Requests that are handled one after the other are answered as
their operations are, with the texts and the states of the API, and make of the customers what these
make of the directory; all other requests, the changes of avatars among them, leave it as it is, and
no two customers come to clash (`directory_refined`). So what was answered is read back, whatever
comes between that spares the customer (`reads_own_writes`).
-/

namespace SlimStarter

open Register (Operation Answer)
open CustomerService (Outcome Performs)

variable {E : AppEnv} {D : TextRules}

/-- Execute one statement on a database that refuses the customers it has no room for. -/
def AppEnv.execOn (E : AppEnv) (D : TextRules) :
    Prog.Handler AppStmt AppStmt.Res Int Failure AppDb :=
  fun op i db =>
    match op with
    | .customer op =>
      ((E.customer.execOn D op i db.customer).1,
        { db with customer := (E.customer.execOn D op i db.customer).2 })
    | op => E.exec op i db

theorem AppEnv.execOn_sqlite : E.execOn .sqlite = E.exec := by
  funext op i db
  cases op with
  | customer op => simp only [AppEnv.execOn, AppEnv.exec, SlimStarter.execOn_sqlite]
  | _ => rfl

/-- The route that handles the request, with its argument. -/
def Request.found (request : Request) : Option (Route × Option Bytes) :=
  findRoute request.method request.path <|>
    if request.method = ascii "HEAD" then findRoute (ascii "GET") request.path else none

variable (E) in
def Action.operation (request : Request) (id : Option Bytes) :
    Action → Option (Operation CustomerData)
  | .show => some (.lookup (positiveId id))
  | .create =>
    let dto := CustomerCreateRequest.fromRequest request.body
    if dto.validate E.customer = [] then some (.enter dto.toArray) else none
  | .update =>
    let dto := CustomerUpdateRequest.fromRequest request.body id
    if dto.validate E = [] then some (.replace dto.id dto.payload.toArray) else none
  | .delete => some (.remove (positiveId id))
  | _ => none

variable (E) in
def Request.operation (request : Request) (now : Int) : Option (Operation CustomerData) :=
  match request.found with
  | some (route, id) =>
    if route.add.all (·.admits E request now) then
      route.action.operation E request (id.map E.rawurldecode)
    else none
  | none => none

/-- A request with the instant at which it is handled and its random values. -/
structure Received where
  arrival : Int
  request : Request
  entropy : AppEntropy

namespace App

/-- Handle requests, each to its end before the next. -/
def serve (E : AppEnv) (D : TextRules) :
    List Received → AppDb → List (Except Failure Response) × AppDb
  | [], db => ([], db)
  | r :: rest, db =>
    let (outcome, db) := (App.handle E r.request r.entropy).run (E.execOn D) r.arrival db
    let (outcomes, db) := serve E D rest db
    (outcome :: outcomes, db)

end App

namespace Directory

/-- The message and the status of a response with a customer. -/
def texts : Operation CustomerData → String × ℕ
  | .enter _ => ("Customer created.", HttpStatus.created)
  | .replace .. => ("Customer updated.", HttpStatus.ok)
  | _ => (JsonResponse.defaultSuccessMessage, HttpStatus.ok)

variable (E) in
/-- The response where the method returns, with a customer unless it has removed one. -/
def shown (operation : Operation CustomerData) : Option PublicCustomer → Response
  | some c => JsonResponse.success E (.customer c) (texts operation).1 [] (texts operation).2
  | none => JsonResponse.success E .empty "Customer deleted." [] HttpStatus.ok

variable (E) in
/-- The response where there is no customer. -/
def missing : Response :=
  JsonResponse.error E "Customer not found." (.errors []) HttpStatus.notFound

variable (E) in
/-- The response to an operation is the one to its answer, an error of the server where the database
refused the customer. Other requests have responses of their own. -/
def Responds : Option (Operation CustomerData × Answer UniqueColumn CustomerData) →
    Except Failure Response → Prop
  | none, _ => True
  | some (operation, .found id d), outcome => ∃ c : PublicCustomer,
      outcome = .ok (shown E operation (some c)) ∧ c.id = id ∧ c.toCustomerData = d
  | some (_, .missing), outcome => outcome = .ok (missing E)
  | some (_, .refused columns), outcome => ∃ nameTaken emailTaken : Bool,
      (nameTaken = true ↔ .name ∈ columns) ∧ (emailTaken = true ↔ .email ∈ columns)
      ∧ outcome = .ok (JsonResponse.error E "Validation failed."
        (.errors (CustomerService.uniqueErrors nameTaken emailTaken)) HttpStatus.badRequest)
  | some (_, .unfit), outcome => outcome = .ok (App.errorHandler E .database)
  | some (operation, .removed), outcome => outcome = .ok (shown E operation none)

end Directory

open Directory (Responds shown)

section Actions

variable {α : Type} {i : Int} {db : AppDb} {operation : Operation CustomerData}
variable {c : Context}

variable (E) in
/-- The outcome of `attempt`, given the one of the service. -/
def attempted (response : α → Response) : Except Failure α → Except Failure Response
  | .ok a => .ok (response a)
  | .error (.app e) => .ok (BaseController.errorResponse E e)
  | .error e => .error e

variable (E) in
/-- The outcome of a request, given the one of its action. -/
def handled : Except Failure Response → Except Failure Response
  | .ok response => .ok response
  | .error e => .ok (App.errorHandler E e)

theorem run_attempt_onCustomers {p : CustomerProg α} {response : α → Response} :
    (Controller.attempt E (onCustomers p) response).run (E.execOn D) i db =
      (attempted E response (p.run (E.customer.execOn D) i db.customer).1,
        { db with customer := (p.run (E.customer.execOn D) i db.customer).2 }) := by
  have hrun : (onCustomers p).run (E.execOn D) i db =
      ((p.run (E.customer.execOn D) i db.customer).1,
        { db with customer := (p.run (E.customer.execOn D) i db.customer).2 }) := by
    refine Prog.run_translate AppDb.customer (fun db c => { db with customer := c })
      (fun op now db => ⟨?_, rfl⟩) (fun _ => rfl) (fun _ _ => rfl) (fun _ _ _ => rfl) p db
    show Except.map (fun r => r) (E.customer.execOn D op now db.customer).1 = _
    cases (E.customer.execOn D op now db.customer).1 <;> rfl
  rw [Controller.attempt, Prog.run_tryCatch, Prog.run_map, hrun]
  rcases p.run (E.customer.execOn D) i db.customer with ⟨e | a, db'⟩
  · cases e <;> rfl
  · rfl

/-- A service that performs an operation, and a response to what it returns. -/
theorem responds_of_performs {p : CustomerProg α} {customer : α → Option PublicCustomer}
    (h : Performs E.customer D i db.customer operation (customer <$> p)) :
    Responds E (some (operation, (db.customer.directory.step E.customer.clash D.Fits operation).1))
      (handled E ((Controller.attempt E (onCustomers p)
        fun a => shown E operation (customer a)).run (E.execOn D) i db).1)
    ∧ ((Controller.attempt E (onCustomers p) fun a => shown E operation (customer a)).run
        (E.execOn D) i db).2.customer.directory =
      (db.customer.directory.step E.customer.clash D.Fits operation).2 := by
  obtain ⟨houtcome, hdirectory⟩ := h
  rw [Prog.run_map] at houtcome hdirectory
  rw [run_attempt_onCustomers]
  refine ⟨?_, hdirectory⟩
  cases hrun : (p.run (E.customer.execOn D) i db.customer).1 with
  | error e =>
    rw [hrun] at houtcome
    generalize (db.customer.directory.step E.customer.clash D.Fits operation).1 = answer
      at houtcome
    cases answer with
    | found id d =>
      obtain ⟨_, heq, -⟩ := houtcome
      cases heq
    | missing =>
      obtain rfl : e = .notFoundException "Customer not found." := Except.error.inj houtcome
      rfl
    | refused columns =>
      obtain ⟨nameTaken, emailTaken, hname, hemail, heq⟩ := houtcome
      obtain rfl : e = .validation "Validation failed."
        (CustomerService.uniqueErrors nameTaken emailTaken) := Except.error.inj heq
      exact ⟨nameTaken, emailTaken, hname, hemail, rfl⟩
    | unfit =>
      obtain rfl : e = .database := Except.error.inj houtcome
      rfl
    | removed => cases houtcome
  | ok a =>
    rw [hrun] at houtcome
    generalize (db.customer.directory.step E.customer.clash D.Fits operation).1 = answer
      at houtcome
    cases answer with
    | found id d =>
      obtain ⟨c, heq, hid, hd⟩ := houtcome
      have hc : customer a = some c := Except.ok.inj heq
      exact ⟨c, by rw [attempted, handled, hc], hid, hd⟩
    | missing | unfit => cases houtcome
    | refused columns =>
      obtain ⟨_, _, -, -, heq⟩ := houtcome
      cases heq
    | removed =>
      have hc : customer a = none := Except.ok.inj houtcome
      show Except.ok (shown E operation (customer a)) = .ok (shown E operation none)
      rw [hc]

/-- An action that stands for an operation performs it. -/
theorem Action.performs (h : db.customer.customer.Keyed (·.id)) {action : Action}
    (hop : action.operation E c.request c.id = some operation) :
    Responds E (some (operation, (db.customer.directory.step E.customer.clash D.Fits operation).1))
      (handled E ((action.run E c).run (E.execOn D) i db).1)
    ∧ ((action.run E c).run (E.execOn D) i db).2.customer.directory =
        (db.customer.directory.step E.customer.clash D.Fits operation).2 := by
  cases action with
  | «show» =>
    obtain rfl := Option.some.inj hop
    have hrun : Action.run E c .show = Controller.attempt E
        (onCustomers (CustomerService.get E.customer (positiveId c.id)))
        fun customer => shown E (.lookup (positiveId c.id)) (some customer) := rfl
    rw [hrun]
    exact responds_of_performs CustomerService.performs_get
  | create =>
    let dto := CustomerCreateRequest.fromRequest c.request.body
    simp only [Action.operation] at hop
    split_ifs at hop with hvalid
    obtain rfl := Option.some.inj hop
    have hrun : Action.run E c .create = Controller.attempt E
        (onCustomers (CustomerService.create E.customer dto.toArray))
        fun customer => shown E (.enter dto.toArray) (some customer) := if_pos hvalid
    rw [hrun]
    exact responds_of_performs (CustomerService.performs_create h)
  | update =>
    let dto := CustomerUpdateRequest.fromRequest c.request.body c.id
    simp only [Action.operation] at hop
    split_ifs at hop with hvalid
    obtain rfl := Option.some.inj hop
    have hrun : Action.run E c .update = Controller.attempt E
        (onCustomers (CustomerService.update E.customer dto.id dto.payload.toArray))
        fun customer => shown E (.replace dto.id dto.payload.toArray) (some customer) :=
      if_pos hvalid
    rw [hrun]
    exact responds_of_performs (CustomerService.performs_update h)
  | delete =>
    obtain rfl := Option.some.inj hop
    have hrun : Action.run E c .delete = Controller.attempt E
        (onCustomers (CustomerService.delete E.customer (positiveId c.id)))
        fun _ => shown E (.remove (positiveId c.id)) none := rfl
    rw [hrun]
    exact responds_of_performs (CustomerService.performs_delete h)
  | _ => cases hop

/-- The statement writes no data of a customer and deletes none. -/
def AppStmt.keepsDirectory : AppStmt → Bool
  | .customer op => op.keepsDirectory
  | _ => true

theorem keepsDirectory_attempt {p : CustomerProg α} {response : α → Response}
    (h : Prog.Only (fun op => op.keepsDirectory = true) (fun _ => True) p) :
    Prog.Only (fun op => op.keepsDirectory = true) (fun _ => True)
      (Controller.attempt E (onCustomers p) response) := by
  have hp : Prog.Only (fun op : AppStmt => op.keepsDirectory = true) (fun _ => True)
      (onCustomers p) := by
    induction p with
    | ret a => trivial
    | throw e => trivial
    | clock k ih => exact fun t => ih t (h t)
    | call op k ih =>
      refine ⟨h.1, fun r => ?_⟩
      cases r with
      | error e => exact ih _ (h.2 (.error e))
      | ok a => exact ih _ (h.2 (.ok a))
  refine Prog.Only.tryCatch (Prog.only_map.mpr hp) fun e => ?_
  cases e <;> trivial

/-- An action that stands for no operation leaves the directory as it is. -/
theorem Action.keepsDirectory {action : Action}
    (hwrites : AppPart.customers ∈ action.footprint.writes)
    (hop : action.operation E c.request c.id = none) :
    Prog.Only (fun op => op.keepsDirectory = true) (fun _ => True) (action.run E c) := by
  cases action with
  | create =>
    simp only [Action.operation] at hop
    split_ifs at hop with hinvalid
    simp only [Action.run, Controller.Customer.create, Controller.validated, hinvalid, if_false]
    trivial
  | update =>
    simp only [Action.operation] at hop
    split_ifs at hop with hinvalid
    simp only [Action.run, Controller.Customer.update, Controller.validated, hinvalid, if_false]
    trivial
  | uploadAvatar =>
    simp only [Action.run, Controller.Customer.uploadAvatar]
    split
    · trivial
    · exact keepsDirectory_attempt (CustomerService.keepsDirectory_uploadAvatar _ _)
  | removeAvatar =>
    exact keepsDirectory_attempt (CustomerService.keepsDirectory_removeAvatar _)
  | «show» | delete => cases hop
  | _ => exact absurd hwrites (by decide)

end Actions

/-! ## Requests -/

section Requests

variable {request : Request} {R : AppEntropy} {route : Route} {id : Option Bytes} {i : Int}
variable {db : AppDb}

theorem Request.route_found (h : request.found = some (route, id)) :
    request.route = some route := by
  show request.found.map (·.1) = some route
  rw [h]
  rfl

theorem App.handle_found (h : request.found = some (route, id)) : App.handle E request R =
    Prog.tryCatch (route.handle E request R id) fun e => pure (App.errorHandler E e) := by
  unfold Request.found at h
  unfold App.handle
  simp only [h]

/-- A request that is admitted is handled by its action. -/
theorem App.settle_admitted (hfound : request.found = some (route, id))
    (hadd : route.add = [.authentication] ∨ route.add = [adminOnly, .authentication])
    (hadmits : route.add.all (·.admits E request i) = true) :
    ∃ user, (App.handle E request R).settle i = (Prog.tryCatch
      (route.action.run E ⟨request, some user, id.map E.rawurldecode, R⟩)
      fun e => pure (App.errorHandler E e)).settle i := by
  rw [App.handle_found hfound]
  unfold Route.handle
  rcases hadd with hadd | hadd
  · rw [hadd] at hadmits ⊢
    simp only [List.all_cons, List.all_nil, Bool.and_true, Middleware.admits] at hadmits
    obtain ⟨user, huser⟩ := Option.isSome_iff_exists.mp hadmits
    refine ⟨user, ?_⟩
    simp only [List.foldl_cons, List.foldl_nil, Middleware.process,
      AuthenticationMiddleware.process, Prog.time_bind, Prog.tryCatch, Prog.settle_clock, huser]
  · rw [hadd] at hadmits ⊢
    simp only [List.all_cons, List.all_nil, Bool.and_true, Bool.and_eq_true, Middleware.admits,
      adminOnly] at hadmits
    obtain ⟨user, huser⟩ := Option.isSome_iff_exists.mp hadmits.2
    refine ⟨user, ?_⟩
    have hadmin : user.type = UserType.admin := by simpa [huser] using hadmits.1
    simp only [List.foldl_cons, List.foldl_nil, Middleware.process, adminOnly,
      AuthenticationMiddleware.process, AuthorizationMiddleware.process, Prog.time_bind,
      Prog.tryCatch, Prog.settle_clock, huser, hadmin, List.mem_singleton, not_true_eq_false,
      and_false, if_false]

variable (R db) in
/-- Then it comes to what the action comes to, or to the response of the error handler. -/
theorem App.run_admitted (exec : Prog.Handler AppStmt AppStmt.Res Int Failure AppDb)
    (hfound : request.found = some (route, id))
    (hadd : route.add = [.authentication] ∨ route.add = [adminOnly, .authentication])
    (hadmits : route.add.all (·.admits E request i) = true) :
    ∃ user, (App.handle E request R).run exec i db =
      (handled E ((route.action.run E ⟨request, some user, id.map E.rawurldecode, R⟩).run exec i
          db).1,
        ((route.action.run E ⟨request, some user, id.map E.rawurldecode, R⟩).run exec i db).2) := by
  obtain ⟨user, hsettle⟩ := App.settle_admitted (R := R) hfound hadd hadmits
  refine ⟨user, ?_⟩
  rw [← Footprint.run_settle (App.handle E request R), hsettle, Footprint.run_settle,
    Prog.run_tryCatch]
  rcases (route.action.run E ⟨request, some user, id.map E.rawurldecode, R⟩).run exec i db with
    ⟨e | response, db'⟩ <;> rfl

theorem routes_customers : ∀ route ∈ routes,
    AppPart.customers ∈ route.action.footprint.writes ∨ route.action = .show →
      route.add = [.authentication] ∨ route.add = [adminOnly, .authentication] := by
  decide +kernel

/-- An action that stands for an operation is a `show` or writes to the customers. -/
theorem Action.customers_of_operation {action : Action} {operation : Operation CustomerData}
    (h : action.operation E request id = some operation) :
    AppPart.customers ∈ action.footprint.writes ∨ action = .show := by
  cases action <;> first | exact .inr rfl | exact .inl (by decide) | cases h

/-- A request that stands for an operation is admitted to an action that does. -/
theorem Request.operation_eq_some {operation : Operation CustomerData}
    (hop : request.operation E i = some operation) :
    ∃ route id, request.found = some (route, id)
      ∧ (route.add = [.authentication] ∨ route.add = [adminOnly, .authentication])
      ∧ route.add.all (·.admits E request i) = true
      ∧ route.action.operation E request (id.map E.rawurldecode) = some operation := by
  unfold Request.operation at hop
  cases hfound : request.found with
  | none => simp [hfound] at hop
  | some found =>
    obtain ⟨route, id⟩ := found
    simp only [hfound] at hop
    split_ifs at hop with hadmits
    have hroute : route ∈ routes := (Request.route_cases (Request.route_found hfound)).1
    exact ⟨route, id, rfl, routes_customers route hroute (Action.customers_of_operation hop),
      hadmits, hop⟩

theorem App.exec_keyed (op : AppStmt) (db : AppDb) (h : db.customer.customer.Keyed (·.id)) :
    (E.exec op i db).2.customer.customer.Keyed (·.id) := by
  cases op with
  | customer op => exact SlimStarter.exec_keyed h op
  | «export» op => cases op <;> exact h
  | _ => exact h

theorem App.execOn_keyed (op : AppStmt) (db : AppDb) (h : db.customer.customer.Keyed (·.id)) :
    (E.execOn D op i db).2.customer.customer.Keyed (·.id) := by
  cases op with
  | customer op =>
    show (E.customer.execOn D op i db.customer).2.customer.Keyed (·.id)
    unfold CustomerEnv.execOn
    split_ifs
    · exact SlimStarter.exec_keyed h op
    · exact h
  | «export» op => cases op <;> exact h
  | _ => exact h

variable (D request R i) in
theorem App.keeps_keyed (h : db.customer.customer.Keyed (·.id)) :
    ((App.handle E request R).run (E.execOn D) i db).2.customer.customer.Keyed (·.id) :=
  (Prog.Always.of_exec (I := fun db : AppDb => db.customer.customer.Keyed (·.id))
    App.execOn_keyed h (App.handle E request R)).final

/-- A request that stands for an operation is answered as it is, and makes of the directory what it
makes of it. -/
theorem App.performs (h : db.customer.customer.Keyed (·.id)) {operation : Operation CustomerData}
    (hop : request.operation E i = some operation) :
    Responds E (some (operation, (db.customer.directory.step E.customer.clash D.Fits operation).1))
      ((App.handle E request R).run (E.execOn D) i db).1
    ∧ ((App.handle E request R).run (E.execOn D) i db).2.customer.directory =
        (db.customer.directory.step E.customer.clash D.Fits operation).2 := by
  obtain ⟨route, id, hfound, hadd, hadmits, haction⟩ := Request.operation_eq_some hop
  obtain ⟨user, hrun⟩ := App.run_admitted R db (E.execOn D) hfound hadd hadmits
  rw [hrun]
  exact Action.performs (c := ⟨request, some user, id.map E.rawurldecode, R⟩) h haction

/-- A request that stands for none issues no statement that changes the directory. -/
theorem App.keepsDirectory (hop : request.operation E i = none) :
    Prog.Only (fun op => op.keepsDirectory = true) (fun _ => True)
      ((App.handle E request R).settle i) := by
  by_cases hwrites : AppPart.customers ∈ (request.footprint E i).writes
  · cases hfound : request.found with
    | none =>
      have hroute : request.route = none := by
        show request.found.map (·.1) = none
        rw [hfound]
        rfl
      simp [Request.footprint, hroute, Bot.bot] at hwrites
    | some found =>
      obtain ⟨route, id⟩ := found
      have hroute := Request.route_found hfound
      simp only [Request.footprint, hroute] at hwrites
      simp only [Request.operation, hfound] at hop
      split_ifs at hwrites hop with hadmits
      · obtain ⟨user, hsettle⟩ := App.settle_admitted (R := R) hfound
          (routes_customers route (Request.route_cases hroute).1 (.inl hwrites)) hadmits
        rw [hsettle]
        exact Prog.Only.settle i ((Action.keepsDirectory hwrites hop).tryCatch fun _ => trivial)
      · simp [Bot.bot] at hwrites
  · refine (App.within (R := R)).imp fun op hle => ?_
    cases op with
    | customer op =>
      have hmem : AppPart.customers ∉ op.footprint.writes := fun hmem => hwrites (hle.2 hmem)
      cases op with
      | create | createMany | deleteById => simp [CustomerStmt.footprint] at hmem
      | update id change => simp [CustomerStmt.footprint] at hmem
      | _ => rfl
    | _ => rfl

variable (D R db) in
theorem App.keeps_directory (hop : request.operation E i = none) :
    ((App.handle E request R).run (E.execOn D) i db).2.customer.directory =
      db.customer.directory := by
  have hexec : ∀ (op : AppStmt) (db' : AppDb), op.keepsDirectory = true →
      db'.customer.directory = db.customer.directory →
      (E.execOn D op i db').2.customer.directory = db.customer.directory := by
    intro op db' hop hkept
    cases op with
    | customer op =>
      show (E.customer.execOn D op i db'.customer).2.directory = _
      unfold CustomerEnv.execOn
      split_ifs
      · exact (directory_kept hop).trans hkept
      · exact hkept
    | «export» op => cases op <;> exact hkept
    | _ => exact hkept
  rw [← Footprint.run_settle (App.handle E request R)]
  exact (Prog.Always.of_only
    (I := fun db' : AppDb => db'.customer.directory = db.customer.directory)
    (App.keepsDirectory hop) hexec rfl).final

variable (D request R i) in
/-- A request comes to what its operation comes to, where it stands for one. -/
theorem App.responds (h : db.customer.customer.Keyed (·.id)) :
    Responds E (db.customer.directory.respond E.customer.clash D.Fits (request.operation E i)).1
      ((App.handle E request R).run (E.execOn D) i db).1
    ∧ ((App.handle E request R).run (E.execOn D) i db).2.customer.directory =
        (db.customer.directory.respond E.customer.clash D.Fits (request.operation E i)).2 := by
  cases hop : request.operation E i with
  | none => exact ⟨trivial, App.keeps_directory D R db hop⟩
  | some operation => exact App.performs h hop

end Requests

section Serve

variable {db : AppDb}

theorem App.serve_keyed (h : db.customer.customer.Keyed (·.id)) (l : List Received) :
    (App.serve E D l db).2.customer.customer.Keyed (·.id) := by
  induction l generalizing db with
  | nil => exact h
  | cons r l ih => exact ih (App.keeps_keyed _ _ _ _ h)

theorem App.serve_append (l l' : List Received) (db : AppDb) :
    (App.serve E D (l ++ l') db).1 =
      (App.serve E D l db).1 ++ (App.serve E D l' (App.serve E D l db).2).1 := by
  induction l generalizing db with
  | nil => rfl
  | cons r l ih => exact congrArg (List.cons _) (ih _)

/-- The operations that the requests stand for. -/
def Received.operations (E : AppEnv) (requests : List Received) :
    List (Option (Operation CustomerData)) :=
  requests.map fun r => r.request.operation E r.arrival

theorem App.serve_directory (h : db.customer.customer.Keyed (·.id)) (requests : List Received) :
    (App.serve E D requests db).2.customer.directory = (Register.run E.customer.clash D.Fits
      (Received.operations E requests) db.customer.directory).2 := by
  induction requests generalizing db with
  | nil => rfl
  | cons r rest ih =>
    have hrest := ih (App.keeps_keyed (E := E) D r.request r.entropy r.arrival h)
    rw [(App.responds D r.request r.entropy r.arrival h).2] at hrest
    exact hrest

theorem App.serve_answers (h : db.customer.customer.Keyed (·.id)) (requests : List Received) :
    List.Forall₂ (Responds E)
      (Register.run E.customer.clash D.Fits (Received.operations E requests)
        db.customer.directory).1
      (App.serve E D requests db).1 := by
  induction requests generalizing db with
  | nil => exact .nil
  | cons r rest ih =>
    obtain ⟨hfirst, hdirectory⟩ := App.responds (E := E) D r.request r.entropy r.arrival h
    have hrest := ih (App.keeps_keyed (E := E) D r.request r.entropy r.arrival h)
    rw [hdirectory] at hrest
    exact .cons hfirst hrest

end Serve

/-- Requests that are handled one after the other are operations on the directory: they are answered
as these are, and the customers are what these make of them. Where no two customers clash, none come
to. -/
theorem directory_refined {db : AppDb} (h : db.customer.customer.Keyed (·.id))
    (requests : List Received) :
    List.Forall₂ (Responds E)
      (Register.run E.customer.clash D.Fits (Received.operations E requests)
        db.customer.directory).1
      (App.serve E D requests db).1
    ∧ (App.serve E D requests db).2.customer.directory =
      (Register.run E.customer.clash D.Fits (Received.operations E requests)
        db.customer.directory).2
    ∧ (db.customer.directory.Apart E.customer.clash →
      (App.serve E D requests db).2.customer.directory.Apart E.customer.clash) := by
  refine ⟨App.serve_answers h requests, App.serve_directory h requests, fun hapart => ?_⟩
  rw [App.serve_directory h requests]
  exact hapart.run E.customer.clash_symm

namespace AppSample

/-- A customer is created, once more, shown, deleted and shown again, and then one with a name that
is no text of the database. -/
def visits : List Received :=
  let id (method : String) : Request :=
    { createCustomer with method := ascii method, path := ascii "/customer/1" }
  let unreadable : Request :=
    post "/customer" (ascii "Bearer " ++ claims.email) [(ascii "name", [255])]
  [createCustomer, createCustomer, id "GET", id "DELETE", id "GET", unreadable].map fun request =>
    ⟨0, request, entropy⟩

end AppSample

open AppSample CustomerSample in
theorem directory_refined_sample :
    List.Forall₂ (Responds env)
      (Register.run env.customer.clash strictAscii.Fits (Received.operations env visits)
        AppSample.db.customer.directory).1
      (App.serve env strictAscii visits AppSample.db).1
    ∧ (App.serve env strictAscii visits AppSample.db).1.map
        (fun outcome => outcome.toOption.map (·.httpStatus)) =
      [some 201, some 400, some 200, some 200, some 404, some 500]
    ∧ (App.serve env strictAscii visits AppSample.db).2.customer.directory.Apart
        env.customer.clash := by
  have hkeyed : AppSample.db.customer.customer.Keyed (·.id) :=
    ⟨by decide +kernel, by decide +kernel⟩
  obtain ⟨hanswers, -, hapart⟩ := directory_refined (E := env) (D := strictAscii) hkeyed visits
  refine ⟨hanswers, by decide +kernel, hapart fun k k' c d _ hc => ?_⟩
  cases hc

/-! ## Reading what was written -/

section Reads

variable {db : AppDb} {operation : Operation CustomerData}

theorem Directory.content_shown {outcome : Except Failure Response} {response : Response}
    {answer : Answer UniqueColumn CustomerData} {c : PublicCustomer} {message : String}
    (h : Responds E (some (operation, answer)) outcome) (hresponse : outcome = .ok response)
    (hcontent : response.content = .envelope true message (.customer c) []) :
    answer = .found c.id c.toCustomerData := by
  subst hresponse
  cases answer with
  | found id d =>
    obtain ⟨c', hshown, rfl, rfl⟩ := h
    obtain rfl := Except.ok.inj hshown
    simp only [shown, JsonResponse.success, JsonResponse.withJson] at hcontent
    split_ifs at hcontent
    cases hcontent
    rfl
  | missing =>
    obtain rfl := Except.ok.inj h
    simp only [Directory.missing, JsonResponse.error, JsonResponse.withJson] at hcontent
    split_ifs at hcontent
    cases hcontent
  | refused columns =>
    obtain ⟨_, _, -, -, heq⟩ := h
    obtain rfl := Except.ok.inj heq
    simp only [JsonResponse.error, JsonResponse.withJson] at hcontent
    split_ifs at hcontent
    cases hcontent
  | unfit =>
    obtain rfl := Except.ok.inj h
    simp only [App.errorHandler] at hcontent
    split_ifs at hcontent
  | removed =>
    obtain rfl := Except.ok.inj h
    simp only [shown, JsonResponse.success, JsonResponse.withJson] at hcontent
    split_ifs at hcontent
    cases hcontent

/-- A customer that a request was answered with is found with the same data by a later one, after
any requests that neither change nor delete it. -/
theorem reads_own_writes (h : db.customer.customer.Keyed (·.id)) {w g : Received}
    {between : List Received} (hw : w.request.operation E w.arrival = some operation)
    {response : Response} {message : String} {c : PublicCustomer}
    (hresponse :
      ((App.handle E w.request w.entropy).run (E.execOn D) w.arrival db).1 = .ok response)
    (hcontent : response.content = .envelope true message (.customer c) [])
    (hbetween : ∀ r ∈ between, ∀ op, r.request.operation E r.arrival = some op → op.Spares c.id)
    (hg : g.request.operation E g.arrival = some (.lookup c.id)) :
    ∃ c' : PublicCustomer, (App.serve E D (w :: (between ++ [g])) db).1.getLast? =
        some (.ok (shown E (.lookup c.id) (some c')))
      ∧ c'.id = c.id ∧ c'.toCustomerData = c.toCustomerData := by
  obtain ⟨hanswers, hdirectory⟩ := App.performs (R := w.entropy) h hw
  have hfound := Directory.content_shown hanswers hresponse hcontent
  have hkeyed := App.keeps_keyed (E := E) D w.request w.entropy w.arrival h
  set db₁ := ((App.handle E w.request w.entropy).run (E.execOn D) w.arrival db).2 with hdb₁
  have hentry : db₁.customer.directory.entry c.id = some c.toCustomerData := by
    rw [hdirectory]
    exact Register.entry_of_found hfound
  -- The requests between leave the entry.
  have hentry' : (App.serve E D between db₁).2.customer.directory.entry c.id =
      some c.toCustomerData := by
    have hlt : c.id < db₁.customer.directory.next := (directory_tidy hkeyed).lt (by simp [hentry])
    rw [App.serve_directory hkeyed, Register.entry_run hlt ?_, hentry]
    intro op hop
    obtain ⟨r, hr, hr'⟩ := List.mem_map.mp hop
    exact hbetween r hr op hr'
  obtain ⟨hlast, -⟩ :=
    App.performs (R := g.entropy) (App.serve_keyed (E := E) (D := D) hkeyed between) hg
  simp only [Register.step, hentry'] at hlast
  obtain ⟨c', hshown, hid, hdata⟩ := hlast
  have hserve : (App.serve E D (w :: (between ++ [g])) db).1 =
      .ok response ::
        ((App.serve E D between db₁).1 ++ [.ok (shown E (.lookup c.id) (some c'))]) := by
    show _ :: (App.serve E D (between ++ [g]) _).1 = _
    rw [hresponse, ← hdb₁, App.serve_append]
    show _ :: (_ ++ [_]) = _
    rw [hshown]
  refine ⟨c', ?_, hid, hdata⟩
  rw [hserve, ← List.cons_append, List.getLast?_concat]

end Reads

namespace AppSample

/-- A request for one customer. -/
def one (method : String) (id : ℕ) : Received :=
  ⟨0, { createCustomer with method := ascii method, path := ascii "/customer/" ++ natString id },
    entropy⟩

/-- What `createCustomer` is answered with. -/
def shownCustomer : PublicCustomer :=
  { (CustomerCreateRequest.fromRequest createCustomer.body).toArray with
    id := 1, avatarUrl := none, createdAt := some ⟨0⟩, updatedAt := some ⟨0⟩ }

end AppSample

open AppSample in
/-- A customer that was created is found after others were changed and deleted. -/
theorem reads_own_writes_sample : ∃ c' : PublicCustomer,
    (App.serve env .sqlite
        (⟨0, createCustomer, entropy⟩ :: ([one "PUT" 3, one "DELETE" 2] ++ [one "GET" 1]))
        db).1.getLast? = some (.ok (shown env (.lookup 1) (some c')))
      ∧ c'.id = 1 ∧ c'.toCustomerData = shownCustomer.toCustomerData := by
  have hspares : ∀ r ∈ [one "PUT" 3, one "DELETE" 2], ∀ op,
      r.request.operation env r.arrival = some op → op.Spares shownCustomer.id := by
    have hput : (one "PUT" 3).request.operation env 0 =
        some (.replace 3 shownCustomer.toCustomerData) := by decide +kernel
    have hdelete : (one "DELETE" 2).request.operation env 0 = some (.remove 2) := by decide +kernel
    intro r hr op hop
    rcases List.mem_cons.mp hr with rfl | hr
    · obtain rfl := Option.some.inj (hput.symm.trans hop)
      exact show (3 : ℕ) ≠ 1 by decide
    · obtain rfl := List.mem_singleton.mp hr
      obtain rfl := Option.some.inj (hdelete.symm.trans hop)
      exact show (2 : ℕ) ≠ 1 by decide
  have hw : createCustomer.operation env 0 = some (.enter shownCustomer.toCustomerData) := by
    decide +kernel
  have hresponse : ((App.handle env createCustomer entropy).run (env.execOn .sqlite) 0 db).1 =
      .ok (shown env (.enter shownCustomer.toCustomerData) (some shownCustomer)) := by
    decide +kernel
  exact reads_own_writes (c := shownCustomer) ⟨by decide +kernel, by decide +kernel⟩ hw hresponse
    rfl hspares (by decide +kernel)

end SlimStarter
