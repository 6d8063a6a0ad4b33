import SlimStarter.Http.Footprint

/-!
# Who may look at what and who may change it

`Request.footprint` is what of the access matrix is left for a request whose token does not let it
pass the middleware of its route.

Only requests that `POST`, `PUT` or `DELETE` change anything but the cache, and of these only those
of a user change jobs and only those of an administrator change customers and files
(`changes_accounted`). A request without a token that verifies comes to a response that the
customers, the files and the queue have no part in (`unauthenticated_noninterference`).
-/

namespace SlimStarter

open AppPart
open Footprint (Within Agree)

variable {E : AppEnv}

variable (E) in
/-- What a middleware lets pass at this instant. The health token guards no part of the store. -/
def Middleware.admits (request : Request) (now : Int) : Middleware → Bool
  | authentication => (JwtHelper.requestUser E request now).isSome
  | authorization allowedTypes =>
    (JwtHelper.requestUser E request now).any fun user =>
      allowedTypes = [] || user.type ∈ allowedTypes
  | healthToken => true

/-- The route that handles the request. -/
def Request.route (request : Request) : Option Route :=
  (findRoute request.method request.path <|>
    if request.method = ascii "HEAD" then findRoute (ascii "GET") request.path else none).map (·.1)

theorem findRoute_method {method path : Bytes} {route : Route} {id : Option Bytes}
    (h : findRoute method path = some (route, id)) : method ∈ route.methods := by
  obtain ⟨route', hmem, hmatch⟩ := List.exists_of_findSome?_eq_some h
  obtain ⟨id', -, heq⟩ := Option.map_eq_some_iff.mp hmatch
  cases heq
  rcases List.mem_append.mp hmem with hmem | hmem <;>
    simpa using (List.mem_filter.mp (List.mem_of_mem_filter hmem)).2

theorem Request.route_cases {request : Request} {route : Route} (h : request.route = some route) :
    route ∈ routes ∧ ∃ method ∈ route.methods,
      method = request.method ∨ request.method = ascii "HEAD" ∧ method = ascii "GET" := by
  obtain ⟨⟨route, id⟩, hfound, rfl⟩ := Option.map_eq_some_iff.mp h
  cases hfirst : findRoute request.method request.path with
  | some found =>
    rw [hfirst] at hfound
    cases hfound
    exact ⟨findRoute_mem hfirst, _, findRoute_method hfirst, .inl rfl⟩
  | none =>
    rw [hfirst] at hfound
    split_ifs at hfound with hhead
    · exact ⟨findRoute_mem hfound, _, findRoute_method hfound, .inr ⟨hhead, rfl⟩⟩
    · cases hfound

variable (E) in
/-- A request is handled by its route inside the error middleware, or there is none. -/
theorem App.handle_cases (request : Request) (R : AppEntropy) :
    (∃ route id, request.route = some route ∧ route ∈ routes ∧ App.handle E request R =
        Prog.tryCatch (route.handle E request R id) fun e => pure (App.errorHandler E e))
    ∨ (request.route = none ∧ ∃ code ∈ [404, 405], App.handle E request R =
        pure (App.errorHandler E (.appException "" code))) := by
  have hroute : ∀ route, request.route = some route → route ∈ routes :=
    fun route h => (Request.route_cases h).1
  unfold Request.route at hroute ⊢
  unfold App.handle
  simp only
  cases hfound : (findRoute request.method request.path <|>
      if request.method = ascii "HEAD" then findRoute (ascii "GET") request.path else none) with
  | none =>
    refine .inr ⟨rfl, _, ?_, rfl⟩
    split_ifs <;> simp [HttpStatus.notFound]
  | some found => exact .inl ⟨found.1, found.2, rfl, hroute _ (by rw [hfound]; rfl), rfl⟩

variable (E) in
/-- What is left of the access matrix for a request that arrives at this instant. -/
def Request.footprint (request : Request) (now : Int) : Footprint AppPart :=
  match request.route with
  | some route =>
    if route.add.all (·.admits E request now) then route.action.footprint else ⊥
  | none => ⊥

section Requests

variable {request : Request} {R : AppEntropy} {now : Int} {F : Footprint AppPart}

theorem routes_add : ∀ route ∈ routes, route.add = [] ∨ route.add = [.healthToken]
    ∨ route.add = [.authentication] ∨ route.add = [adminOnly, .authentication] := by
  decide +kernel

/-- A request that a middleware does not let pass is answered at once. -/
theorem within_refused {handler : RequestHandler} {add : List Middleware}
    (hadd : add = [.authentication] ∨ add = [adminOnly, .authentication])
    (h : add.all (·.admits E request now) = false) :
    Within AppStmt.footprint F
      ((add.foldl (fun handler m => m.process E request handler) handler none).settle now) := by
  have hrefused := (AuthenticationMiddleware.refuse_of E request
    (P := fun p => Within AppStmt.footprint F p) (fun _ => trivial) fun _ => trivial).settle now
  rcases hadd with rfl | rfl
  · simp only [List.foldl_cons, List.foldl_nil, Middleware.process,
      AuthenticationMiddleware.process, Prog.time_bind, Prog.settle_clock]
    cases huser : JwtHelper.requestUser E request now with
    | none => exact hrefused
    | some user => simp [Middleware.admits, huser] at h
  · simp only [List.foldl_cons, List.foldl_nil, Middleware.process,
      AuthenticationMiddleware.process, Prog.time_bind, Prog.settle_clock]
    cases huser : JwtHelper.requestUser E request now with
    | none => exact hrefused
    | some user =>
      simp only [adminOnly, AuthorizationMiddleware.process]
      split_ifs with hdenied
      · trivial
      · simp [adminOnly, Middleware.admits, huser] at h hdenied
        exact absurd hdenied h

theorem Route.within {route : Route} (hroute : route ∈ routes) (id : Option Bytes) :
    Within AppStmt.footprint
      (if route.add.all (·.admits E request now) then route.action.footprint else ⊥)
      ((route.handle E request R id).settle now) := by
  split_ifs with hadmits
  · refine Prog.Only.settle now ?_
    exact Route.handle_of (Prog.composed_only _) fun user => route.action.uses_within _
  · rw [Bool.not_eq_true] at hadmits
    refine within_refused ?_ hadmits
    rcases routes_add route hroute with hadd | hadd | hadd | hadd
    · simp [hadd] at hadmits
    · simp [hadd, Middleware.admits] at hadmits
    · exact .inl hadd
    · exact .inr hadd

/-- A request keeps to what its token lets it pass to. -/
theorem App.within : Within AppStmt.footprint (request.footprint E now)
    ((App.handle E request R).settle now) := by
  unfold Request.footprint
  obtain ⟨route, id, hroute, hmem, hhandle⟩ | ⟨hroute, code, -, hhandle⟩ :=
    App.handle_cases E request R
  · rw [hhandle, hroute]
    exact Footprint.within_settle_tryCatch (Route.within hmem id) fun _ => trivial
  · rw [hhandle, hroute]
    trivial

end Requests

/-- What a job of this type touches. -/
def JobData.footprint (job : JobData) : Footprint AppPart :=
  if job.type = JobType.customerExport then ⟨{customers, files}, {files}⟩
  else if job.type = JobType.customerImport then ⟨{customers, files}, {customers, files}⟩
  else ⊥

variable (E) in
def AppCall.footprint : AppCall → Footprint AppPart
  | .request arrival received => received.footprint E arrival
  | .work job => job.footprint
  | .record .. => ⟨{jobs}, {jobs}⟩

/-- A request arrives now. -/
def AppPool.Arrives (s : AppPool) : AppAct → Prop
  | .spawn (.request arrival _, _) => arrival = s.now
  | _ => True

theorem JobRegistry.within (job : JobData) :
    Within AppStmt.footprint job.footprint (JobRegistry.handle E job) := by
  unfold JobRegistry.handle JobData.footprint
  split_ifs
  · refine Prog.only_map.mpr (within_onExports (Footprint.within_any (fun op => ?_) _))
    cases op <;> exact of_decide_eq_true rfl
  · refine Prog.only_map.mpr (within_onCustomers ((only_handle true _).imp fun op hop => ?_))
    cases op <;> first | exact of_decide_eq_true rfl | cases hop
  · trivial

theorem AppCall.within {s : AppPool} {c : AppCall × AppEntropy} (h : s.Arrives (.spawn c)) :
    Within AppStmt.footprint (c.1.footprint E) ((AppPool.start E c).settle s.now) := by
  obtain ⟨call, R⟩ := c
  cases call with
  | request arrival request =>
    obtain rfl : arrival = s.now := h
    exact Prog.only_settle_map _ App.within
  | work job => exact Prog.Only.settle _ (Prog.only_map.mpr (JobRegistry.within job))
  | record jobId state =>
    exact Prog.Only.settle _ (Prog.only_map.mpr (Footprint.within_stmt (of_decide_eq_true rfl)))

section Runs

variable {request : Request} {R : AppEntropy} {i : Int} {db db' : AppDb}

theorem AppDb.ext_view (h : ∀ x, view x db = view x db') : db = db' := by
  obtain ⟨⟨user, token⟩, ⟨customer, redis, contents⟩, job⟩ := db
  obtain ⟨⟨user', token'⟩, ⟨customer', redis', contents'⟩, job'⟩ := db'
  obtain rfl : user = user' := h accounts
  obtain rfl : token = token' := h sessions
  obtain rfl : customer = customer' := h customers
  obtain rfl : redis = redis' := h cache
  obtain rfl : contents = contents' := h files
  obtain rfl : job = job' := h jobs
  rfl

/-- A request leaves the parts that it may not write as they are. -/
theorem App.run_frame {x : AppPart} (hx : x ∉ (request.footprint E i).writes) :
    view x ((App.handle E request R).run E.exec i db).2 = view x db := by
  have hframe := (footprint_sound (E := E)).frame_run (App.within (R := R)) hx i db
  rwa [Footprint.run_settle] at hframe

/-- The response depends on the parts that the request may read, and what becomes of a part on these
and on the part itself. -/
theorem App.run_agree (h : Agree view (request.footprint E i).reads db db') :
    ((App.handle E request R).run E.exec i db).1 = ((App.handle E request R).run E.exec i db').1
      ∧ ∀ x, view x db = view x db' →
        view x ((App.handle E request R).run E.exec i db).2 =
          view x ((App.handle E request R).run E.exec i db').2 := by
  have hagree := (footprint_sound (E := E)).agree_run (App.within (R := R)) i h
  simpa only [Footprint.run_settle] using hagree

end Runs

/-! ## Who changes what -/

variable (E) in
/-- The part is the cache, or the request is to change something, as a user where this is the queue
and as an administrator where it is customers or files. -/
def Request.MayChange (request : Request) (arrival : Int) (x : AppPart) : Prop :=
  x = cache ∨ (request.method ∈ ["POST", "PUT", "DELETE"].map ascii
    ∧ (x = jobs → (JwtHelper.requestUser E request arrival).isSome)
    ∧ (x = customers ∨ x = AppPart.files → request.IsAdmin E arrival))

variable (E) in
def AppCall.MayChange (x : AppPart) : AppCall → Prop
  | .request arrival received => received.MayChange E arrival x
  | .work job => x = files ∨ x = customers ∧ job.type = JobType.customerImport
  | .record .. => x = jobs

/-- Outside of `POST`, `PUT` and `DELETE` the routes change the cache at most. -/
theorem routes_safe : ∀ route ∈ routes, ∀ method ∈ route.methods,
    method ∉ ["POST", "PUT", "DELETE"].map ascii → route.action.footprint.writes ⊆ {cache} := by
  decide +kernel

theorem routes_jobs : ∀ route ∈ routes, jobs ∈ route.action.footprint.writes →
    .authentication ∈ route.add := by
  decide +kernel

theorem routes_records : ∀ route ∈ routes,
    customers ∈ route.action.footprint.writes ∨ files ∈ route.action.footprint.writes →
      adminOnly ∈ route.add := by
  decide +kernel

theorem Request.mayChange {request : Request} {arrival : Int} {x : AppPart}
    (hx : x ∈ (request.footprint E arrival).writes) : request.MayChange E arrival x := by
  unfold Request.footprint at hx
  cases hfound : request.route with
  | none => simp [hfound, Bot.bot] at hx
  | some route =>
    simp only [hfound] at hx
    split_ifs at hx with hadmits
    · obtain ⟨hroute, method, hmethod, hrequest⟩ := Request.route_cases hfound
      by_cases hcache : x = cache
      · exact .inl hcache
      · have hunsafe : method ∈ ["POST", "PUT", "DELETE"].map ascii := by
          by_contra hsafe
          exact hcache (Finset.mem_singleton.mp (routes_safe route hroute method hmethod hsafe hx))
        refine .inr ⟨?_, fun hjobs => ?_, fun hrecords => ?_⟩
        · rcases hrequest with rfl | ⟨-, rfl⟩
          · exact hunsafe
          · exact absurd hunsafe (by decide)
        · exact List.all_eq_true.mp hadmits _ (routes_jobs route hroute (hjobs ▸ hx))
        · have hadmin : adminOnly ∈ route.add := by
            refine routes_records route hroute ?_
            rcases hrecords with rfl | rfl
            · exact .inl hx
            · exact .inr hx
          have hany := List.all_eq_true.mp hadmits _ hadmin
          obtain ⟨user, huser, htype⟩ := (Option.any_eq_true _ _).mp hany
          exact ⟨user, huser, by simpa using htype⟩
    · simp [Bot.bot] at hx

/-- Whatever the calls and however they interleave, an act changes a part of the store only as a
step of a call that may: the cache apart, a request that is a `POST`, a `PUT` or a `DELETE`, with
the token of a user for the queue and of an administrator for customers and files; a job for files,
and for customers where it is an import; or an entry of the queue for jobs. -/
theorem changes_accounted {db : AppDb} {now : Int} {s s' : AppPool} {a : AppAct}
    (run : Pool.Steps E.exec (AppPool.start E) AppPool.Arrives (AppPool.idle db now) s)
    (ha : Pool.act E.exec (AppPool.start E) s a = some s') {x : AppPart}
    (hx : view x s'.db ≠ view x s.db) :
    ∃ i p, a = .step i ∧ s.procs[i]? = some p ∧ p.call.1.MayChange E x := by
  obtain ⟨i, p, rfl, hp, hwrites⟩ := footprint_sound.changer
    (fun c => c.1.footprint E) (fun s c => AppCall.within) run ha hx
  refine ⟨i, p, rfl, hp, ?_⟩
  cases hcall : p.call.1 with
  | request arrival received =>
    rw [hcall] at hwrites
    exact Request.mayChange hwrites
  | work job =>
    rw [hcall] at hwrites
    simp only [AppCall.footprint, JobData.footprint] at hwrites
    split_ifs at hwrites with hexport himport
    · exact .inl (Finset.mem_singleton.mp hwrites)
    · simp only [Finset.mem_insert, Finset.mem_singleton] at hwrites
      exact hwrites.symm.imp id fun hx => ⟨hx, himport⟩
    · simp [Bot.bot] at hwrites
  | record jobId state =>
    rw [hcall] at hwrites
    exact Finset.mem_singleton.mp hwrites

theorem AppSample.arrives_of_admits (s : AppPool) (a : AppAct) (h : admits s a = true) :
    s.Arrives a := by
  have hadmits := admits_sound s a h
  rcases a with ⟨⟨_ | _ | _, _⟩⟩ | _ | _ | _
  · exact hadmits.1
  all_goals trivial

open AppSample in
theorem changes_accounted_sample : ∃ s s' : AppPool,
    Pool.act env.exec (AppPool.start env) s (.step 1) = some s'
      ∧ view customers s'.db ≠ view customers s.db
      ∧ ∃ p, s.procs[1]? = some p ∧ p.call.1.MayChange env customers := by
  have h : ∃ s ∈ Pool.acts env.exec (AppPool.start env) (fun s a => admits s a = true) schedule
      (AppPool.idle db 0), ∃ s' ∈ Pool.act env.exec (AppPool.start env) s (.step 1),
      s'.db.customer.customer ≠ s.db.customer.customer := by
    decide +kernel
  obtain ⟨s, hs, s', hact, hchange⟩ := h
  have run := (Pool.steps_of_acts hs).mono arrives_of_admits
  obtain ⟨i, p, hi, hp, hmay⟩ := changes_accounted (x := customers) run hact hchange
  obtain rfl := Act.step.inj hi
  exact ⟨s, s', hact, hchange, p, hp, hmay⟩

/-! ## What an anonymous request learns -/

section Anonymous

variable {request : Request} {i : Int}

/-- The parts of the session endpoints. -/
def sessionParts : Footprint AppPart := ⟨{accounts, sessions}, {accounts, sessions}⟩

theorem routes_anonymous : ∀ route ∈ routes, .authentication ∉ route.add →
    route.action.footprint ≤ sessionParts := by
  decide +kernel

theorem Request.footprint_anonymous (h : JwtHelper.requestUser E request i = none) :
    request.footprint E i ≤ sessionParts := by
  unfold Request.footprint
  cases hfound : request.route with
  | none => exact Footprint.bot_le _
  | some route =>
    simp only
    split_ifs with hadmits
    · refine routes_anonymous route (Request.route_cases hfound).1 fun hauthentication => ?_
      have hsome := List.all_eq_true.mp hadmits _ hauthentication
      simp [Middleware.admits, h] at hsome
    · exact Footprint.bot_le _

/-- What a request without a token that verifies is answered, and what it leaves of the accounts
and the sessions, is the same whatever the customers, their cache, the files and the jobs are; and
it leaves these as they are. -/
theorem unauthenticated_noninterference (h : JwtHelper.requestUser E request i = none)
    (R : AppEntropy) (db : AppDb) (customer : CustomerDb) (job : Table JobData) :
    (App.handle E request R).run E.exec i { db with customer, job } =
      (((App.handle E request R).run E.exec i db).1,
        { ((App.handle E request R).run E.exec i db).2 with customer, job }) := by
  have hle := Request.footprint_anonymous h
  have hreads : Agree view (request.footprint E i).reads { db with customer, job } db := by
    intro x hx
    have hpart := hle.1 hx
    simp only [sessionParts, Finset.mem_insert, Finset.mem_singleton] at hpart
    rcases hpart with rfl | rfl <;> rfl
  have hagree := App.run_agree (R := R) hreads
  have hframe : ∀ x, x ∉ sessionParts.writes →
      view x ((App.handle E request R).run E.exec i { db with customer, job }).2 =
        view x { db with customer, job } :=
    fun x hx => App.run_frame fun hmem => hx (hle.2 hmem)
  refine Prod.ext hagree.1 (AppDb.ext_view fun x => ?_)
  cases x with
  | accounts => exact hagree.2 accounts rfl
  | sessions => exact hagree.2 sessions rfl
  | customers => exact hframe customers (by decide)
  | cache => exact hframe cache (by decide)
  | files => exact hframe files (by decide)
  | jobs => exact hframe jobs (by decide)

open AppSample in
theorem unauthenticated_noninterference_sample :
    let emptied : CustomerDb := { CustomerSample.db with customer := ⟨[], 9⟩ }
    (App.handle env login entropy).run env.exec 0 { db with customer := emptied, job := ⟨[], 7⟩ } =
      (((App.handle env login entropy).run env.exec 0 db).1,
        { ((App.handle env login entropy).run env.exec 0 db).2 with
          customer := emptied, job := ⟨[], 7⟩ }) :=
  unauthenticated_noninterference (by decide +kernel) entropy db _ ⟨[], 7⟩

end Anonymous

end SlimStarter
