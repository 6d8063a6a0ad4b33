import SlimStarter.Lib.Yields
import SlimStarter.Customer.Listing
import SlimStarter.Customer.Pages
import SlimStarter.Http.Privilege

/-!
# The pages of the list endpoint

`Pagination::sanitize` keeps the limit between 1 and its maximum, so that `Pagination::apply` leaves
it as it is, and the page above 0 only. The offset of a page is computed with the arithmetic of PHP,
where a result beyond the integers is a float: `offset` then throws, since it returns an integer.
The endpoint answers a request for a page exactly where this does not happen
(`pagination_exact_iff`).
-/

namespace SlimStarter

open CustomerService (listKey listOf)

/-- A number of PHP; the value of a float does not matter here. -/
inductive Number where
  | int (n : Int)
  | float
deriving DecidableEq, Repr

namespace Number

/-- The result of an operation on integers. -/
def ofInt (n : Int) : Number := if -intMax - 1 ≤ n ∧ n ≤ intMax then int n else float

def mul : Number → Number → Number
  | int a, int b => ofInt (a * b)
  | _, _ => float

def sub : Number → Number → Number
  | int a, int b => ofInt (a - b)
  | _, _ => float

end Number

namespace Pagination

/-- `Pagination::offset`, which returns an integer or throws. -/
def offset (page limit : Int) : Except Failure Int :=
  match ((Number.int limit).mul (.int page)).sub (.int limit) with
  | .int n => .ok n
  | .float => .error .typeError

def maxLimit : Int := 100

def clamp (limit : Int) : Int := min maxLimit (max 1 limit)

/-- `Pagination::apply` with the limit and the offset that it sets; it returns the limit. -/
def apply (page limit : Int) : Except Failure (Int × Int) :=
  (fun offset => (clamp limit, offset)) <$> offset (max 1 page) (clamp limit)

/-- What the computation of the offset goes through is between 0 and the greatest integer. -/
structure InRange (page limit : Int) : Prop where
  product : 0 ≤ limit * page ∧ limit * page ≤ intMax
  difference : 0 ≤ limit * page - limit ∧ limit * page - limit ≤ intMax

variable {E : AppEnv} {page limit : Int}

theorem inRange_iff (hpage : 1 ≤ page) (hlimit : 1 ≤ limit) :
    InRange page limit ↔ limit * page ≤ intMax := by
  have hproduct : limit ≤ limit * page := le_mul_of_one_le_right (by omega) hpage
  exact ⟨fun h => h.product.2, fun h => ⟨⟨by omega, h⟩, by omega, by omega⟩⟩

theorem offset_eq (hpage : 1 ≤ page) (hlimit : 1 ≤ limit) : offset page limit =
    if limit * page ≤ intMax then .ok (limit * page - limit) else .error .typeError := by
  have hproduct : limit ≤ limit * page := le_mul_of_one_le_right (by omega) hpage
  by_cases h : limit * page ≤ intMax
  · have hmul : (Number.int limit).mul (.int page) = .int (limit * page) := if_pos (by omega)
    have hsub : (Number.int (limit * page)).sub (.int limit) = .int (limit * page - limit) :=
      if_pos (by omega)
    rw [offset, hmul, hsub, if_pos h]
  · have hmul : (Number.int limit).mul (.int page) = .float := if_neg (by omega)
    rw [offset, hmul, if_neg h]
    rfl

theorem clamp_pos (limit : Int) : 1 ≤ clamp limit := by
  unfold clamp maxLimit
  omega

theorem apply_eq (rows : List CustomerRow) (page limit : Int) :
    (apply page limit).map (fun r => (rows.drop r.2.toNat).take r.1.toNat) =
      if CustomerModel.offsetOverflows page limit then .error .typeError
      else .ok (CustomerModel.paginate page limit rows) := by
  unfold apply
  rw [offset_eq (le_max_left 1 page) (clamp_pos limit)]
  by_cases h : clamp limit * max 1 page ≤ intMax
  · have hoverflows : CustomerModel.offsetOverflows page limit = false :=
      decide_eq_false (not_lt.mpr h)
    rw [if_pos h, hoverflows]
    rfl
  · have hoverflows : CustomerModel.offsetOverflows page limit = true :=
      decide_eq_true (not_le.mp h)
    rw [if_neg h, hoverflows]
    rfl

/-- What `sanitize` makes of the query: a page from 1 on, and a limit that `clamp` keeps. -/
theorem sanitize_spec (E : AppEnv) (page limit : Mixed) :
    1 ≤ (sanitize E page limit).1 ∧ 1 ≤ (sanitize E page limit).2
      ∧ clamp (sanitize E page limit).2 = (sanitize E page limit).2 := by
  simp only [sanitize, clamp, maxLimit]
  refine ⟨le_max_left _ _, ?_⟩
  split_ifs <;> omega

end Pagination

/-! ## The cache -/

namespace CustomerService

variable {E : CustomerEnv} {R : CustomerEntropy} {i : Int} {db : CustomerDb}
variable {keywords : Bytes} {status : Option Bytes} {page limit : Int}

theorem run_get_of_miss {key : Bytes} (hmiss : db.redis (CacheRedis.redisKey E key) = none)
    (c : CacheRedis) :
    ∃ c', (CacheRedis.get E c key).run E.exec i db = (.ok (none, c'), db) := by
  unfold CacheRedis.get
  split
  · exact ⟨_, rfl⟩
  · next c' _ =>
    refine ⟨c', ?_⟩
    show (Except.ok (Redis.get db.redis i (CacheRedis.redisKey E key), c'), db) = _
    rw [Redis.get, Redis.entry, hmiss]
    rfl

theorem run_setJson_ok (c : CacheRedis) (key : Bytes) (value : Cached) (expire : Int) :
    ∃ a db', (CacheRedis.setJson E R c key value expire).run E.exec i db = (.ok a, db') := by
  unfold CacheRedis.setJson
  split
  · exact ⟨_, _, rfl⟩
  · unfold CacheRedis.set
    split_ifs
    · exact ⟨_, _, rfl⟩
    · split
      · exact ⟨_, _, rfl⟩
      · obtain ⟨a, db', hrun, -⟩ := Prog.yields_iff.mp
          ((Prog.yields_tryCatch_stmt (Q := fun _ _ => True)).mpr (by split <;> trivial))
        exact ⟨a, db', hrun⟩

/-- Where the cache has no answer to this list, `list` computes it from the table. -/
theorem run_list_of_miss (hmiss : ∀ v,
      db.redis (listRedisKey E (listKey keywords status page limit) v) = none) :
    ((list E R keywords status page limit).run E.exec i db).1 =
      (listOf E db.customer keywords status page limit).map .list := by
  have hremember : ∀ (c : CacheRedis) (v : ℕ),
      ((CacheRedis.rememberJson E R c (CacheRedis.namespacedKey cacheNamespace (ascii "list")
        (E.sha1 (listKey keywords status page limit)) v) cacheTtl
        (loadList E keywords status page limit)).run E.exec i db).1.map Prod.fst =
          (listOf E db.customer keywords status page limit).map .list := by
    intro c v
    obtain ⟨c', hget⟩ := @run_get_of_miss E i db _ (hmiss v) c
    unfold CacheRedis.rememberJson CacheRedis.getJson
    rw [Prog.run_bind, Prog.run_bind, hget]
    simp only [Prog.pure_eq, Prog.run_ret, Option.bind_none]
    rw [Prog.run_bind, run_loadList]
    cases listOf E db.customer keywords status page limit with
    | error e => rfl
    | ok answer =>
      simp only [Except.map]
      obtain ⟨a, db', hset⟩ := @run_setJson_ok E R i db c' (CacheRedis.namespacedKey
        cacheNamespace (ascii "list") (E.sha1 (listKey keywords status page limit)) v)
        (.list answer) cacheTtl
      rw [Prog.run_bind, hset]
      rfl
  have hrest : ∀ (c : CacheRedis) (v : ℕ), (Prog.run E.exec i (do
      let r ← CacheRedis.rememberJson E R c (CacheRedis.namespacedKey cacheNamespace (ascii "list")
        (E.sha1 (listKey keywords status page limit)) v) cacheTtl
        (loadList E keywords status page limit)
      pure r.1) db).1 = (listOf E db.customer keywords status page limit).map .list := by
    intro c v
    rw [← hremember c v, bind_pure_comp, Prog.run_map]
  unfold list
  rw [namespaced_fresh]
  split_ifs
  · exact hrest _ _
  · exact hrest _ _

/-- What `list` computes for a page and a limit as `sanitize` leaves them. -/
theorem listOf_eq {t : Table CustomerRow} (hpage : 1 ≤ page)
    (hlimit : Pagination.clamp limit = limit) :
    listOf E t keywords status page limit =
      if limit * page ≤ intMax then .ok {
        data := ((CustomerModel.iterateForExport E t keywords status).drop
          (limit * page - limit).toNat |>.take limit.toNat).map (toPublicArray E)
        totalData := CustomerModel.countGet E t keywords status
        totalPage := totalPages (CustomerModel.countGet E t keywords status) limit }
      else .error .typeError := by
  have hclamp : min 100 (max 1 limit) = limit := hlimit
  have hoverflows : CustomerModel.offsetOverflows page limit = decide (intMax < limit * page) := by
    unfold CustomerModel.offsetOverflows
    rw [hclamp, max_eq_right hpage]
  have hget : CustomerModel.get E t keywords status page limit =
      ((CustomerModel.iterateForExport E t keywords status).drop
        (limit * page - limit).toNat).take limit.toNat := by
    simp only [CustomerModel.get, CustomerModel.paginate, hclamp, max_eq_right hpage]
    rfl
  unfold listOf
  rw [hoverflows, hget]
  by_cases h : limit * page ≤ intMax
  · rw [if_pos h, decide_eq_false (not_lt.mpr h)]
    rfl
  · rw [if_neg h, decide_eq_true (not_le.mp h)]
    rfl

end CustomerService

/-! ## The endpoint -/

/-- A request of a user who is signed in for a page of the customers, with a valid filter, to which
the cache has no answer. -/
structure ListRequest (E : AppEnv) (page limit : Mixed) where
  request : Request
  entropy : AppEntropy
  now : Int
  db : AppDb
  user : RequestUser
  method_eq : request.method = ascii "GET"
  path_eq : request.path = ascii "/customer"
  page_eq : request.query (ascii "page") = page
  limit_eq : request.query (ascii "limit") = limit
  signedIn : JwtHelper.requestUser E request now = some user
  valid : (CustomerListRequest.fromRequest E request.query).validate = []
  uncached : ∀ v, db.customer.redis (listRedisKey E.customer
    (listKey (CustomerListRequest.fromRequest E request.query).keywords
      (CustomerListRequest.fromRequest E request.query).status
      (Pagination.sanitize E page limit).1 (Pagination.sanitize E page limit).2) v) = none

namespace ListRequest

variable {E : AppEnv} {page limit : Mixed}

def dto (q : ListRequest E page limit) : CustomerListRequest :=
  CustomerListRequest.fromRequest E q.request.query

def response (q : ListRequest E page limit) : Except Failure Response :=
  ((App.handle E q.request q.entropy).run E.exec q.now q.db).1

/-- The rows that the filters select, in the order of the list. -/
def rows (q : ListRequest E page limit) : List CustomerRow :=
  CustomerModel.iterateForExport E.customer q.db.customer.customer q.dto.keywords q.dto.status

/-- The response has the `n` rows from the offset of the page on, and none past the last row. -/
def Answered (q : ListRequest E page limit) (p n : Int) : Prop :=
  ∃ answer : CustomerList,
    q.response = .ok (JsonResponse.success E (.customers answer.data) "Customers retrieved."
      [("total_page", answer.totalPage), ("total_data", answer.totalData)] HttpStatus.ok)
    ∧ answer.data = ((q.rows.drop (n * p - n).toNat).take n.toNat).map
      (CustomerService.toPublicArray E.customer)
    ∧ (q.rows.length ≤ n * p - n → answer.data = [])

/-- The error handler responds. -/
def Failed (q : ListRequest E page limit) : Prop :=
  ∃ response, q.response = .ok response ∧ response.httpStatus = HttpStatus.internalServerError

theorem response_eq (q : ListRequest E page limit) : q.response = .ok
    (match listOf E.customer q.db.customer.customer q.dto.keywords q.dto.status
      (Pagination.sanitize E page limit).1 (Pagination.sanitize E page limit).2 with
    | .ok answer => JsonResponse.success E (.customers answer.data) "Customers retrieved."
      [("total_page", answer.totalPage), ("total_data", answer.totalData)] HttpStatus.ok
    | .error e => App.errorHandler E e) := by
  have hroute : findRoute (ascii "GET") (ascii "/customer") =
      some (.of "GET" "/customer" .list [.authentication], none) := by decide +kernel
  have hpage : q.dto.page = (Pagination.sanitize E page limit).1
      ∧ q.dto.limit = (Pagination.sanitize E page limit).2 := by
    unfold dto CustomerListRequest.fromRequest
    rw [q.page_eq, q.limit_eq]
    exact ⟨rfl, rfl⟩
  have hlist := @CustomerService.run_list_of_miss E.customer q.entropy.customer q.now
    q.db.customer q.dto.keywords q.dto.status _ _ q.uncached
  have hvalid : q.dto.validate = [] := q.valid
  have haction : ((Action.list.run E ⟨q.request, some q.user, none, q.entropy⟩).run E.exec q.now
      q.db).1 = (listOf E.customer q.db.customer.customer q.dto.keywords q.dto.status
        (Pagination.sanitize E page limit).1 (Pagination.sanitize E page limit).2).map
          fun answer => JsonResponse.success E (.customers answer.data) "Customers retrieved."
            [("total_page", answer.totalPage), ("total_data", answer.totalData)]
            HttpStatus.ok := by
    rw [← hpage.1, ← hpage.2] at hlist ⊢
    change ((Controller.validated E q.dto.validate (onCustomers (CustomerService.list E.customer
      q.entropy.customer q.dto.keywords q.dto.status q.dto.page q.dto.limit) >>= _)).run E.exec
        q.now q.db).1 = _
    rw [Controller.validated, if_pos hvalid, Prog.run_bind, run_onCustomers, hlist]
    cases listOf E.customer q.db.customer.customer q.dto.keywords q.dto.status q.dto.page
      q.dto.limit <;> rfl
  have hhandle := @App.run_handle E q.now q.db q.request q.entropy _ none q.user
    (by rw [q.method_eq, q.path_eq, hroute]) q.signedIn (.inl rfl)
  rcases hrun : (Action.list.run E ⟨q.request, some q.user, none, q.entropy⟩).run E.exec q.now
    q.db with ⟨r, db'⟩
  rw [hrun] at haction
  simp only at haction
  subst haction
  simp only [response, hhandle, Route.of, Option.map_none, hrun]
  cases listOf E.customer q.db.customer.customer q.dto.keywords q.dto.status
    (Pagination.sanitize E page limit).1 (Pagination.sanitize E page limit).2 <;> rfl

theorem answered_of_fits (q : ListRequest E page limit)
    (h : (Pagination.sanitize E page limit).2 * (Pagination.sanitize E page limit).1 ≤ intMax) :
    q.Answered (Pagination.sanitize E page limit).1 (Pagination.sanitize E page limit).2 := by
  obtain ⟨hp, -, hclamp⟩ := Pagination.sanitize_spec E page limit
  have hresponse := q.response_eq
  rw [CustomerService.listOf_eq hp hclamp, if_pos h] at hresponse
  refine ⟨_, hresponse, rfl, fun hpast => ?_⟩
  have hdrop : q.rows.drop ((Pagination.sanitize E page limit).2
      * (Pagination.sanitize E page limit).1 - (Pagination.sanitize E page limit).2).toNat = [] :=
    List.drop_eq_nil_of_le (by omega)
  change ((q.rows.drop _).take _).map _ = []
  rw [hdrop, List.take_nil, List.map_nil]

theorem failed_of_not_fits (q : ListRequest E page limit)
    (h : intMax < (Pagination.sanitize E page limit).2 * (Pagination.sanitize E page limit).1) :
    q.Failed := by
  obtain ⟨hp, -, hclamp⟩ := Pagination.sanitize_spec E page limit
  have hresponse := q.response_eq
  rw [CustomerService.listOf_eq hp hclamp, if_neg (not_le.mpr h)] at hresponse
  exact ⟨_, hresponse, rfl⟩

end ListRequest

/-- The limit of a list is the one of its query, sanitized. The offset of the page is computed with
integers from 0 on, and the endpoint answers every request for it, with an empty page past the last
row, exactly if the page is at most the greatest integer divided by the limit. Otherwise the offset
is no integer, and no such request is answered. -/
theorem pagination_exact_iff (E : AppEnv) (page limit : Mixed) :
    let p := (Pagination.sanitize E page limit).1
    let n := (Pagination.sanitize E page limit).2
    Pagination.clamp n = n
      ∧ ((Pagination.InRange p n ∧ Pagination.offset p n = .ok (n * p - n)
          ∧ ∀ q : ListRequest E page limit, q.Answered p n) ↔ p ≤ intMax / n)
      ∧ (intMax / n < p → Pagination.offset p n = .error .typeError
          ∧ ∀ q : ListRequest E page limit, q.Failed) := by
  intro p n
  obtain ⟨hp, hn, hclamp⟩ := Pagination.sanitize_spec E page limit
  have hfits : p ≤ intMax / n ↔ n * p ≤ intMax := by
    rw [Int.le_ediv_iff_mul_le (show 0 < n by omega), mul_comm]
  have hrange : Pagination.InRange p n ↔ n * p ≤ intMax := Pagination.inRange_iff hp hn
  have hoffset := Pagination.offset_eq hp hn
  refine ⟨hclamp, ⟨fun h => hfits.mpr (hrange.mp h.1), fun h => ?_⟩, fun h => ?_⟩
  · rw [hfits] at h
    exact ⟨hrange.mpr h, hoffset.trans (if_pos h), fun q => q.answered_of_fits h⟩
  · rw [← not_le, hfits] at h
    exact ⟨hoffset.trans (if_neg h), fun q => q.failed_of_not_fits (not_le.mp h)⟩

namespace AppSample

/-- A query for the last page of two customers that an integer can name. -/
def lastPage : Bytes → Mixed := fun field =>
  if field = ascii "page" then .string (natString intMax)
  else if field = ascii "limit" then .string (ascii "2")
  else .null

/-- The cast of the values of this query. -/
def castEnv : AppEnv :=
  { env with
    toInt := fun value =>
      if value = .string (natString intMax) then intMax else if value = .string (ascii "2") then 2
      else 0 }

def listLastPage : ListRequest castEnv (lastPage (ascii "page")) (lastPage (ascii "limit")) where
  request := { post "/customer" (ascii "Bearer " ++ claims.email) [] with
    method := ascii "GET"
    query := lastPage }
  entropy := entropy
  now := 0
  db := db
  user := JwtHelper.userFromClaims claims
  method_eq := rfl
  path_eq := rfl
  page_eq := rfl
  limit_eq := rfl
  signedIn := by decide +kernel
  valid := by decide +kernel
  uncached := fun _ => rfl

open Pagination in
/-- The product of this page and limit is a float, and the request is not answered. -/
theorem last_page_fails :
    sanitize castEnv (lastPage (ascii "page")) (lastPage (ascii "limit")) = ((intMax : Int), 2)
      ∧ ¬ InRange intMax 2 ∧ offset intMax 2 = .error .typeError
      ∧ listLastPage.response = .ok (App.errorHandler castEnv .typeError)
      ∧ ¬ listLastPage.Answered intMax 2 := by
  have hresponse : listLastPage.response = .ok (App.errorHandler castEnv .typeError) := by
    decide +kernel
  refine ⟨by decide +kernel, fun h => absurd h.product.2 (by decide), by decide, hresponse, ?_⟩
  rintro ⟨answer, hanswer, -⟩
  have hstatus : HttpStatus.internalServerError = HttpStatus.ok :=
    congrArg Response.httpStatus (Except.ok.inj (hresponse.symm.trans hanswer))
  exact absurd hstatus (by decide)

end AppSample

end SlimStarter
