import SlimStarter.Customer.Export
import SlimStarter.Lib.Paging

/-!
# The pages of the customers

Where there is no cache, `list` computes its answer from the table (`list_uncached`,
`run_loadList`). Page after page it gives the rows that `iterateForExport` yields, as long as the
offsets are integers (`pages_export_iff`): for a page whose offset is not, `Pagination::offset`
throws (`page_out_of_range`).
-/

namespace SlimStarter

open CacheRedis (configured)

variable {E : CustomerEnv} {R : CustomerEntropy} {i : Int} {db : CustomerDb}
variable {keywords : Bytes} {status : Option Bytes} {page limit : Int}

/-- The same settings without Redis. -/
def CustomerEnv.uncached (E : CustomerEnv) : CustomerEnv := { E with redisServerHost := [] }

/-! ## What `list` computes -/

namespace CustomerService

/-- The answer that `loadList` computes from a table. -/
def listOf (E : CustomerEnv) (t : Table CustomerRow) (keywords : Bytes) (status : Option Bytes)
    (page limit : Int) : Except Failure CustomerList :=
  if CustomerModel.offsetOverflows page limit then .error .typeError
  else .ok {
    data := (CustomerModel.get E t keywords status page limit).map (toPublicArray E)
    totalData := CustomerModel.countGet E t keywords status
    totalPage := totalPages (CustomerModel.countGet E t keywords status) limit }

theorem run_loadList : (loadList E keywords status page limit).run E.exec i db =
    ((listOf E db.customer keywords status page limit).map .list, db) := by
  simp only [loadList, Prog.stmt_bind, Prog.run_call, CustomerEnv.exec, Prog.resume_ok, listOf]
  split_ifs <;> rfl

theorem rememberJson_disabled {c : CacheRedis} (hc : c.disabled = true) (key : Bytes) (expire : Int)
    (producer : CustomerProg Cached) : CacheRedis.rememberJson E R c key expire producer =
      (fun value => (value, c)) <$> producer := by
  have hclient := client_of_disabled (E := E) hc
  have hset : ∀ value, CacheRedis.setJson E R c key value expire = .ret (false, c) := by
    intro value
    unfold CacheRedis.setJson CacheRedis.set
    rw [hclient]
    split
    · rfl
    · split_ifs <;> rfl
  simp only [CacheRedis.rememberJson, CacheRedis.getJson, CacheRedis.get, hclient, hset,
    Prog.pure_eq, Prog.ret_bind, Option.bind_none]
  exact bind_pure_comp _ _

theorem cached_uncached (hcache : configured E = false) {entity discriminator : Bytes} {ttl : Int}
    (producer : CustomerProg Cached) : (do
      let (cacheKey, cache) ← CacheRedis.namespaced E CacheRedis.fresh cacheNamespace entity
        discriminator
      let (result, _) ← CacheRedis.rememberJson E R cache cacheKey ttl producer
      pure result) = producer := by
  rw [namespaced_fresh]
  simp only [hcache, Bool.false_eq_true, if_false, Prog.ret_bind]
  rw [rememberJson_disabled rfl, bind_map_left]
  exact bind_pure _

theorem list_uncached (hcache : configured E = false) :
    list E R keywords status page limit = loadList E keywords status page limit :=
  cached_uncached hcache _

theorem stats_uncached (hcache : configured E = false) : stats E R = loadStats E :=
  cached_uncached hcache _

end CustomerService

/-! ## Pages -/

/-- The page that `list` answers with, if it answers. -/
def CustomerService.pageOf (E : CustomerEnv) (R : CustomerEntropy) (i : Int) (db : CustomerDb)
    (keywords : Bytes) (status : Option Bytes) (limit page : ℕ) : Option CustomerList :=
  match ((CustomerService.list E R keywords status page limit).run E.exec i db).1 with
  | .ok (.list answer) => some answer
  | _ => none

/-- Pages that divide these rows: the pages up to the last that is not empty are the rows in their
order, and all pages up to `last` are answered. -/
structure Paged (E : CustomerEnv) (answer : ℕ → Option CustomerList) (rows : List CustomerRow)
    (limit last : ℕ) : Prop where
  answers : ∀ p, 1 ≤ p → p ≤ max last (Paging.pageCount limit rows) → ∃ page ∈ answer p,
    page.totalData = rows.length ∧ page.totalPage = Paging.pageCount limit rows
  concat : ∃ pages : List CustomerList,
    (List.range (Paging.pageCount limit rows)).map (fun k => answer (k + 1)) = pages.map some
      ∧ pages.flatMap (·.data) = rows.map (CustomerService.toPublicArray E)
  full : ∀ p, 1 ≤ p → p < Paging.pageCount limit rows →
    ∀ page ∈ answer p, page.data.length = limit
  nonempty : ∀ page ∈ answer (Paging.pageCount limit rows), rows ≠ [] → page.data ≠ []
  beyond : ∀ p, Paging.pageCount limit rows < p → p ≤ last → ∀ page ∈ answer p, page.data = []

section Pages

variable {rows : List CustomerRow} {limit last p : ℕ}

theorem paginate_eq_slice (hlimit : 1 ≤ limit ∧ limit ≤ 100) (hp : 1 ≤ p) :
    CustomerModel.paginate p limit rows = Paging.slice limit rows (p - 1) := by
  obtain ⟨k, rfl⟩ : ∃ k, p = k + 1 := ⟨p - 1, by omega⟩
  have hclamp : min 100 (max 1 (limit : Int)) = limit := by omega
  have hpage : max 1 ((k + 1 : ℕ) : Int) = ((k + 1 : ℕ) : Int) := by omega
  have hoffset : ((limit : Int) * ((k + 1 : ℕ) : Int) - limit).toNat = limit * k := by
    have hproduct : (limit : Int) * ((k + 1 : ℕ) : Int) - limit = ((limit * k : ℕ) : Int) := by
      push_cast
      ring
    rw [hproduct, Int.toNat_natCast]
  simp only [CustomerModel.paginate, hclamp, hpage, hoffset, Int.toNat_natCast, Paging.slice,
    Nat.add_sub_cancel]

theorem totalPages_eq_pageCount (hlimit : 1 ≤ limit) :
    totalPages rows.length limit = Paging.pageCount limit rows := by
  unfold totalPages Paging.pageCount
  by_cases hrows : rows.length = 0
  · simp [hrows]
  · have hdata : ¬ ((rows.length : Int) ≤ 0 ∨ (limit : Int) ≤ 0) := by omega
    rw [if_neg hdata, if_neg hrows]
    have hpred : ((rows.length : Int) - 1) = ((rows.length - 1 : ℕ) : Int) := by omega
    rw [hpred]
    push_cast
    rfl

theorem offsetOverflows_iff (hlimit : 1 ≤ limit ∧ limit ≤ 100) (hp : 1 ≤ p) :
    CustomerModel.offsetOverflows p limit = true ↔ intMax < limit * p := by
  have hclamp : min 100 (max 1 (limit : Int)) = limit := by omega
  have hpage : max 1 (p : Int) = p := by omega
  simp only [CustomerModel.offsetOverflows, hclamp, hpage, decide_eq_true_eq]
  norm_cast

theorem countGet_eq_length : CustomerModel.countGet E db.customer keywords status =
    (CustomerModel.iterateForExport E db.customer keywords status).length :=
  (List.length_insertionSort _ _).symm

/-- A page whose offset is an integer is a slice of the export. -/
theorem pageOf_eq (hcache : configured E = false) (hlimit : 1 ≤ limit ∧ limit ≤ 100) (hp : 1 ≤ p)
    (hfits : limit * p ≤ intMax) :
    CustomerService.pageOf E R i db keywords status limit p = some {
      data := (Paging.slice limit (CustomerModel.iterateForExport E db.customer keywords status)
        (p - 1)).map (CustomerService.toPublicArray E)
      totalData := (CustomerModel.iterateForExport E db.customer keywords status).length
      totalPage := Paging.pageCount limit
        (CustomerModel.iterateForExport E db.customer keywords status) } := by
  have hoffset : CustomerModel.offsetOverflows p limit = false := by
    rw [← Bool.not_eq_true, offsetOverflows_iff hlimit hp]
    exact not_lt.mpr hfits
  unfold CustomerService.pageOf
  rw [CustomerService.list_uncached hcache, CustomerService.run_loadList]
  simp only [CustomerService.listOf, hoffset, Bool.false_eq_true, if_false, Except.map,
    countGet_eq_length, totalPages_eq_pageCount hlimit.1]
  rw [CustomerModel.get, paginate_eq_slice hlimit hp]
  rfl

theorem pageOf_eq_none (hcache : configured E = false) (hlimit : 1 ≤ limit ∧ limit ≤ 100)
    (hp : 1 ≤ p) (hlarge : intMax < limit * p) :
    CustomerService.pageOf E R i db keywords status limit p = none := by
  have hoffset := (offsetOverflows_iff hlimit hp).mpr hlarge
  unfold CustomerService.pageOf
  rw [CustomerService.list_uncached hcache, CustomerService.run_loadList]
  simp only [CustomerService.listOf, hoffset, if_true, Except.map]

theorem mem_iterateForExport {r : CustomerRow} :
    r ∈ CustomerModel.iterateForExport E db.customer keywords status ↔
      r ∈ db.customer.rows ∧ r.deletedAt = none
        ∧ CustomerModel.matchesFilters E keywords status r = true := by
  simp [CustomerModel.iterateForExport, CustomerModel.selected]

/-- The rows ascend strictly, since the ids are a primary key. -/
theorem iterateForExport_ascending (hkey : db.customer.Keyed (·.id)) :
    (CustomerModel.iterateForExport E db.customer keywords status).Pairwise (·.id < ·.id) := by
  have hsorted : (CustomerModel.iterateForExport E db.customer keywords status).Pairwise
      (·.id ≤ ·.id) := List.pairwise_insertionSort _ _
  have hdistinct : (CustomerModel.iterateForExport E db.customer keywords status).Pairwise
      (·.id ≠ ·.id) :=
    ((List.perm_insertionSort _ _).pairwise_iff fun h => h.symm).mpr
      (hkey.distinct.sublist List.filter_sublist)
  exact (hsorted.and hdistinct).imp fun h => lt_of_le_of_ne h.1 h.2

/-- Where all offsets are integers, the pages divide the export. -/
theorem paged_of_fits (hcache : configured E = false) (hlimit : 1 ≤ limit ∧ limit ≤ 100)
    (hrows : rows = CustomerModel.iterateForExport E db.customer keywords status)
    (hfits : limit * max last (Paging.pageCount limit rows) ≤ intMax) :
    Paged E (CustomerService.pageOf E R i db keywords status limit) rows limit last := by
  have hpage : ∀ p, 1 ≤ p → p ≤ max last (Paging.pageCount limit rows) →
      CustomerService.pageOf E R i db keywords status limit p = some {
        data := (Paging.slice limit rows (p - 1)).map (CustomerService.toPublicArray E)
        totalData := rows.length
        totalPage := Paging.pageCount limit rows } := by
    intro p hp hle
    rw [hrows]
    exact pageOf_eq hcache hlimit hp ((Nat.mul_le_mul_left limit hle).trans hfits)
  refine ⟨fun p hp hle => ⟨_, hpage p hp hle, rfl, rfl⟩, ?_, ?_, ?_, ?_⟩
  · refine ⟨(List.range (Paging.pageCount limit rows)).map fun k => {
      data := (Paging.slice limit rows k).map (CustomerService.toPublicArray E)
      totalData := rows.length
      totalPage := Paging.pageCount limit rows }, ?_, ?_⟩
    · rw [List.map_map]
      refine List.map_congr_left fun k hk => ?_
      have hle := List.mem_range.mp hk
      exact hpage (k + 1) (Nat.le_add_left 1 k) (by omega)
    · rw [List.flatMap_map, ← List.map_flatMap, Paging.flatMap_slice hlimit.1]
  · intro p hp hlt page hpage'
    rw [hpage p hp (by omega)] at hpage'
    obtain rfl := Option.some.inj hpage'
    rw [List.length_map]
    exact Paging.length_slice hlimit.1 (by omega)
  · intro page hpage' hne
    have hcount : 0 < Paging.pageCount limit rows := by
      rw [Paging.lt_pageCount hlimit.1, Nat.mul_zero]
      exact List.length_pos_of_ne_nil hne
    rw [hpage _ hcount (le_max_right _ _)] at hpage'
    obtain rfl := Option.some.inj hpage'
    simp only [ne_eq, List.map_eq_nil_iff, Paging.slice_eq_nil hlimit.1]
    omega
  · intro p hlt hle page hpage'
    rw [hpage p (by omega) (by omega)] at hpage'
    obtain rfl := Option.some.inj hpage'
    simp only [List.map_eq_nil_iff, Paging.slice_eq_nil hlimit.1]
    omega

/-- The pages that `list` answers with without a cache, from page 1 on and up to any page `last`
that is asked for, divide the rows that `iterateForExport` yields, which are the live rows that
match, each once and in the order of their ids, if and only if the largest page times the limit is
an integer. -/
theorem pages_export_iff (hcache : configured E = false) (hkey : db.customer.Keyed (·.id))
    (hlimit : 1 ≤ limit ∧ limit ≤ 100) :
    let rows := CustomerModel.iterateForExport E db.customer keywords status
    ((∀ r, r ∈ rows ↔ r ∈ db.customer.rows ∧ r.deletedAt = none
          ∧ CustomerModel.matchesFilters E keywords status r = true)
        ∧ rows.Pairwise (·.id < ·.id)
        ∧ Paged E (CustomerService.pageOf E R i db keywords status limit) rows limit last)
      ↔ limit * max last (Paging.pageCount limit rows) ≤ intMax := by
  intro rows
  constructor
  · rintro ⟨-, -, hpaged⟩
    by_contra hlarge
    have hlast : 1 ≤ max last (Paging.pageCount limit rows) := by
      by_contra hzero
      rw [Nat.lt_one_iff.mp (not_le.mp hzero)] at hlarge
      exact hlarge (Nat.zero_le _)
    obtain ⟨page, hpage, -⟩ := hpaged.answers _ hlast le_rfl
    rw [pageOf_eq_none hcache hlimit hlast (not_le.mp hlarge)] at hpage
    cases hpage
  · intro hfits
    exact ⟨fun r => mem_iterateForExport, iterateForExport_ascending hkey,
      paged_of_fits hcache hlimit rfl hfits⟩

end Pages

namespace CustomerSample

/-- Four customers, of whom the second is deleted. -/
def fourCustomers : CustomerDb :=
  let row (id : ℕ) (name : Bytes) (deletedAt : Option LocalTime) : CustomerRow :=
    { customer name with
      id, avatarPath := none, createdAt := ⟨0⟩, updatedAt := none, deletedAt }
  { CustomerSample.db with
    customer := ⟨[row 1 (ascii "Ann") none, row 2 (ascii "Bob") (some ⟨1⟩),
      row 3 (ascii "Eve") none, row 4 (ascii "Ida") none], 5⟩ }

end CustomerSample

open CustomerSample in
/-- A full page and a rest; the deleted customer is on neither. -/
theorem pages_export_sample :
    let rows := CustomerModel.iterateForExport env.uncached fourCustomers.customer [] none
    rows.map (·.id) = [1, 3, 4]
      ∧ Paged env.uncached (CustomerService.pageOf env.uncached entropy 0 fourCustomers [] none 2)
        rows 2 9 := by
  intro rows
  have hkey : fourCustomers.customer.Keyed (·.id) := ⟨by decide +kernel, by decide +kernel⟩
  exact ⟨by decide +kernel,
    ((pages_export_iff rfl hkey (by decide)).mpr (by decide +kernel)).2.2⟩

open CustomerSample in
/-- The last page that an integer can name, at two rows a page, is a `TypeError` and no empty
page. -/
theorem page_out_of_range :
    let rows := CustomerModel.iterateForExport env.uncached fourCustomers.customer [] none
    (CustomerService.list env.uncached entropy [] none (2 ^ 63 - 1) 2).run env.uncached.exec 0
        fourCustomers = (.error .typeError, fourCustomers)
      ∧ ¬ Paged env.uncached (CustomerService.pageOf env.uncached entropy 0 fourCustomers [] none 2)
        rows 2 (2 ^ 63 - 1) := by
  intro rows
  constructor
  · rw [CustomerService.list_uncached rfl, CustomerService.run_loadList]
    have hlist : CustomerService.listOf env.uncached fourCustomers.customer [] none (2 ^ 63 - 1) 2 =
        .error .typeError := by decide +kernel
    rw [hlist]
    rfl
  · intro hpaged
    obtain ⟨page, hpage, -⟩ := hpaged.answers (2 ^ 63 - 1) (by decide +kernel) (le_max_left _ _)
    rw [pageOf_eq_none rfl (by decide) (by decide +kernel) (by decide +kernel)] at hpage
    cases hpage

end SlimStarter
