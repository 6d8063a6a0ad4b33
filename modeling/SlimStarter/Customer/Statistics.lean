import SlimStarter.Lib.Rely
import SlimStarter.Customer.Pages
import SlimStarter.Customer.Request
import SlimStarter.Customer.Unique

/-!
# Statistics

`stats` counts the customers of each status and, by a query of its own, all of them. The counts add
up because every row has a status of the list (`rowsOf_steps`): the endpoints validate it, and so
does the import, while no other call writes one.
-/

namespace SlimStarter

open CustomerCreateRequest (validate wellFormed)
open CustomerModel (matchesFilters selected sqlEq)
open CacheRedis (configured)

variable {E : CustomerEnv} {P : CustomerData → Prop}

/-- The statement writes data of a kind only. -/
def CustomerStmt.Stores (P : CustomerData → Prop) (op : CustomerStmt) : Prop := ∀ d ∈ op.data, P d

theorem stores_of_unchecked {op : CustomerStmt} (h : op.Unchecked) : op.Stores P := by
  intro d hd
  have hcheck : CustomerStmt.existsByName d.name op.target ∈ op.checks :=
    List.mem_flatMap.mpr ⟨d, hd, by simp [CustomerData.checks]⟩
  rw [h] at hcheck
  simp at hcheck

section Stores

variable {α : Type} {A : α → Prop} {p : CustomerProg α}

theorem only_stores (h : Prog.Only CustomerStmt.Unchecked A p) :
    Prog.Only (CustomerStmt.Stores P) A p := h.imp fun _ => stores_of_unchecked

theorem only_stores_of_plain (h : Prog.Only CustomerStmt.Plain A p) :
    Prog.Only (CustomerStmt.Stores P) A p := only_stores (only_unchecked_of_plain h)

theorem only_create {dto : CustomerData} (h : P dto) :
    Prog.Only (CustomerStmt.Stores P) (fun _ => True) (CustomerService.create E dto) := by
  refine Prog.only_bind.mpr ((only_stores_of_plain (only_assertUnique _ _ _)).mono fun _ _ => ?_)
  refine Prog.only_bind.mpr (Prog.only_stmt.mpr ⟨?_, fun id => only_stores (only_bump_get id)⟩)
  simpa [CustomerStmt.Stores, CustomerStmt.data] using h

theorem only_update {id : ℕ} {payload : CustomerData} (h : P payload) :
    Prog.Only (CustomerStmt.Stores P) (fun _ => True) (CustomerService.update E id payload) := by
  refine Prog.only_bind.mpr (Prog.only_stmt.mpr ⟨stores_of_unchecked rfl, fun found => ?_⟩)
  cases found
  · trivial
  · refine Prog.only_bind.mpr ((only_stores_of_plain (only_assertUnique _ _ _)).mono
      fun _ _ => ?_)
    refine Prog.only_bind.mpr (Prog.only_stmt.mpr ⟨?_, fun _ => only_stores (only_bump_get id)⟩)
    simpa [CustomerStmt.Stores, CustomerStmt.data] using h

end Stores

section Import

open CustomerImportJob

/-- The rows that wait for their insert are of a kind. -/
def BatchOf (P : CustomerData → Prop) (st : ImportState) : Prop := ∀ d ∈ st.batch, P d

variable (hP : ∀ d, rowError E d = none → P d) {st : ImportState}

theorem only_flushIf_batchOf (due : Bool) (h : BatchOf P st) :
    Prog.Only (CustomerStmt.Stores P) (BatchOf P) (flushIf E due st) := by
  cases due
  · exact h
  · refine Prog.only_bind.mpr (Prog.only_bind.mpr fun now => Prog.only_bind.mpr
      (Prog.only_stmt.mpr ⟨fun d hd => ?_, fun _ => fun d hd => absurd hd (by simp)⟩))
    obtain ⟨row, hrow, rfl⟩ := List.mem_map.mp hd
    obtain ⟨parsed, hparsed, rfl⟩ := List.mem_map.mp hrow
    exact h parsed hparsed

variable (chunk : ℕ) (progress : Bool) (total : ℕ)

include hP

theorem only_importRow_batchOf (header : List (Bytes × ℕ)) (h : BatchOf P st)
    (line : Csv.Record) :
    Prog.Only (CustomerStmt.Stores P) (BatchOf P)
      (importRow E chunk progress total header st line) := by
  unfold importRow
  simp only
  split_ifs
  · exact h
  · split
    · exact h
    · next hvalid =>
      refine Prog.only_bind.mpr ((only_stores_of_plain (only_isKnown _)).mono fun known _ => ?_)
      cases known
      · have hrow : P (parseRow line header) := by
          refine hP _ ?_
          unfold validateRow at hvalid
          split at hvalid
          · cases hvalid
          · assumption
        have haccept : BatchOf P (ImportState.accept E
            { st with processed := st.processed + 1 } (parseRow line header)) := by
          intro d hd
          rcases List.mem_append.mp hd with hd | hd
          · exact h d hd
          · exact List.mem_singleton.mp hd ▸ hrow
        refine Prog.only_bind.mpr ((only_flushIf_batchOf _ haccept).mono fun st' hst' => ?_)
        exact Prog.only_bind.mpr ((only_stores_of_plain (only_report _ _ st')).mono
          fun _ _ => hst')
      · exact h

theorem only_importRows_batchOf (header : List (Bytes × ℕ)) (h : BatchOf P st)
    (lines : List Csv.Record) :
    Prog.Only (CustomerStmt.Stores P) (BatchOf P)
      (importRows E chunk progress total header st lines) := by
  induction lines generalizing st with
  | nil => exact h
  | cons line lines ih =>
    exact Prog.only_bind.mpr ((only_importRow_batchOf hP chunk progress total header h line).mono
      fun _ hst => ih hst)

theorem only_stores_process (path : Bytes) :
    Prog.Only (CustomerStmt.Stores P) (fun _ => True) (process E chunk path progress) := by
  refine Prog.only_bind.mpr (Prog.only_map.mpr (Prog.only_stmt.mpr
    ⟨stores_of_unchecked rfl, fun total => ?_⟩))
  refine Prog.only_bind.mpr (Prog.only_stmt.mpr ⟨stores_of_unchecked rfl, fun contents => ?_⟩)
  cases contents with
  | none => trivial
  | some contents =>
    have hinitial : BatchOf P ImportState.initial := fun d hd => by
      simp [ImportState.initial] at hd
    simp only [importRecords]
    split_ifs
    · trivial
    all_goals
      refine Prog.only_bind.mpr ((only_importRows_batchOf hP chunk _ _ _ hinitial _).mono
        fun st hst => ?_)
      refine Prog.only_bind.mpr ((only_flushIf_batchOf _ hst).mono fun st' _ => ?_)
    · exact Prog.only_bind.mpr (Prog.only_stmt.mpr ⟨stores_of_unchecked rfl, fun _ => trivial⟩)
    · trivial

theorem only_stores_handle (file : Bytes) :
    Prog.Only (CustomerStmt.Stores P) (fun _ => True) (handle E file progress) := by
  refine Prog.only_bind.mpr ((only_stores_of_plain (only_isMissing _)).mono fun missing _ => ?_)
  cases missing
  · exact (only_stores_process hP chunkSize progress _).tryFinally
      (only_stores_of_plain (only_removeFile _))
  · trivial

end Import

/-- The data that a call brings along are of a kind. -/
def CustomerCall.Brings (P : CustomerData → Prop) : CustomerCall → Prop
  | create dto => P dto
  | update _ payload => P payload
  | _ => True

instance (c : CustomerCall) [DecidablePred P] : Decidable (c.Brings P) :=
  match c with
  | .create dto => inferInstanceAs (Decidable (P dto))
  | .update _ payload => inferInstanceAs (Decidable (P payload))
  | .list .. | .stats | .get _ | .delete _ | .uploadAvatar .. | .removeAvatar _ | .importJob ..
  | .evict _ => inferInstanceAs (Decidable True)

/-- Every call stores what it brings along, or rows that the import has checked. -/
theorem only_stores_start (hP : ∀ d, CustomerImportJob.rowError E d = none → P d)
    {c : CustomerCall × CustomerEntropy} (hc : c.1.Brings P) :
    Prog.Only (CustomerStmt.Stores P) (fun _ => True) (CustomerPool.start E c) := by
  obtain ⟨c, R⟩ := c
  cases c with
  | create dto => exact Prog.only_map.mpr (only_create hc)
  | update id payload => exact Prog.only_map.mpr (only_update hc)
  | importJob file progress => exact Prog.only_map.mpr (only_stores_handle hP progress file)
  | _ => exact only_stores (unchecked_start (by simp) (by simp) (by simp))

/-! ## The statuses of the rows -/

/-- Every row is of a kind. -/
def CustomerDb.RowsOf (P : CustomerData → Prop) (db : CustomerDb) : Prop :=
  ∀ r ∈ db.customer.rows, P r.toCustomerData

theorem rowsOf_exec {op : CustomerStmt} {i : Int} {db : CustomerDb} (hop : op.Stores P)
    (h : db.RowsOf P) : (E.exec op i db).2.RowsOf P := by
  intro r hr
  cases op with
  | create data =>
    rcases Table.mem_insert.mp hr with hr | rfl
    · exact h r hr
    · exact hop data (by simp [CustomerStmt.data])
  | createMany rows =>
    rcases mem_insert_all hr with hr | ⟨c, hc, heq⟩
    · exact h r hr
    · exact heq ▸ hop _ (List.mem_map_of_mem hc)
  | update id change =>
    rcases Table.mem_update.mp hr with ⟨hr, -⟩ | ⟨r', hr', -, rfl⟩
    · exact h r hr
    · cases change with
      | data d => exact hop d (by simp [CustomerStmt.data])
      | avatarPath path => exact h r' hr'
  | deleteById id =>
    rcases Table.mem_update.mp hr with ⟨hr, -⟩ | ⟨r', hr', -, rfl⟩
    · exact h r hr
    · exact h r' hr'
  | _ => exact h r hr

/-- Every call brings along what the validator of the endpoints accepts. -/
def CustomerPool.Validated (E : CustomerEnv) (_ : CustomerPool) : CustomerAct → Prop
  | .spawn c => c.1.Brings fun d => validate E d = []
  | _ => True

instance (s : CustomerPool) (a : CustomerAct) : Decidable (s.Validated E a) :=
  match a with
  | .spawn c => inferInstanceAs (Decidable (c.1.Brings fun d => validate E d = []))
  | .step _ | .fail .. | .tick _ => inferInstanceAs (Decidable True)

theorem brings_mono {Q : CustomerData → Prop} (hPQ : ∀ d, P d → Q d) {c : CustomerCall}
    (h : c.Brings P) : c.Brings Q := by
  cases c with
  | create dto => exact hPQ _ h
  | update id payload => exact hPQ _ h
  | _ => trivial

/-- Where both validators demand it, every row of a run is of a kind. -/
theorem rowsOf_steps {s s' : CustomerPool} (hrow : ∀ d, wellFormed E d = true → P d)
    (run : Pool.Steps E.exec (CustomerPool.start E) (CustomerPool.Validated E) s s')
    (hs : s.db.RowsOf P) (hidle : s.procs = [] ∧ s.log = []) : s'.db.RowsOf P := by
  have hkept : Pool.Kept (CustomerDb.RowsOf P) (fun _ _ => True)
      (fun _ op => CustomerStmt.Stores P op) s :=
    ⟨hs, by simp [hidle.1], by simp [hidle.2]⟩
  have hstore : ∀ (_ : CustomerCall × CustomerEntropy) (op : CustomerStmt) (now : Int)
      (db : CustomerDb), op.Stores P → db.RowsOf P → (E.exec op now db).2.RowsOf P :=
    fun _ _ _ _ => rowsOf_exec
  refine (hkept.steps (fun _ _ _ _ _ _ => trivial) hstore (fun s c hG => ?_) run).store
  have hbrings : c.1.Brings P := brings_mono
    (fun d hd => hrow d (CustomerCreateRequest.validate_eq_nil_iff.mp hd).1) hG
  have hparsed : ∀ d, CustomerImportJob.rowError E d = none → P d := fun d hd =>
    hrow d (CustomerImportJob.rowError_eq_none_iff.mp hd)
  exact (only_stores_start hparsed hbrings).under.settle s.now

/-! ## Counting -/

theorem sum_ite_eq_countP {κ : Type} (keys : List κ) (p : κ → Bool) :
    (keys.map fun key => if p key then 1 else 0).sum = keys.countP p := by
  induction keys with
  | nil => rfl
  | cons key keys ih => rw [List.map_cons, List.sum_cons, List.countP_cons, ih, Nat.add_comm]

/-- Where each element has one of the keys, the sizes of the classes add up. -/
theorem sum_length_filter {α κ : Type} {keys : List κ} {has : κ → α → Bool} {l : List α}
    (h : ∀ a ∈ l, keys.countP (has · a) = 1) :
    (keys.map fun key => (l.filter (has key)).length).sum = l.length := by
  induction l with
  | nil => simp
  | cons a l ih =>
    have hcons : ∀ key, ((a :: l).filter (has key)).length =
        (if has key a then 1 else 0) + (l.filter (has key)).length := by
      intro key
      rw [List.filter_cons]
      split_ifs
      · rw [List.length_cons, Nat.add_comm]
      · rw [Nat.zero_add]
    have hone : (keys.map fun key => if has key a then 1 else 0).sum = 1 :=
      (sum_ite_eq_countP keys _).trans (h a List.mem_cons_self)
    simp only [hcons, List.sum_map_add, hone, List.length_cons,
      ih fun a ha => h a (List.mem_cons_of_mem _ ha)]
    exact Nat.add_comm _ _

section Counting

variable {t : Table CustomerRow} {status : Bytes}

theorem selected_all : selected E t [] none = t.rows.filter (·.live) := by
  simp [selected, matchesFilters, CustomerModel.matchesKeyword, trim, CustomerRow.live]

theorem selected_status (h : status ≠ []) : selected E t [] (some status) =
    (t.rows.filter (·.live)).filter fun r => sqlEq E r.status status := by
  simp [selected, matchesFilters, CustomerModel.matchesKeyword, trim, CustomerRow.live, h,
    List.filter_filter, Bool.and_comm]

theorem ne_nil_of_mem_all (h : status ∈ CustomerStatus.all) : status ≠ [] := by
  rintro rfl
  exact absurd h (by decide)

theorem loadStats_run (i : Int) (db : CustomerDb) :
    ∃ stats : CustomerStats,
      (CustomerService.loadStats E).run E.exec i db = (.ok (.stats stats), db)
      ∧ stats.total = (selected E db.customer [] none).length
      ∧ stats.byStatus = CustomerStatus.all.map fun status =>
          (status, (selected E db.customer [] (some status)).length) :=
  ⟨_, rfl, rfl, rfl⟩

theorem mem_selected_status {r : CustomerRow} (h : status ≠ []) :
    r ∈ selected E t [] (some status) ↔ r ∈ t.rows ∧ r.live = true ∧ sqlEq E r.status status := by
  rw [selected_status h, List.mem_filter, List.mem_filter, and_assoc]

theorem live_of_mem_selected {r : CustomerRow} {filter : Option Bytes}
    (h : r ∈ selected E t [] filter) : r.live = true := by
  have hr := (List.mem_filter.mp h).2
  rw [Bool.and_eq_true] at hr
  exact hr.1

/-- A row whose status is of the list has one of its statuses in the database too. -/
theorem countP_sqlEq (hweight : (CustomerStatus.all.map E.weight).Nodup)
    (h : CustomerStatus.isValid status = true) :
    CustomerStatus.all.countP (sqlEq E status ·) = 1 := by
  have hmem : status ∈ CustomerStatus.all := by simpa [CustomerStatus.isValid] using h
  have hcount := List.count_eq_one_of_mem hweight (List.mem_map_of_mem hmem)
  rw [List.count, List.countP_map] at hcount
  rw [← hcount]
  refine List.countP_congr fun other _ => ?_
  simp only [sqlEq, Function.comp_apply, beq_iff_eq, decide_eq_true_eq]
  exact eq_comm

end Counting

/-- After any run from an empty table the statistics add up: every live customer is counted under
one status, and no deleted one at all. -/
theorem stats_add_up {db : CustomerDb} {now : Int} {s : CustomerPool}
    (hweight : (CustomerStatus.all.map E.weight).Nodup) (hempty : db.customer.rows = [])
    (run : Pool.Steps E.exec (CustomerPool.start E) (CustomerPool.Validated E)
      (CustomerPool.idle db now) s) :
    let counted := fun status => selected E s.db.customer [] status
    (∀ i, ∃ stats : CustomerStats,
      ((CustomerService.loadStats E).run E.exec i s.db).1 = .ok (.stats stats)
        ∧ (∀ R, configured E = false →
          ((CustomerService.stats E R).run E.exec i s.db).1 = .ok (.stats stats))
        ∧ stats.total = (stats.byStatus.map Prod.snd).sum
        ∧ stats.total = (counted none).length
        ∧ stats.byStatus = CustomerStatus.all.map fun status =>
            (status, (counted (some status)).length))
      ∧ ∀ r ∈ s.db.customer.rows,
        (r.live = true → ∃! status, status ∈ CustomerStatus.all ∧ r ∈ counted (some status))
          ∧ (r.live = false → ∀ status, r ∉ counted status) := by
  intro counted
  have hrows : s.db.RowsOf fun d => CustomerStatus.isValid d.status = true := by
    refine rowsOf_steps (fun d hd => ?_) run
      (by simp [CustomerDb.RowsOf, CustomerPool.idle, hempty]) ⟨rfl, rfl⟩
    simp only [wellFormed, Bool.and_eq_true] at hd
    exact hd.1.2
  refine ⟨fun i => ?_, fun r hr => ⟨fun hlive => ?_, fun hdead status hmem => ?_⟩⟩
  · obtain ⟨stats, hrun, htotal, hbyStatus⟩ := @loadStats_run E i s.db
    refine ⟨stats, by rw [hrun], fun R hcache => ?_, ?_, htotal, hbyStatus⟩
    · rw [CustomerService.stats_uncached hcache, hrun]
    · have hsum := @sum_length_filter _ _ CustomerStatus.all
        (fun status r => sqlEq E r.status status) (s.db.customer.rows.filter (·.live))
        fun r hr => countP_sqlEq hweight (hrows r (List.mem_filter.mp hr).1)
      rw [htotal, selected_all, ← hsum, hbyStatus, List.map_map]
      refine congrArg List.sum (List.map_congr_left fun status hstatus => ?_)
      rw [Function.comp_apply, selected_status (ne_nil_of_mem_all hstatus)]
  · have hmem : r.status ∈ CustomerStatus.all := by simpa [CustomerStatus.isValid] using hrows r hr
    refine ⟨r.status, ⟨hmem, ?_⟩, fun status h => ?_⟩
    · exact (mem_selected_status (ne_nil_of_mem_all hmem)).mpr ⟨hr, hlive, by simp [sqlEq]⟩
    · have heq := ((mem_selected_status (ne_nil_of_mem_all h.1)).mp h.2).2.2
      refine (List.inj_on_of_nodup_map hweight hmem h.1 ?_).symm
      simpa [sqlEq] using heq
  · rw [live_of_mem_selected hmem] at hdead
    cases hdead

open CustomerSample in
theorem stats_add_up_sample :
    ∃ s : CustomerPool, s.db.customer.rows.length = 2 ∧ ∃ stats : CustomerStats,
      ((CustomerService.loadStats env).run env.exec 1000 s.db).1 = .ok (.stats stats)
        ∧ stats.total = (stats.byStatus.map Prod.snd).sum := by
  have h : ∃ s ∈ Pool.acts env.exec (CustomerPool.start env) (CustomerPool.Validated env)
      (together (ascii "Ada") (ascii "Bob")) (CustomerPool.idle db 1000),
      s.db.customer.rows.length = 2 := by
    decide +kernel
  obtain ⟨s, hs, hrows⟩ := h
  obtain ⟨stats, hrun, -, hsum, -⟩ :=
    (stats_add_up (by decide) rfl (Pool.steps_of_acts hs)).1 1000
  exact ⟨s, hrows, stats, hrun, hsum⟩

end SlimStarter
