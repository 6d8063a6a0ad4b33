import SlimStarter.Customer.Phases

/-!
# Unique names and emails

Names and emails are kept unique by checks that come before the write. What a negative check says
goes out of date only by a later write (`Seen`), so a write is safe where no equal value has been
committed since the check of its call and still stands (`Unraced`): then the live rows stay apart
(`live_rows_apart`).
-/

namespace SlimStarter

open CustomerModel (sqlEq taken)

variable {E : CustomerEnv}

/-- The database tells the two by their names, and by their emails where both have one. -/
def CustomerData.Apart (E : CustomerEnv) (a b : CustomerData) : Prop :=
  sqlEq E a.name b.name = false ∧ ∀ e ∈ a.email, ∀ e' ∈ b.email, sqlEq E e e' = false

instance (a b : CustomerData) : Decidable (a.Apart E b) := by
  unfold CustomerData.Apart
  infer_instance

theorem CustomerData.Apart.symm {a b : CustomerData} (h : a.Apart E b) : b.Apart E a := by
  have hcomm : ∀ x y, sqlEq E x y = sqlEq E y x := fun x y => by simp [sqlEq, eq_comm]
  exact ⟨hcomm _ _ ▸ h.1, fun e he e' he' => hcomm _ _ ▸ h.2 e' he' e he⟩

def CustomerRow.live (r : CustomerRow) : Bool := r.deletedAt.isNone

/-- The live rows have pairwise distinct names and pairwise distinct emails. -/
def CustomerDb.Apart (E : CustomerEnv) (db : CustomerDb) : Prop :=
  (db.customer.rows.filter (·.live)).Pairwise fun r r' => r.toCustomerData.Apart E r'.toCustomerData

instance (db : CustomerDb) : Decidable (db.Apart E) := by
  unfold CustomerDb.Apart
  infer_instance

/-- The checks of `assertUnique` and of the import for this data. -/
def CustomerData.checks (d : CustomerData) (exceptId : Option ℕ) : List CustomerStmt :=
  .existsByName d.name exceptId :: d.email.toList.map (.existsByEmail · exceptId)

namespace CustomerStmt

/-- The check finds this row. -/
def finds (E : CustomerEnv) (r : CustomerRow) : CustomerStmt → Bool
  | existsByName name exceptId => taken E (fun r => some r.name) name exceptId r
  | existsByEmail email exceptId => taken E (·.email) email exceptId r
  | _ => false

/-- The check is answered, and it has found no row. -/
def foundNone : (op : CustomerStmt) → Except Failure op.Res → Bool
  | existsByName .., .ok found => !found
  | existsByEmail .., .ok found => !found
  | _, _ => false

/-- The data the statement writes. -/
def data : CustomerStmt → List CustomerData
  | create d => [d]
  | createMany rows => rows.map (·.toCustomerData)
  | update _ (.data d) => [d]
  | _ => []

/-- The row the statement writes to, where it is not a new one. -/
def target : CustomerStmt → Option ℕ
  | update id _ => some id
  | _ => none

/-- The checks that must come before the statement. -/
def checks (op : CustomerStmt) : List CustomerStmt := op.data.flatMap (·.checks op.target)

/-- The row the statement writes to is live, where it is not a new one. -/
def Effective (db : CustomerDb) (op : CustomerStmt) : Prop :=
  ∀ id ∈ op.target, ∃ r ∈ db.customer.rows, r.id = id ∧ r.live = true

instance (db : CustomerDb) (op : CustomerStmt) : Decidable (op.Effective db) := by
  unfold Effective
  infer_instance

end CustomerStmt

theorem apart_of_not_finds {d : CustomerData} {exceptId : Option ℕ} {r : CustomerRow}
    (h : ∀ c ∈ d.checks exceptId, c.finds E r = false) (hlive : r.live = true)
    (hid : ∀ id ∈ exceptId, r.id ≠ id) : r.toCustomerData.Apart E d := by
  have htaken : ∀ (column : CustomerRow → Option Bytes) (value : Bytes),
      taken E column value exceptId r = (column r).any (sqlEq E · value) := by
    intro column value
    have hlive' : r.deletedAt.isNone = true := hlive
    have hid' : exceptId.all (r.id ≠ ·) = true := by
      cases exceptId with
      | none => rfl
      | some id => simpa using hid id rfl
    unfold taken
    rw [hlive', hid', Bool.and_true, Bool.and_true]
  constructor
  · have hname := h (.existsByName d.name exceptId) (by simp [CustomerData.checks])
    rw [CustomerStmt.finds, htaken] at hname
    exact hname
  · intro e he e' he'
    have hemail := h (.existsByEmail e' exceptId) (by simpa [CustomerData.checks] using he')
    rw [CustomerStmt.finds, htaken, Option.mem_def.mp he] at hemail
    exact hemail

section Exec

variable {t : Table CustomerRow} {now : Int} {db : CustomerDb}

theorem apart_iff : db.Apart E ↔ db.customer.rows.Pairwise fun r r' =>
    r.live = true → r'.live = true → r.toCustomerData.Apart E r'.toCustomerData :=
  List.pairwise_filter

/-- What inserting one row after the other needs and gives. -/
theorem insert_all_apart {rows : List NewCustomer} :
    ∀ {t : Table CustomerRow},
      (t.rows.Pairwise fun r r' => r.live = true → r'.live = true →
        r.toCustomerData.Apart E r'.toCustomerData) →
      (rows.Pairwise fun c c' => c.toCustomerData.Apart E c'.toCustomerData) →
      (∀ c ∈ rows, ∀ r ∈ t.rows, r.live = true → r.toCustomerData.Apart E c.toCustomerData) →
      (rows.foldl (fun t c => t.insert (NewCustomer.row c)) t).rows.Pairwise fun r r' =>
        r.live = true → r'.live = true → r.toCustomerData.Apart E r'.toCustomerData := by
  induction rows with
  | nil => exact fun ht _ _ => ht
  | cons c rows ih =>
    intro t ht hrows hfree
    obtain ⟨hc, hrows⟩ := List.pairwise_cons.mp hrows
    refine ih (List.pairwise_append.mpr ⟨ht, List.pairwise_singleton _ _, ?_⟩) hrows ?_
    · intro r hr r' hr' hlive _
      rw [List.mem_singleton.mp hr']
      exact hfree c List.mem_cons_self r hr hlive
    · intro c' hc' r hr hlive
      rcases Table.mem_insert.mp hr with hr | rfl
      · exact hfree c' (List.mem_cons_of_mem _ hc') r hr hlive
      · exact hc c' hc'

theorem insert_all_keyed {rows : List NewCustomer} :
    ∀ {t : Table CustomerRow}, t.Keyed (·.id) →
      (rows.foldl (fun t c => t.insert (NewCustomer.row c)) t).Keyed (·.id) := by
  induction rows with
  | nil => exact fun ht => ht
  | cons c rows ih => exact fun ht => ih (ht.insert fun _ => rfl)

theorem mem_insert_all {rows : List NewCustomer} {r : CustomerRow} :
    ∀ {t : Table CustomerRow}, r ∈ (rows.foldl (fun t c => t.insert (NewCustomer.row c)) t).rows →
      r ∈ t.rows ∨ ∃ c ∈ rows, r.toCustomerData = c.toCustomerData := by
  induction rows with
  | nil => exact fun h => .inl h
  | cons c rows ih =>
    intro t h
    rcases ih h with h | ⟨c', hc', heq⟩
    · rcases Table.mem_insert.mp h with h | rfl
      · exact .inl h
      · exact .inr ⟨c, List.mem_cons_self, rfl⟩
    · exact .inr ⟨c', List.mem_cons_of_mem _ hc', heq⟩

theorem exec_keyed (h : db.customer.Keyed (·.id)) (op : CustomerStmt) :
    (E.exec op now db).2.customer.Keyed (·.id) := by
  cases op with
  | create data => exact h.insert fun _ => rfl
  | createMany rows => exact insert_all_keyed h
  | update id change => exact h.update fun r => by cases change <;> rfl
  | deleteById id => exact h.update fun _ => rfl
  | _ => exact h

/-- Where its checks find no row, a statement keeps the live rows apart. -/
theorem exec_apart (h : db.Apart E) (hkeyed : db.customer.Keyed (·.id)) {op : CustomerStmt}
    (hdata : op.data.Pairwise (CustomerData.Apart E))
    (hfree : op.Effective db → ∀ c ∈ op.checks, ∀ r ∈ db.customer.rows, c.finds E r = false) :
    (E.exec op now db).2.Apart E := by
  rw [apart_iff] at h ⊢
  have hnew : op.Effective db → ∀ d ∈ op.data, ∀ r ∈ db.customer.rows, r.live = true →
      (∀ id ∈ op.target, r.id ≠ id) → r.toCustomerData.Apart E d := by
    intro heff d hd r hr hlive hid
    refine apart_of_not_finds (fun c hc => hfree heff c ?_ r hr) hlive hid
    exact List.mem_flatMap.mpr ⟨d, hd, hc⟩
  cases op with
  | create data =>
    refine List.pairwise_append.mpr ⟨h, List.pairwise_singleton _ _, fun r hr r' hr' hlive _ => ?_⟩
    rw [List.mem_singleton.mp hr']
    exact hnew (by simp [CustomerStmt.Effective, CustomerStmt.target]) data
      (by simp [CustomerStmt.data]) r hr hlive (by simp [CustomerStmt.target])
  | createMany rows =>
    refine insert_all_apart h (List.pairwise_map.mp hdata) fun c hc r hr hlive => ?_
    exact hnew (by simp [CustomerStmt.Effective, CustomerStmt.target]) _ (List.mem_map_of_mem hc) r
      hr hlive (by simp [CustomerStmt.target])
  | update id change =>
    refine List.pairwise_map.mpr ((h.and hkeyed.distinct).imp_of_mem ?_)
    rintro r r' hr hr' ⟨happart, hne⟩ hlive hlive'
    cases change with
    | avatarPath path =>
      have hold : r.live = true → r'.live = true →
          r.toCustomerData.Apart E r'.toCustomerData := happart
      split_ifs at hlive hlive' ⊢ <;> exact hold hlive hlive'
    | data d =>
      -- The target is one of the two rows, and it was live.
      have hd : ∀ r₀ ∈ db.customer.rows, r₀.id = id → r₀.live = true →
          ∀ r ∈ db.customer.rows, r.live = true → r.id ≠ id → r.toCustomerData.Apart E d := by
        intro r₀ hr₀ hid₀ hlive₀ r hr hlive hid
        refine hnew ?_ d (by simp [CustomerStmt.data]) r hr hlive (by
          simpa [CustomerStmt.target] using hid)
        intro id' hid'
        obtain rfl : id = id' := by simpa [CustomerStmt.target] using hid'
        exact ⟨r₀, hr₀, hid₀, hlive₀⟩
      by_cases hid : r.id = id <;> by_cases hid' : r'.id = id
      · exact absurd (hid.trans hid'.symm) hne
      · simp only [hid, hid', decide_true, decide_false, if_true, Bool.false_eq_true, if_false]
          at hlive hlive' ⊢
        exact (hd r hr hid hlive r' hr' hlive' hid').symm
      · simp only [hid, hid', decide_true, decide_false, if_true, Bool.false_eq_true, if_false]
          at hlive hlive' ⊢
        exact hd r' hr' hid' hlive' r hr hlive hid
      · simp only [hid, hid', decide_false, Bool.false_eq_true, if_false] at hlive hlive' ⊢
        exact happart hlive hlive'
  | deleteById id =>
    refine List.pairwise_map.mpr (h.imp fun {r r'} happart hlive hlive' => ?_)
    split_ifs at hlive hlive' ⊢
    · simp [CustomerRow.live] at hlive
    · simp [CustomerRow.live] at hlive
    · simp [CustomerRow.live] at hlive'
    · exact happart hlive hlive'
  | _ => exact h

theorem CustomerStmt.finds_congr {c : CustomerStmt} {r r' : CustomerRow}
    (hdata : r.toCustomerData = r'.toCustomerData) (hid : r.id = r'.id)
    (hlive : r.deletedAt = r'.deletedAt) : c.finds E r = c.finds E r' := by
  have hname : r.name = r'.name := congrArg CustomerData.name hdata
  have hemail : r.email = r'.email := congrArg CustomerData.email hdata
  cases c <;> simp only [CustomerStmt.finds, taken, hname, hemail, hid, hlive]

theorem CustomerStmt.not_finds_deleted {c : CustomerStmt} {r : CustomerRow}
    (h : r.deletedAt.isSome = true) : c.finds E r = false := by
  have hdead : r.deletedAt.isNone = false := by simpa using h
  cases c <;> simp [CustomerStmt.finds, taken, hdead]

/-- What a check finds after a statement, it found before, or the statement has written it. -/
theorem exec_finds {op c : CustomerStmt} {r : CustomerRow}
    (hr : r ∈ (E.exec op now db).2.customer.rows) (hc : c.finds E r = true) :
    r.toCustomerData ∈ op.data ∨ ∃ r' ∈ db.customer.rows, r'.toCustomerData = r.toCustomerData
      ∧ c.finds E r' = true := by
  cases op with
  | create data =>
    rcases Table.mem_insert.mp hr with hr | rfl
    · exact .inr ⟨r, hr, rfl, hc⟩
    · exact .inl (by simp [CustomerStmt.data, NewCustomer.row])
  | createMany rows =>
    rcases mem_insert_all hr with hr | ⟨d, hd, heq⟩
    · exact .inr ⟨r, hr, rfl, hc⟩
    · exact .inl (heq ▸ List.mem_map_of_mem hd)
  | update id change =>
    rcases Table.mem_update.mp hr with ⟨hr, -⟩ | ⟨r', hr', -, rfl⟩
    · exact .inr ⟨r, hr, rfl, hc⟩
    · cases change with
      | data d => exact .inl (by simp [CustomerStmt.data, CustomerChange.apply])
      | avatarPath path =>
        refine .inr ⟨r', hr', rfl, ?_⟩
        rw [← hc]
        exact CustomerStmt.finds_congr rfl rfl rfl
  | deleteById id =>
    rcases Table.mem_update.mp hr with ⟨hr, -⟩ | ⟨r', hr', -, rfl⟩
    · exact .inr ⟨r, hr, rfl, hc⟩
    · rw [CustomerStmt.not_finds_deleted rfl] at hc
      cases hc
  | _ => exact .inr ⟨r, hr, rfl, hc⟩

/-- A check that has found no row has left the table as it was, and no row is to be found. -/
theorem exec_foundNone {op : CustomerStmt} (h : op.foundNone (E.exec op now db).1 = true) :
    ∀ r ∈ (E.exec op now db).2.customer.rows, op.finds E r = false := by
  have hcount : ∀ p : CustomerRow → Bool, (!decide (0 < db.customer.affected p)) = true →
      ∀ r ∈ db.customer.rows, p r = false := by
    intro p hp
    exact Table.not_affected_pos.mp (by simpa using hp)
  cases op with
  | existsByName name exceptId => exact hcount _ h
  | existsByEmail email exceptId => exact hcount _ h
  | _ => simp [CustomerStmt.foundNone] at h

end Exec

/-- The phase is the list of the checks of the call that have found no row; a write is allowed after
its checks. -/
def checkMonitor : Monitor CustomerStmt CustomerStmt.Res Failure (List CustomerStmt) where
  next φ op r := if op.foundNone r then op :: φ else φ
  allowed φ op := ∀ c ∈ op.checks, c ∈ φ

theorem mem_checkMonitor_phase {i : ℕ} {c : CustomerStmt} {log : List CustomerEvent}
    (h : c ∈ checkMonitor.phase [] i log) :
    ∃ d ∈ log, d.pid = i ∧ d.op = c ∧ d.op.foundNone d.reply = true := by
  induction log with
  | nil => simp at h
  | cons e log ih =>
    have hrest : c ∈ checkMonitor.phase [] i log →
        ∃ d ∈ e :: log, d.pid = i ∧ d.op = c ∧ d.op.foundNone d.reply = true := by
      intro h
      obtain ⟨d, hd, hrest⟩ := ih h
      exact ⟨d, List.mem_cons_of_mem _ hd, hrest⟩
    by_cases hi : e.pid = i
    · rw [Monitor.phase_cons_self hi] at h
      by_cases hfound : e.op.foundNone e.reply = true
      · rw [show checkMonitor.next (checkMonitor.phase [] i log) e.op e.reply = e.op :: _ from
          if_pos hfound] at h
        rcases List.mem_cons.mp h with rfl | h
        · exact ⟨e, List.mem_cons_self, hi, rfl, hfound⟩
        · exact hrest h
      · rw [show checkMonitor.next (checkMonitor.phase [] i log) e.op e.reply = _ from
          if_neg hfound] at h
        exact hrest h
    · rw [Monitor.phase_cons_of_ne hi] at h
      exact hrest h

section Programs

variable {α : Type} {φ : List CustomerStmt}

/-- The statement needs no check before it. -/
abbrev CustomerStmt.Unchecked (op : CustomerStmt) : Prop := op.checks = []

theorem keeps_unchecked {A : α → Prop} {p : CustomerProg α}
    (h : Prog.Only CustomerStmt.Unchecked A p) :
    checkMonitor.Keeps (fun _ a => A a) (fun _ _ => True) φ p :=
  Monitor.Keeps.of_allowed (m := checkMonitor) (fun _ _ hop => by simp [checkMonitor, hop]) h

theorem unchecked_of_plain {op : CustomerStmt} (h : op.Plain) : op.Unchecked := by
  cases op with
  | create data => simp [CustomerStmt.Plain, CustomerStmt.writes] at h
  | createMany rows => simp [CustomerStmt.Plain, CustomerStmt.writes] at h
  | update id change => simp [CustomerStmt.Plain, CustomerStmt.writes] at h
  | _ => rfl

theorem only_unchecked_of_plain {A : α → Prop} {p : CustomerProg α}
    (h : Prog.Only CustomerStmt.Plain A p) : Prog.Only CustomerStmt.Unchecked A p :=
  h.imp fun _ => unchecked_of_plain

theorem unchecked_of_reads {op : CustomerStmt} (h : op.reads = true) : op.Unchecked := by
  cases op <;> first | rfl | simp [CustomerStmt.reads] at h

theorem keeps_stmt_unchecked {op : CustomerStmt} (hop : op.Unchecked)
    {Q : List CustomerStmt → op.Res → Prop} (h : ∀ a, Q (checkMonitor.next φ op (.ok a)) a) :
    checkMonitor.Keeps Q (fun _ _ => True) φ (issue op) :=
  Monitor.keeps_stmt.mpr ⟨by simp [checkMonitor, hop], fun _ => trivial, h⟩

theorem subset_next (op : CustomerStmt) (r : Except Failure op.Res) :
    φ ⊆ checkMonitor.next φ op r := by
  intro c hc
  unfold checkMonitor
  simp only
  split_ifs
  · exact List.mem_cons_of_mem _ hc
  · exact hc

theorem keeps_assertUnique (d : CustomerData) (exceptId : Option ℕ) :
    checkMonitor.Keeps (fun ψ _ => ∀ c ∈ d.checks exceptId, c ∈ ψ) (fun _ _ => True) φ
      (CustomerService.assertUnique d.name d.email exceptId) := by
  refine Monitor.keeps_bind.mpr (keeps_stmt_unchecked rfl fun nameTaken => ?_)
  have hend : ∀ emailTaken (ψ : List CustomerStmt),
      (nameTaken = false → emailTaken = false → ∀ c ∈ d.checks exceptId, c ∈ ψ) →
      checkMonitor.Keeps (fun ψ _ => ∀ c ∈ d.checks exceptId, c ∈ ψ) (fun _ _ => True) ψ
        (if CustomerService.uniqueErrors nameTaken emailTaken = [] then pure () else
          .throw (.validation "Validation failed."
            (CustomerService.uniqueErrors nameTaken emailTaken)) : CustomerProg Unit) := by
    intro emailTaken ψ hψ
    split_ifs with hnone
    · refine hψ ?_ ?_ <;> cases nameTaken <;> cases emailTaken <;>
        simp_all [CustomerService.uniqueErrors]
    · trivial
  cases hmail : d.email with
  | none =>
    refine hend false _ fun hn _ c hc => ?_
    simp only [CustomerData.checks, hmail, Option.toList_none, List.map_nil,
      List.mem_singleton] at hc
    simp [hc, hn, checkMonitor, CustomerStmt.foundNone]
  | some email =>
    refine Monitor.keeps_bind.mpr (keeps_stmt_unchecked rfl fun emailTaken =>
      hend emailTaken _ fun hn he c hc => ?_)
    simp only [CustomerData.checks, hmail, Option.toList_some, List.map_cons, List.map_nil,
      List.mem_cons, List.not_mem_nil, or_false] at hc
    rcases hc with rfl | rfl
    · simp [hn, he, checkMonitor, CustomerStmt.foundNone]
    · simp [he, checkMonitor, CustomerStmt.foundNone]

/-- After its checks a statement is allowed; what follows it needs none. -/
theorem keeps_checked {op : CustomerStmt} {rest : op.Res → CustomerProg α}
    (hop : ∀ c ∈ op.checks, c ∈ φ)
    (hrest : ∀ r, Prog.Only CustomerStmt.Unchecked (fun _ => True) (rest r)) :
    checkMonitor.Safe (fun _ => True) φ (issue op >>= rest) :=
  Monitor.keeps_bind.mpr (Monitor.keeps_stmt.mpr
    ⟨hop, fun _ => trivial, fun r => keeps_unchecked (hrest r)⟩)

theorem only_bump : Prog.Only CustomerStmt.Unchecked (fun _ => True) (CustomerService.bump E) := by
  rw [bump_eq]
  split_ifs
  · exact ⟨rfl, fun _ => trivial⟩
  · trivial

theorem only_bump_get (id : ℕ) : Prog.Only CustomerStmt.Unchecked (fun _ => True) (do
    CustomerService.bump E
    CustomerService.get E id) :=
  Prog.only_bind.mpr
    (only_bump.mono fun _ _ => (only_serviceGet id).imp fun _ => unchecked_of_plain)

theorem checked_create (dto : CustomerData) :
    checkMonitor.Safe (fun _ => True) φ (CustomerService.create E dto) := by
  refine Monitor.keeps_bind.mpr ((keeps_assertUnique dto none).mono (fun ψ _ hψ => ?_)
    fun _ _ _ => trivial)
  refine keeps_checked ?_ fun id => only_bump_get id
  simpa [CustomerStmt.checks, CustomerStmt.data, CustomerStmt.target] using hψ

theorem checked_update (id : ℕ) (payload : CustomerData) :
    checkMonitor.Safe (fun _ => True) φ (CustomerService.update E id payload) := by
  refine Monitor.keeps_bind.mpr (keeps_stmt_unchecked rfl fun found => ?_)
  cases found
  · trivial
  · refine Monitor.keeps_bind.mpr ((keeps_assertUnique payload (some id)).mono (fun ψ _ hψ => ?_)
      fun _ _ _ => trivial)
    refine keeps_checked ?_ fun _ => only_bump_get id
    simpa [CustomerStmt.checks, CustomerStmt.data, CustomerStmt.target] using hψ

end Programs

section Import

open CustomerImportJob

variable {φ : List CustomerStmt}

/-- The checks for every row of the batch have found no row. -/
def CheckedBatch (φ : List CustomerStmt) (st : ImportState) : Prop :=
  ∀ d ∈ st.batch, ∀ c ∈ d.checks none, c ∈ φ

theorem keeps_isKnown (parsed : CustomerData) :
    checkMonitor.Keeps (fun ψ known => φ ⊆ ψ ∧ (known = false → ∀ c ∈ parsed.checks none, c ∈ ψ))
      (fun _ _ => True) φ (isKnown parsed) := by
  refine Monitor.keeps_bind.mpr (keeps_stmt_unchecked rfl fun byName => ?_)
  cases byName
  · simp only [Bool.false_eq_true, if_false]
    cases hmail : parsed.email with
    | none =>
      refine ⟨subset_next _ _, fun _ c hc => ?_⟩
      simp only [CustomerData.checks, hmail, Option.toList_none, List.map_nil,
        List.mem_singleton] at hc
      simp [hc, checkMonitor, CustomerStmt.foundNone]
    | some email =>
      refine keeps_stmt_unchecked rfl fun byEmail =>
        ⟨fun c hc => subset_next _ _ (subset_next _ _ hc), fun hknown c hc => ?_⟩
      simp only [CustomerData.checks, hmail, Option.toList_some, List.map_cons, List.map_nil,
        List.mem_cons, List.not_mem_nil, or_false] at hc
      rcases hc with rfl | rfl
      · simp [hknown, checkMonitor, CustomerStmt.foundNone]
      · simp [hknown, checkMonitor, CustomerStmt.foundNone]
  · exact ⟨subset_next _ _, by simp⟩

theorem keeps_flushIf (due : Bool) {st : ImportState} (h : CheckedBatch φ st) :
    checkMonitor.Keeps CheckedBatch (fun _ _ => True) φ (flushIf E due st) := by
  cases due
  · exact h
  · refine Monitor.keeps_bind.mpr (Monitor.keeps_bind.mpr fun now => Monitor.keeps_bind.mpr
      (Monitor.keeps_stmt.mpr ⟨?_, fun _ => trivial, fun _ => ?_⟩))
    · intro c hc
      obtain ⟨d, hd, hc⟩ := List.mem_flatMap.mp hc
      obtain ⟨row, hrow, rfl⟩ := List.mem_map.mp hd
      obtain ⟨parsed, hparsed, rfl⟩ := List.mem_map.mp hrow
      exact h parsed hparsed c hc
    · exact fun d hd => absurd hd (by simp)

variable (chunk : ℕ) (progress : Bool) (total : ℕ)

theorem keeps_report {st : ImportState} (h : CheckedBatch φ st) :
    checkMonitor.Keeps (fun ψ _ => CheckedBatch ψ st) (fun _ _ => True) φ
      (report progress total st) := by
  unfold report
  split
  · exact keeps_stmt_unchecked rfl fun _ d hd c hc => subset_next _ _ (h d hd c hc)
  · exact h

theorem keeps_importRow (header : List (Bytes × ℕ)) {st : ImportState} (h : CheckedBatch φ st)
    (line : Csv.Record) :
    checkMonitor.Keeps CheckedBatch (fun _ _ => True) φ
      (importRow E chunk progress total header st line) := by
  unfold importRow
  simp only
  split_ifs
  · exact h
  · split
    · exact h
    · refine Monitor.keeps_bind.mpr ((keeps_isKnown (parseRow line header)).mono ?_
        fun _ _ _ => trivial)
      rintro ψ known ⟨hsub, hchecks⟩
      cases known
      · simp only [Bool.false_eq_true, if_false]
        have haccept : CheckedBatch ψ (ImportState.accept E
            { st with processed := st.processed + 1 } (parseRow line header)) := by
          intro d hd c hc
          rcases List.mem_append.mp hd with hd | hd
          · exact hsub (h d hd c hc)
          · rw [List.mem_singleton.mp hd] at hc
            exact hchecks rfl c hc
        refine Monitor.keeps_bind.mpr ((keeps_flushIf _ haccept).mono ?_ fun _ _ _ => trivial)
        intro χ st' hst'
        exact Monitor.keeps_bind.mpr (keeps_report progress total hst')
      · exact fun d hd c hc => hsub (h d hd c hc)

theorem keeps_importRows (header : List (Bytes × ℕ)) {st : ImportState} (h : CheckedBatch φ st)
    (lines : List Csv.Record) :
    checkMonitor.Keeps CheckedBatch (fun _ _ => True) φ
      (importRows E chunk progress total header st lines) := by
  induction lines generalizing st φ with
  | nil => exact h
  | cons line lines ih =>
    exact Monitor.keeps_bind.mpr ((keeps_importRow chunk progress total header h line).mono
      (fun _ _ hst => ih hst) fun _ _ _ => trivial)

theorem keeps_process (path : Bytes) :
    checkMonitor.Safe (fun _ => True) φ (process E chunk path progress) := by
  refine Monitor.keeps_bind.mpr (Monitor.keeps_map.mpr (keeps_stmt_unchecked rfl fun total => ?_))
  refine Monitor.keeps_bind.mpr (keeps_stmt_unchecked rfl fun contents => ?_)
  cases contents with
  | none => trivial
  | some contents =>
    have hinitial : ∀ ψ, CheckedBatch ψ ImportState.initial := fun ψ d hd => by
      simp [ImportState.initial] at hd
    simp only [importRecords]
    split_ifs
    · trivial
    all_goals
      refine Monitor.keeps_bind.mpr ((keeps_importRows chunk _ _ _ (hinitial _) _).mono
        (fun ψ st hst => ?_) fun _ _ _ => trivial)
      refine Monitor.keeps_bind.mpr ((keeps_flushIf _ hst).mono (fun χ st' _ => ?_)
        fun _ _ _ => trivial)
    · exact Monitor.keeps_bind.mpr (keeps_stmt_unchecked rfl fun _ => trivial)
    · trivial

theorem checked_handle (file : Bytes) :
    checkMonitor.Safe (fun _ => True) φ (handle E file progress) := by
  refine Monitor.keeps_bind.mpr ((keeps_unchecked (only_unchecked_of_plain (only_isMissing _))).mono
    (fun ψ missing _ => ?_) fun _ _ _ => trivial)
  have hremove : ∀ (χ : List CustomerStmt) (path : Bytes),
      checkMonitor.Keeps (fun _ _ => True) (fun _ _ => True) χ (removeFile path) := fun χ path =>
    keeps_unchecked (only_unchecked_of_plain (only_removeFile path))
  cases missing
  · exact Monitor.keeps_tryFinally.mpr ((keeps_process chunkSize progress _).mono
      (fun χ _ _ => hremove χ _) fun χ _ _ => hremove χ _)
  · trivial

end Import

/-! ## Every call -/

section Calls

variable {R : CustomerEntropy} {φ : List CustomerStmt}

theorem unchecked_of_onRedis {op : CustomerStmt} (h : op.onRedis = true) : op.Unchecked := by
  cases op <;> first | rfl | cases h

/-- A write of no data, the removal of a file, the increment and the read of the row. -/
theorem unchecked_commit {α : Type} {op : CustomerStmt} (hop : op.Unchecked)
    (path : Option Bytes) {rest : CustomerProg α}
    (hrest : Prog.Only CustomerStmt.Unchecked (fun _ => True) rest) :
    Prog.Only CustomerStmt.Unchecked (fun _ => True) (do
      let _ ← issue op
      CustomerService.dropAvatar E path
      CustomerService.bump E
      rest) :=
  Prog.only_bind.mpr (Prog.only_stmt.mpr ⟨hop, fun _ => Prog.only_bind.mpr
    ((only_unchecked_of_plain (only_dropAvatar path)).mono fun _ _ =>
      Prog.only_bind.mpr (only_bump.mono fun _ _ => hrest))⟩)

/-- The row that a writer looks for is there, or the writer throws. -/
theorem unchecked_found {α : Type} {id : ℕ} {e : Failure} {f : CustomerRow → CustomerProg α}
    (hf : ∀ customer, Prog.Only CustomerStmt.Unchecked (fun _ => True) (f customer)) :
    Prog.Only CustomerStmt.Unchecked (fun _ => True) (do
      let customer ← issue (.findById id)
      match customer with
      | none => .throw e
      | some customer => f customer) := by
  refine Prog.only_bind.mpr (Prog.only_stmt.mpr ⟨rfl, fun customer => ?_⟩)
  cases customer with
  | none => trivial
  | some customer => exact hf customer

theorem unchecked_delete (id : ℕ) :
    Prog.Only CustomerStmt.Unchecked (fun _ => True) (CustomerService.delete E id) := by
  refine unchecked_found fun customer => ?_
  have h := @unchecked_commit E _ (.deleteById id) rfl (CustomerService.avatarPath customer)
    (.ret ()) trivial
  simpa only [show (CustomerService.bump E >>= fun _ => .ret ()) = CustomerService.bump E from
    bind_pure _] using h

theorem unchecked_uploadAvatar (id : ℕ) (file : UploadedFile) :
    Prog.Only CustomerStmt.Unchecked (fun _ => True)
      (CustomerService.uploadAvatar E R id file) := by
  refine unchecked_found fun customer => ?_
  split
  · trivial
  · refine Prog.only_bind.mpr ((only_unchecked_of_plain (only_moveUploadedFile R file _)).mono
      fun path _ => ?_)
    cases path with
    | none => trivial
    | some path =>
      exact unchecked_commit rfl _ (only_unchecked_of_plain (only_serviceGet id))

theorem unchecked_removeAvatar (id : ℕ) :
    Prog.Only CustomerStmt.Unchecked (fun _ => True) (CustomerService.removeAvatar E id) :=
  unchecked_found fun _ => unchecked_commit rfl _ (only_unchecked_of_plain (only_serviceGet id))

/-- The calls other than a create, an update and an import check nothing and write nothing that is
checked. -/
theorem unchecked_start {c : CustomerCall × CustomerEntropy} (hcreate : ∀ dto, c.1 ≠ .create dto)
    (hupdate : ∀ id payload, c.1 ≠ .update id payload)
    (himport : ∀ file progress, c.1 ≠ .importJob file progress) :
    Prog.Only CustomerStmt.Unchecked (fun _ => True) (CustomerPool.start E c) := by
  obtain ⟨c, R⟩ := c
  cases c with
  | list keywords status page limit =>
    exact Prog.only_map.mpr (only_cached (fun _ => unchecked_of_onRedis)
      ((only_loadList keywords status page limit).imp fun _ => unchecked_of_reads))
  | stats =>
    exact Prog.only_map.mpr (only_cached (fun _ => unchecked_of_onRedis)
      (only_loadStats.imp fun _ => unchecked_of_reads))
  | get id => exact Prog.only_map.mpr (only_unchecked_of_plain (only_serviceGet id))
  | create dto => exact absurd rfl (hcreate dto)
  | update id payload => exact absurd rfl (hupdate id payload)
  | delete id => exact Prog.only_map.mpr (unchecked_delete id)
  | uploadAvatar id file => exact Prog.only_map.mpr (unchecked_uploadAvatar id file)
  | removeAvatar id => exact Prog.only_map.mpr (unchecked_removeAvatar id)
  | importJob file progress => exact absurd rfl (himport file progress)
  | evict key => exact Prog.only_map.mpr (Prog.only_stmt.mpr ⟨rfl, fun _ => trivial⟩)

/-- Every call makes its checks before its writes. -/
theorem checked_start (c : CustomerCall × CustomerEntropy) :
    checkMonitor.Safe (fun _ => True) [] (CustomerPool.start E c) := by
  obtain ⟨c, R⟩ := c
  cases c with
  | create dto => exact Monitor.keeps_map.mpr (checked_create dto)
  | update id payload => exact Monitor.keeps_map.mpr (checked_update id payload)
  | importJob file progress => exact Monitor.keeps_map.mpr (checked_handle progress file)
  | _ => exact keeps_unchecked (unchecked_start (by simp) (by simp) (by simp))

end Calls

section Runs

variable {s s' : CustomerPool} {a : CustomerAct}

/-- After call `i` has made the check `c`, a value that the check looks for was committed, and it
still stands in a row that the check would find. -/
def CustomerPool.Overtaken (E : CustomerEnv) (s : CustomerPool) (i : ℕ) (c : CustomerStmt) : Prop :=
  ∃ d ∈ s.log, d.pid = i ∧ d.op = c ∧ ∃ x ∈ s.log, d.stamp < x.stamp ∧ x.reply.isOk = true
    ∧ ∃ r ∈ s.db.customer.rows, c.finds E r = true ∧ r.toCustomerData ∈ x.op.data

instance (s : CustomerPool) (i : ℕ) (c : CustomerStmt) : Decidable (s.Overtaken E i c) := by
  unfold CustomerPool.Overtaken
  infer_instance

/-- No write to a live or a new row comes after a check of its call that has been overtaken, and the
database tells the rows of a chunk apart. -/
def CustomerPool.Unraced (E : CustomerEnv) (s : CustomerPool) : CustomerAct → Prop
  | .step i => ∀ p ∈ s.procs[i]?, ∀ op ∈ p.rest.statement?,
      op.data.Pairwise (CustomerData.Apart E)
        ∧ (op.Effective s.db → ∀ c ∈ op.checks, ¬ s.Overtaken E i c)
  | _ => True

instance (s : CustomerPool) (a : CustomerAct) : Decidable (s.Unraced E a) :=
  match a with
  | .step _ => inferInstanceAs (Decidable (∀ p ∈ _, ∀ op ∈ _, _ ∧ (_ → ∀ c ∈ _, ¬ _)))
  | .spawn _ | .fail .. | .tick _ => inferInstanceAs (Decidable True)

/-- What a check finds that once found nothing, a later statement has written. -/
def CustomerPool.Seen (E : CustomerEnv) (s : CustomerPool) : Prop :=
  ∀ d ∈ s.log, d.op.foundNone d.reply = true → ∀ r ∈ s.db.customer.rows,
    d.op.finds E r = true →
    ∃ x ∈ s.log, d.stamp < x.stamp ∧ x.reply.isOk = true ∧ r.toCustomerData ∈ x.op.data

/-- What every state of a run keeps. -/
structure Checked (E : CustomerEnv) (s : CustomerPool) : Prop where
  follows : Pool.Follows checkMonitor (fun _ => True) (fun _ => []) s
  seen : s.Seen E
  keyed : s.db.customer.Keyed (·.id)
  apart : s.db.Apart E

/-- A later check outdates no earlier one, and a write is later than all checks. -/
theorem CustomerPool.Seen.advance (h : s.Seen E) (hst : Pool.Stamped s.log) {i : ℕ}
    {c : CustomerCall × CustomerEntropy} {op : CustomerStmt}
    {k : Except Failure op.Res → CustomerProg CustomerResult} :
    CustomerPool.Seen E
      (s.advance i c op (E.exec op s.now s.db).1 (E.exec op s.now s.db).2 k) := by
  intro d hd hnone r hr hfinds
  rw [Pool.advance_log] at hd ⊢
  rw [Pool.advance_db] at hr
  rcases List.mem_cons.mp hd with rfl | hd
  · rw [exec_foundNone hnone r hr] at hfinds
    cases hfinds
  · rcases exec_finds hr hfinds with hdata | ⟨r', hr', hsame, hfinds'⟩
    · refine ⟨_, List.mem_cons_self, hst.lt d hd, ?_, hdata⟩
      cases op with
      | create data => rfl
      | createMany rows => rfl
      | update id change => rfl
      | _ => simp [CustomerStmt.data] at hdata
    · obtain ⟨x, hx, hlt, hok, hdata⟩ := h d hd hnone r' hr' hfinds'
      exact ⟨x, List.mem_cons_of_mem _ hx, hlt, hok, hsame ▸ hdata⟩

theorem CustomerPool.Seen.fail (h : s.Seen E) {i : ℕ} {c : CustomerCall × CustomerEntropy}
    {op : CustomerStmt} {k : Except Failure op.Res → CustomerProg CustomerResult} {e : Failure} :
    CustomerPool.Seen E (s.advance i c op (.error e) s.db k) := by
  intro d hd hnone r hr hfinds
  rw [Pool.advance_log] at hd ⊢
  rw [Pool.advance_db] at hr
  rcases List.mem_cons.mp hd with rfl | hd
  · cases op <;> simp [CustomerStmt.foundNone] at hnone
  · obtain ⟨x, hx, hlt, hok, hdata⟩ := h d hd hnone r hr hfinds
    exact ⟨x, List.mem_cons_of_mem _ hx, hlt, hok, hdata⟩

theorem Checked.act (h : Checked E s) (hG : s.Unraced E a)
    (ha : Pool.act E.exec (CustomerPool.start E) s a = some s') : Checked E s' := by
  have hfollows := h.follows.act (fun c _ => checked_start c) ha
  rcases Pool.act_cases ha with ⟨c, rfl, rfl⟩ | ⟨t, rfl, rfl⟩ | ⟨i, c, op, k, rfl, hi, rfl⟩ |
    ⟨i, e, c, op, k, rfl, hi, rfl⟩
  · exact ⟨hfollows, h.seen, h.keyed, h.apart⟩
  · exact ⟨hfollows, h.seen, h.keyed, h.apart⟩
  · obtain ⟨hdata, hraced⟩ := hG _ hi op rfl
    have hallowed : ∀ ch ∈ op.checks, ch ∈ checkMonitor.phase [] i s.log :=
      (h.follows.keeps i _ hi).1
    have hfree : op.Effective s.db → ∀ ch ∈ op.checks, ∀ r ∈ s.db.customer.rows,
        ch.finds E r = false := by
      intro heff ch hch r hr
      obtain ⟨d, hd, hpid, rfl, hnone⟩ := mem_checkMonitor_phase (hallowed ch hch)
      by_contra hfinds
      have hfinds : d.op.finds E r = true := by simpa using hfinds
      obtain ⟨x, hx, hlt, hok, hx'⟩ := h.seen d hd hnone r hr hfinds
      exact hraced heff _ hch ⟨d, hd, hpid, rfl, x, hx, hlt, hok, r, hr, hfinds, hx'⟩
    exact ⟨hfollows, h.seen.advance h.follows.stamped, exec_keyed h.keyed op,
      exec_apart h.apart h.keyed hdata hfree⟩
  · exact ⟨hfollows, h.seen.fail, h.keyed, h.apart⟩

/-- Where no check is overtaken, the live rows stay apart. -/
theorem live_rows_apart {db : CustomerDb} {now : Int} (hkeyed : db.customer.Keyed (·.id))
    (hdb : db.Apart E)
    (run : Pool.Steps E.exec (CustomerPool.start E) (CustomerPool.Unraced E)
      (CustomerPool.idle db now) s) : s.db.Apart E := by
  have h : Checked E s := by
    refine Pool.Steps.inv (I := Checked E) run (fun _ _ _ h hG ha => h.act hG ha) ?_
    exact ⟨Pool.follows_idle, by simp [CustomerPool.Seen, CustomerPool.idle], hkeyed, hdb⟩
  exact h.apart

end Runs

/-! ## Sample runs -/

namespace CustomerSample

/-- Two calls of `create` that both check before either writes. -/
def together (name name' : Bytes) : List CustomerAct :=
  [.spawn (.create (customer name), entropy), .spawn (.create (customer name'), entropy),
    .step 0, .step 1, .step 0, .step 1]

end CustomerSample

open CustomerSample in
theorem live_rows_apart_sample :
    ∃ s : CustomerPool, s.db.customer.rows.length = 2 ∧ s.db.Apart env := by
  have h : ∃ s ∈ Pool.acts env.exec (CustomerPool.start env) (CustomerPool.Unraced env)
      (together (ascii "Ada") (ascii "Bob")) (CustomerPool.idle db 1000),
      s.db.customer.rows.length = 2 := by
    decide +kernel
  obtain ⟨s, hs, hrows⟩ := h
  exact ⟨s, hrows, live_rows_apart ⟨by simp [db], by simp [db]⟩ (by simp [CustomerDb.Apart, db])
    (Pool.steps_of_acts hs)⟩

open CustomerSample in
/-- Two calls of `create` with one name both find it free, and both insert it. -/
theorem created_twice :
    db.Apart env ∧ ∃ s : CustomerPool, Pool.Steps env.exec (CustomerPool.start env)
        (fun _ _ => True) (CustomerPool.idle db 1000) s
      ∧ ¬ s.db.Apart env := by
  have h : ∃ s ∈ Pool.acts env.exec (CustomerPool.start env) (fun _ _ => True)
      (together (ascii "Ada") (ascii "Ada")) (CustomerPool.idle db 1000),
      ¬ s.db.Apart env := by
    decide +kernel
  obtain ⟨s, hs, hnot⟩ := h
  exact ⟨by simp [CustomerDb.Apart, db], s, Pool.steps_of_acts hs, hnot⟩

end SlimStarter
