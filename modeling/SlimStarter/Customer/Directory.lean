import SlimStarter.Lib.Register
import SlimStarter.Customer.Unique
import SlimStarter.Customer.FailOpen
import SlimStarter.Customer.Strict

/-!
# The directory of the customers

What the customers are kept for, whatever the rows, the cache and the files are like: a register of
the data of the live customers by id (`CustomerDb.directory`), where two customers with the same
name or the same email clash and what the database refuses does not fit. A method of
`CustomerService` that runs alone performs one operation on it: it comes to the answer to the
operation, and makes of the directory what the operation makes of it (`performs_create`,
`performs_update`, `performs_delete`, `performs_get`).
-/

namespace SlimStarter

open CustomerModel (sqlEq taken findById existsByColumn existsByName existsByEmail)
open Register (Operation Answer)

variable {E : CustomerEnv}

/-- The columns in which no two live customers are the same. -/
inductive UniqueColumn where
  | name | email
deriving DecidableEq, Repr

def CustomerEnv.clash (E : CustomerEnv) : UniqueColumn → CustomerData → CustomerData → Prop
  | .name, c, d => sqlEq E c.name d.name = true
  | .email, c, d => ∃ e ∈ c.email, ∃ e' ∈ d.email, sqlEq E e e' = true

theorem CustomerEnv.clash_symm (E : CustomerEnv) (column : UniqueColumn) (c d : CustomerData)
    (h : E.clash column c d) : E.clash column d c := by
  have hsymm : ∀ a b, sqlEq E a b = true → sqlEq E b a = true := by
    intro a b hab
    simp only [sqlEq, decide_eq_true_eq] at hab ⊢
    exact hab.symm
  cases column with
  | name => exact hsymm _ _ h
  | email =>
    obtain ⟨e, he, e', he', heq⟩ := h
    exact ⟨e', he', e, he, hsymm _ _ heq⟩

def CustomerDb.directory (db : CustomerDb) : Register CustomerData where
  next := db.customer.autoIncrement
  entry id := (findById db.customer id).map (·.toCustomerData)

section Find

variable {t : Table CustomerRow} {db : CustomerDb} {id : ℕ} {r : CustomerRow}

theorem findById_eq_some_iff (h : t.Keyed (·.id)) :
    findById t id = some r ↔ r ∈ t.rows ∧ r.id = id ∧ r.deletedAt = none := by
  constructor
  · intro hfound
    obtain ⟨hmem, hr⟩ := Table.first_mem hfound
    simp only [Bool.and_eq_true, decide_eq_true_eq, Option.isNone_iff_eq_none] at hr
    exact ⟨hmem, hr⟩
  · rintro ⟨hmem, hid, hlive⟩
    cases hfound : findById t id with
    | none =>
      have hmiss := Table.first_eq_none.mp hfound r hmem
      simp [hid, hlive] at hmiss
    | some r' =>
      obtain ⟨hmem', hr'⟩ := Table.first_mem hfound
      simp only [Bool.and_eq_true, decide_eq_true_eq, Option.isNone_iff_eq_none] at hr'
      rw [h.eq_of_key hmem' hmem (hr'.1.trans hid.symm)]

theorem directory_tidy (h : db.customer.Keyed (·.id)) : db.directory.Tidy := by
  intro id hid
  refine Option.map_eq_none_iff.mpr (Table.first_eq_none.mpr fun r hr => ?_)
  have hne : r.id ≠ id := by
    have hlt := h.lt r hr
    have hle : db.customer.autoIncrement ≤ id := hid
    omega
  simp [hne]

/-- A check of `assertUnique` looks through the entries under other keys than the one excepted. -/
theorem existsByColumn_iff {column : CustomerRow → Option Bytes} {value : Bytes}
    {exceptId : Option ℕ} {key : ℕ} (h : t.Keyed (·.id))
    (hkey : ∀ r ∈ t.rows, exceptId.all (r.id ≠ ·) = true ↔ r.id ≠ key) :
    existsByColumn E t column value exceptId = true ↔
      ∃ k ≠ key, ∃ r, findById t k = some r ∧ ∃ e ∈ column r, sqlEq E e value = true := by
  have htaken : ∀ r ∈ t.rows, taken E column value exceptId r = true ↔
      (∃ e ∈ column r, sqlEq E e value = true) ∧ r.deletedAt = none ∧ r.id ≠ key := by
    intro r hr
    rw [taken, Bool.and_eq_true, Bool.and_eq_true, hkey r hr, Option.isNone_iff_eq_none, and_assoc]
    cases column r <;> simp
  rw [existsByColumn, decide_eq_true_eq, Table.affected_pos]
  constructor
  · rintro ⟨r, hr, htake⟩
    obtain ⟨hvalue, hlive, hne⟩ := (htaken r hr).mp htake
    exact ⟨r.id, hne, r, (findById_eq_some_iff h).mpr ⟨hr, rfl, hlive⟩, hvalue⟩
  · rintro ⟨k, hne, r, hfound, hvalue⟩
    obtain ⟨hr, rfl, hlive⟩ := (findById_eq_some_iff h).mp hfound
    exact ⟨r, hr, (htaken r hr).mpr ⟨hvalue, hlive, hne⟩⟩

variable {d : CustomerData} {key : ℕ} {exceptId : Option ℕ}
variable (h : db.customer.Keyed (·.id))
variable (hkey : ∀ r ∈ db.customer.rows, exceptId.all (r.id ≠ ·) = true ↔ r.id ≠ key)

include h hkey

theorem existsByName_iff : existsByName E db.customer d.name exceptId = true ↔
    .name ∈ db.directory.conflicts E.clash key d := by
  rw [existsByName, existsByColumn_iff h hkey]
  constructor
  · rintro ⟨k, hne, r, hfound, _, ⟨⟩, heq⟩
    exact ⟨k, hne, r.toCustomerData, by simp [CustomerDb.directory, hfound], heq⟩
  · rintro ⟨k, hne, c, hentry, heq⟩
    obtain ⟨r, hfound, rfl⟩ := Option.map_eq_some_iff.mp hentry
    exact ⟨k, hne, r, hfound, r.name, rfl, heq⟩

theorem existsByEmail_iff :
    d.email.any (existsByEmail E db.customer · exceptId) = true ↔
      .email ∈ db.directory.conflicts E.clash key d := by
  rw [Option.any_eq_true]
  constructor
  · rintro ⟨email, hemail, hexists⟩
    obtain ⟨k, hne, r, hfound, e, he, heq⟩ := (existsByColumn_iff h hkey).mp hexists
    exact ⟨k, hne, r.toCustomerData, by simp [CustomerDb.directory, hfound], e, he, email, hemail,
      heq⟩
  · rintro ⟨k, hne, c, hentry, e, he, email, hemail, heq⟩
    obtain ⟨r, hfound, rfl⟩ := Option.map_eq_some_iff.mp hentry
    exact ⟨email, hemail, (existsByColumn_iff h hkey).mpr ⟨k, hne, r, hfound, e, he, heq⟩⟩

end Find

section Exec

variable {t : Table CustomerRow} {db : CustomerDb} {id : ℕ} {i : Int} {d : CustomerData}

theorem directory_ext {r : Register CustomerData} (hnext : db.customer.autoIncrement = r.next)
    (hentry : ∀ k, (findById db.customer k).map (·.toCustomerData) = r.entry k) :
    db.directory = r := by
  obtain ⟨next, entry⟩ := r
  obtain rfl : db.customer.autoIncrement = next := hnext
  obtain rfl : (fun k => (findById db.customer k).map (·.toCustomerData)) = entry := funext hentry
  rfl

theorem directory_congr {db' : CustomerDb} (h : db'.customer = db.customer) :
    db'.directory = db.directory := by
  rw [CustomerDb.directory, CustomerDb.directory, h]

theorem findById_update {f : CustomerRow → CustomerRow} (hf : ∀ r, (f r).id = r.id) {k : ℕ}
    (hk : k ≠ id) : findById (t.update (·.id = id) f) k = findById t k := by
  unfold findById Table.first Table.update
  induction t.rows with
  | nil => rfl
  | cons r rows ih =>
    simp only [List.map_cons, List.find?_cons, ih]
    by_cases hr : r.id = id
    · have hne : (f r).id ≠ k := by
        rw [hf, hr]
        exact Ne.symm hk
      simp [hr, hne, Ne.symm hk]
    · simp [hr]

variable (h : db.customer.Keyed (·.id))

include h

theorem directory_insert (c : NewCustomer) :
    ({ db with customer := db.customer.insert (NewCustomer.row c) } : CustomerDb).directory =
      db.directory.add c.toCustomerData := by
  have hkeyed : (db.customer.insert (NewCustomer.row c)).Keyed (·.id) := h.insert fun _ => rfl
  refine directory_ext rfl fun k => ?_
  by_cases hk : k = db.customer.autoIncrement
  · subst hk
    rw [show db.customer.autoIncrement = db.directory.next from rfl, Register.add_self]
    refine Option.map_eq_some_iff.mpr ⟨_, (findById_eq_some_iff hkeyed).mpr
      ⟨Table.mem_insert.mpr (.inr rfl), rfl, rfl⟩, rfl⟩
  · rw [Register.add_of_ne (show k ≠ db.directory.next from hk)]
    refine congrArg (Option.map _) ?_
    simp [findById, Table.first, Table.insert, List.find?_append, NewCustomer.row, Ne.symm hk]

theorem directory_create : (E.exec (.create d) i db).2.directory = db.directory.add d :=
  directory_insert h _

theorem directory_update (hentry : db.directory.entry id ≠ none) :
    (E.exec (.update id (.data d)) i db).2.directory = db.directory.put id (some d) := by
  have hkeyed : (E.exec (.update id (.data d)) i db).2.customer.Keyed (·.id) :=
    exec_keyed h (.update id (.data d))
  refine directory_ext rfl fun k => ?_
  by_cases hk : k = id
  · subst hk
    obtain ⟨c, hc⟩ := Option.ne_none_iff_exists'.mp hentry
    obtain ⟨r, hfound, -⟩ := Option.map_eq_some_iff.mp hc
    obtain ⟨hr, hid, hlive⟩ := (findById_eq_some_iff h).mp hfound
    rw [Register.put_self]
    refine Option.map_eq_some_iff.mpr ⟨_, (findById_eq_some_iff hkeyed).mpr
      ⟨Table.mem_update.mpr (.inr ⟨r, hr, by simpa using hid, rfl⟩), hid, hlive⟩, rfl⟩
  · rw [Register.put_of_ne hk]
    refine congrArg (Option.map _) ?_
    apply findById_update _ hk
    exact fun _ => rfl

theorem directory_delete :
    (E.exec (.deleteById id) i db).2.directory = db.directory.put id none := by
  have hkeyed : (E.exec (.deleteById id) i db).2.customer.Keyed (·.id) :=
    exec_keyed h (.deleteById id)
  refine directory_ext rfl fun k => ?_
  by_cases hk : k = id
  · subst hk
    rw [Register.put_self]
    refine Option.map_eq_none_iff.mpr (Option.eq_none_iff_forall_ne_some.mpr fun r hfound => ?_)
    obtain ⟨hr, hid, hlive⟩ := (findById_eq_some_iff hkeyed).mp hfound
    rcases Table.mem_update.mp hr with ⟨-, hne⟩ | ⟨r', -, -, rfl⟩
    · simp [hid] at hne
    · cases hlive
  · rw [Register.put_of_ne hk]
    refine congrArg (Option.map _) ?_
    apply findById_update _ hk
    exact fun _ => rfl

end Exec

section Kept

variable {t : Table CustomerRow} {db : CustomerDb} {i : Int}

theorem findById_update_data {p : CustomerRow → Bool} {f : CustomerRow → CustomerRow}
    (hid : ∀ r, (f r).id = r.id) (hlive : ∀ r, (f r).deletedAt = r.deletedAt)
    (hdata : ∀ r, (f r).toCustomerData = r.toCustomerData) (k : ℕ) :
    (findById (t.update p f) k).map (·.toCustomerData) =
      (findById t k).map (·.toCustomerData) := by
  unfold findById Table.first Table.update
  induction t.rows with
  | nil => rfl
  | cons r rows ih =>
    have hr : (if p r then f r else r).id = r.id
        ∧ (if p r then f r else r).deletedAt = r.deletedAt
        ∧ (if p r then f r else r).toCustomerData = r.toCustomerData := by
      split_ifs
      · exact ⟨hid r, hlive r, hdata r⟩
      · exact ⟨rfl, rfl, rfl⟩
    simp only [List.map_cons, List.find?_cons, hr.1, hr.2.1]
    cases r.id = k && r.deletedAt.isNone with
    | true => exact congrArg some hr.2.2
    | false => exact ih

/-- The statement writes no data and deletes nothing. -/
def CustomerStmt.keepsDirectory : CustomerStmt → Bool
  | .create _ | .createMany _ | .update _ (.data _) | .deleteById _ => false
  | _ => true

theorem directory_kept {op : CustomerStmt} (hop : op.keepsDirectory = true) :
    (E.exec op i db).2.directory = db.directory := by
  cases op with
  | update id change =>
    cases change with
    | data d => cases hop
    | avatarPath path =>
      refine directory_ext rfl fun k => ?_
      apply findById_update_data
      · exact fun _ => rfl
      · exact fun _ => rfl
      · exact fun _ => rfl
  | create | createMany | deleteById => cases hop
  | _ => rfl

end Kept

/-! ## The methods -/

namespace CustomerService

/-- The outcome that an answer stands for, without a customer where one was removed. -/
def Outcome : Answer UniqueColumn CustomerData → Except Failure (Option PublicCustomer) → Prop
  | .found id d, outcome => ∃ c : PublicCustomer, outcome = .ok (some c) ∧ c.id = id
      ∧ c.toCustomerData = d
  | .missing, outcome => outcome = .error (.notFoundException "Customer not found.")
  | .refused columns, outcome => ∃ nameTaken emailTaken : Bool,
      (nameTaken = true ↔ .name ∈ columns) ∧ (emailTaken = true ↔ .email ∈ columns)
      ∧ outcome = .error (.validation "Validation failed." (uniqueErrors nameTaken emailTaken))
  | .unfit, outcome => outcome = .error .database
  | .removed, outcome => outcome = .ok none

/-- The method, which runs alone at this instant, comes to the answer to the operation, and makes of
the directory what the operation makes of it. -/
structure Performs (E : CustomerEnv) (D : TextRules) (i : Int) (db : CustomerDb)
    (operation : Operation CustomerData) (p : CustomerProg (Option PublicCustomer)) : Prop where
  outcome : Outcome (db.directory.step E.clash D.Fits operation).1 (p.run (E.execOn D) i db).1
  directory : (p.run (E.execOn D) i db).2.directory =
    (db.directory.step E.clash D.Fits operation).2

variable {D : TextRules} {db : CustomerDb} {i : Int} {id : ℕ} {d : CustomerData}

theorem written_of_plain {op : CustomerStmt} (h : op.Plain) (t : Table CustomerRow) :
    op.written t = [] := by
  cases op <;> first | rfl | cases h.2

theorem run_bump (db : CustomerDb) (i : Int) :
    ∃ redis, (bump E).run (E.execOn D) i db = (.ok (), { db with redis }) := by
  rw [bump_eq]
  split_ifs
  · exact ⟨_, rfl⟩
  · exact ⟨db.redis, rfl⟩

theorem run_dropAvatar (path : Option Bytes) (db : CustomerDb) (i : Int) :
    ∃ db', (dropAvatar E path).run (E.execOn D) i db = (.ok (), db')
      ∧ db'.customer = db.customer := by
  rw [(only_dropAvatar path).run_congr
    fun op db hop => execOn_of_unwritten (written_of_plain hop _)]
  have hok := isOk_dropAvatar (E := E) (i := i) path db
  have hkept := customer_run_of_plain (E := E) (i := i) (only_dropAvatar (E := E) path) db
  rcases hrun : (dropAvatar E path).run E.exec i db with ⟨_ | _, db'⟩
  · rw [hrun] at hok
    cases hok
  · rw [hrun] at hkept
    exact ⟨db', rfl, hkept⟩

/-- After a write, the method returns what the directory has under the id. -/
theorem run_bump_get (hentry : db.directory.entry id = some d) :
    ∃ redis c,
      (some <$> (do bump E; get E id)).run (E.execOn D) i db = (.ok (some c), { db with redis })
      ∧ c.id = id ∧ c.toCustomerData = d := by
  obtain ⟨r, hfound, rfl⟩ := Option.map_eq_some_iff.mp hentry
  obtain ⟨-, hr⟩ := Table.first_mem hfound
  simp only [Bool.and_eq_true, decide_eq_true_eq] at hr
  obtain ⟨redis, hbump⟩ := run_bump (E := E) (D := D) db i
  refine ⟨redis, toPublicArray E r, ?_, hr.1, rfl⟩
  rw [Prog.run_map, Prog.run_bind, hbump]
  simp only [get, Prog.stmt_bind, Prog.run_call, execOn_findById, hfound, Prog.resume_ok]
  rfl

/-- `assertUnique` lets pass what has no conflicts with the entries under other keys. -/
theorem assertUnique_cases {exceptId : Option ℕ} {key : ℕ} (h : db.customer.Keyed (·.id))
    (hkey : ∀ r ∈ db.customer.rows, exceptId.all (r.id ≠ ·) = true ↔ r.id ≠ key) :
    (db.directory.conflicts E.clash key d = ∅
      ∧ (assertUnique d.name d.email exceptId).run (E.execOn D) i db = (.ok (), db))
    ∨ db.directory.conflicts E.clash key d ≠ ∅
      ∧ ∃ e, (assertUnique d.name d.email exceptId).run (E.execOn D) i db = (.error e, db)
        ∧ Outcome (.refused (db.directory.conflicts E.clash key d)) (.error e) := by
  have hname := existsByName_iff (E := E) (d := d) h hkey
  have hemail := existsByEmail_iff (E := E) (d := d) h hkey
  have hrun : (assertUnique d.name d.email exceptId).run (E.execOn D) i db =
      (if uniqueErrors (existsByName E db.customer d.name exceptId)
          (d.email.any (existsByEmail E db.customer · exceptId)) = [] then .ok ()
        else .error (.validation "Validation failed."
          (uniqueErrors (existsByName E db.customer d.name exceptId)
            (d.email.any (existsByEmail E db.customer · exceptId)))), db) := by
    cases hemail : d.email <;>
      simp only [assertUnique, Prog.stmt_bind, Prog.run_call, execOn_existsByName,
        execOn_existsByEmail, Prog.resume_ok, Option.any_none, Option.any_some, pure_bind] <;>
      split_ifs <;> rfl
  by_cases hfree : db.directory.conflicts E.clash key d = ∅
  · have hname' : existsByName E db.customer d.name exceptId = false := by
      simpa [hfree] using hname
    have hemail' : d.email.any (existsByEmail E db.customer · exceptId) = false := by
      simpa [hfree] using hemail
    exact .inl ⟨hfree, by rw [hrun, hname', hemail']; rfl⟩
  · refine .inr ⟨hfree, ?_⟩
    obtain ⟨column, hcolumn⟩ := Set.nonempty_iff_ne_empty.mpr hfree
    have herrors : uniqueErrors (existsByName E db.customer d.name exceptId)
        (d.email.any (existsByEmail E db.customer · exceptId)) ≠ [] := by
      cases column with
      | name => simp [uniqueErrors, hname.mpr hcolumn]
      | email => simp [uniqueErrors, hemail.mpr hcolumn]
    rw [if_neg herrors] at hrun
    exact ⟨_, hrun, _, _, hname, hemail, rfl⟩

theorem execOn_create_of_fits (hfits : D.Fits d) :
    E.execOn D (.create d) i db = E.exec (.create d) i db :=
  execOn_of_accepts (by simpa [CustomerStmt.written, TextRules.Fits] using hfits)

theorem execOn_create_of_not_fits (hfits : ¬ D.Fits d) :
    E.execOn D (.create d) i db = (.error .database, db) :=
  execOn_of_not_accepts (by simpa [CustomerStmt.written, TextRules.Fits] using hfits)

theorem execOn_update_of_fits (hfits : D.Fits d) :
    E.execOn D (.update id (.data d)) i db = E.exec (.update id (.data d)) i db := by
  refine execOn_of_accepts ?_
  simp only [CustomerStmt.written]
  split_ifs
  · simpa [TextRules.Fits] using hfits
  · rfl

theorem execOn_update_of_not_fits (hentry : db.directory.entry id ≠ none) (hfits : ¬ D.Fits d) :
    E.execOn D (.update id (.data d)) i db = (.error .database, db) := by
  have hrow : 0 < db.customer.affected (·.id = id) := by
    obtain ⟨c, hc⟩ := Option.ne_none_iff_exists'.mp hentry
    obtain ⟨r, hfound, -⟩ := Option.map_eq_some_iff.mp hc
    obtain ⟨hmem, hr⟩ := Table.first_mem hfound
    simp only [Bool.and_eq_true, decide_eq_true_eq] at hr
    exact Table.affected_pos.mpr ⟨r, hmem, by simpa using hr.1⟩
  refine execOn_of_not_accepts ?_
  simpa [CustomerStmt.written, hrow, TextRules.Fits] using hfits

theorem performs_get : Performs E D i db (.lookup id) (some <$> get E id) := by
  cases hfound : findById db.customer id with
  | none =>
    have hentry : db.directory.entry id = none := by simp [CustomerDb.directory, hfound]
    have hrun : (some <$> get E id).run (E.execOn D) i db =
        (.error (.notFoundException "Customer not found."), db) := by
      simp only [get, Prog.run_map, Prog.stmt_bind, Prog.run_call, execOn_findById, hfound,
        Prog.resume_ok]
      rfl
    exact ⟨by rw [hrun]; simp [Register.step, hentry, Outcome], by rw [hrun]; rfl⟩
  | some r =>
    have hentry : db.directory.entry id = some r.toCustomerData := by
      simp [CustomerDb.directory, hfound]
    obtain ⟨-, hid⟩ := Table.first_mem hfound
    have hrun : (some <$> get E id).run (E.execOn D) i db =
        (.ok (some (toPublicArray E r)), db) := by
      simp only [get, Prog.run_map, Prog.stmt_bind, Prog.run_call, execOn_findById, hfound,
        Prog.resume_ok]
      rfl
    refine ⟨?_, by rw [hrun]; rfl⟩
    rw [hrun]
    simp only [Register.step, hentry]
    simp only [Bool.and_eq_true, decide_eq_true_eq] at hid
    exact ⟨_, rfl, hid.1, rfl⟩

open Classical in
/-- What the directory answers to data that enter it, or replace an entry, under this key is what a
method comes to that checks the data, writes them there and reads the customer again. -/
theorem performs_write {operation : Operation CustomerData}
    {p : CustomerProg (Option PublicCustomer)} (exceptId : Option ℕ) (write : CustomerProg ℕ)
    (key : ℕ) (written : Register CustomerData) (h : db.customer.Keyed (·.id))
    (hkey : ∀ r ∈ db.customer.rows, exceptId.all (r.id ≠ ·) = true ↔ r.id ≠ key)
    (hstep : db.directory.step E.clash D.Fits operation =
      if db.directory.conflicts E.clash key d = ∅ then
        if D.Fits d then (.found key d, written) else (.unfit, db.directory)
      else (.refused (db.directory.conflicts E.clash key d), db.directory))
    (hentry : written.entry key = some d)
    (hp : p.run (E.execOn D) i db = (some <$> (do
      assertUnique d.name d.email exceptId
      let id ← write
      bump E
      get E id)).run (E.execOn D) i db)
    (hfit : D.Fits d →
      ∃ db', write.run (E.execOn D) i db = (.ok key, db') ∧ db'.directory = written)
    (hunfit : ¬ D.Fits d → write.run (E.execOn D) i db = (.error .database, db)) :
    Performs E D i db operation p := by
  rcases assertUnique_cases (E := E) (D := D) (i := i) (d := d) h hkey with
    ⟨hfree, hunique⟩ | ⟨hfree, e, hunique, hrefused⟩
  · rw [if_pos hfree] at hstep
    by_cases hfits : D.Fits d
    · rw [if_pos hfits] at hstep
      obtain ⟨db', hwrite, rfl⟩ := hfit hfits
      obtain ⟨redis, c, hget, hid, hdata⟩ := run_bump_get (E := E) (D := D) (i := i) hentry
      have hrun : p.run (E.execOn D) i db = (.ok (some c), { db' with redis }) := by
        rw [hp, ← hget, Prog.run_map, Prog.run_map, Prog.run_bind, hunique]
        simp only [Prog.run_bind, hwrite]
      exact ⟨by rw [hrun, hstep]; exact ⟨c, rfl, hid, hdata⟩, by rw [hrun, hstep]; rfl⟩
    · rw [if_neg hfits] at hstep
      have hrun : p.run (E.execOn D) i db = (.error .database, db) := by
        rw [hp, Prog.run_map, Prog.run_bind, hunique]
        simp only [Prog.run_bind, hunfit hfits]
        rfl
      exact ⟨by rw [hrun, hstep]; rfl, by rw [hrun, hstep]⟩
  · rw [if_neg hfree] at hstep
    have hrun : p.run (E.execOn D) i db = (.error e, db) := by
      rw [hp, Prog.run_map, Prog.run_bind, hunique]
      rfl
    exact ⟨by rw [hrun, hstep]; exact hrefused, by rw [hrun, hstep]⟩

theorem performs_create (h : db.customer.Keyed (·.id)) :
    Performs E D i db (.enter d) (some <$> create E d) := by
  have hadd : (E.exec (.create d) i db).2.directory = db.directory.add d := directory_create h
  refine performs_write none (issue (.create d)) db.directory.next (db.directory.add d) h
    (fun r hr => iff_of_true rfl (h.lt r hr).ne) rfl Register.add_self ?_ ?_ ?_
  · rfl
  · intro hfits
    refine ⟨(E.exec (.create d) i db).2, ?_, hadd⟩
    rw [Prog.run_stmt, execOn_create_of_fits hfits]
    rfl
  · intro hfits
    rw [Prog.run_stmt, execOn_create_of_not_fits hfits]

theorem performs_update (h : db.customer.Keyed (·.id)) :
    Performs E D i db (.replace id d) (some <$> update E id d) := by
  cases hentry : db.directory.entry id with
  | none =>
    have hexists : CustomerModel.exists db.customer id = false := by
      simpa [CustomerDb.directory, CustomerModel.exists] using hentry
    have hrun : (some <$> update E id d).run (E.execOn D) i db =
        (.error (.notFoundException "Customer not found."), db) := by
      simp only [update, Prog.run_map, Prog.stmt_bind, Prog.run_call, execOn_exists, hexists,
        Prog.resume_ok]
      rfl
    exact ⟨by rw [hrun]; simp [Register.step, hentry, Outcome],
      by rw [hrun]; simp [Register.step, hentry]⟩
  | some c =>
    have hexists : CustomerModel.exists db.customer id = true := by
      obtain ⟨r, hfound, -⟩ := Option.map_eq_some_iff.mp hentry
      simp [CustomerModel.exists, hfound]
    have hentry' : db.directory.entry id ≠ none := by simp [hentry]
    have hput : (E.exec (.update id (.data d)) i db).2.directory =
        db.directory.put id (some d) := directory_update h hentry'
    refine performs_write (some id) ((fun _ => id) <$> issue (.update id (.data d))) id
      (db.directory.put id (some d)) h (by simp) (by simp [Register.step, hentry])
      Register.put_self ?_ ?_ ?_
    · simp only [update, Prog.run_map, Prog.stmt_bind, Prog.run_call, execOn_exists, hexists,
        Prog.resume_ok, if_true, bind_map_left]
    · intro hfits
      refine ⟨(E.exec (.update id (.data d)) i db).2, ?_, hput⟩
      rw [Prog.run_map, Prog.run_stmt, execOn_update_of_fits hfits]
      rfl
    · intro hfits
      rw [Prog.run_map, Prog.run_stmt, execOn_update_of_not_fits hentry' hfits]
      rfl

theorem performs_delete (h : db.customer.Keyed (·.id)) :
    Performs E D i db (.remove id) ((fun _ => none) <$> delete E id) := by
  cases hfound : findById db.customer id with
  | none =>
    have hentry : db.directory.entry id = none := by simp [CustomerDb.directory, hfound]
    have hrun : ((fun _ => none) <$> delete E id : CustomerProg (Option PublicCustomer)).run
        (E.execOn D) i db = (.error (.notFoundException "Customer not found."), db) := by
      simp only [delete, Prog.run_map, Prog.stmt_bind, Prog.run_call, execOn_findById, hfound,
        Prog.resume_ok]
      rfl
    exact ⟨by rw [hrun]; simp [Register.step, hentry, Outcome],
      by rw [hrun]; simp [Register.step, hentry]⟩
  | some r =>
    have hentry : db.directory.entry id ≠ none := by simp [CustomerDb.directory, hfound]
    have hput : (E.exec (.deleteById id) i db).2.directory = db.directory.put id none :=
      directory_delete h
    obtain ⟨db₂, hdrop, hkept⟩ := run_dropAvatar (E := E) (D := D) (avatarPath r)
      (E.exec (.deleteById id) i db).2 i
    obtain ⟨redis, hbump⟩ := run_bump (E := E) (D := D) db₂ i
    have hafter : (do dropAvatar E (avatarPath r); bump E).run (E.execOn D) i
        (E.exec (.deleteById id) i db).2 = (.ok (), { db₂ with redis }) := by
      rw [Prog.run_bind, hdrop]
      exact hbump
    have hdelete : (delete E id).run (E.execOn D) i db =
        (do dropAvatar E (avatarPath r); bump E).run (E.execOn D) i
          (E.exec (.deleteById id) i db).2 := by
      simp only [delete, Prog.stmt_bind, Prog.run_call, execOn_findById, hfound, Prog.resume_ok]
      rfl
    have hend : ((fun _ => none) <$> delete E id : CustomerProg (Option PublicCustomer)).run
        (E.execOn D) i db = (.ok none, { db₂ with redis }) := by
      rw [Prog.run_map, hdelete, hafter]
      rfl
    have hstep : db.directory.step E.clash D.Fits (.remove id) =
        (.removed, db.directory.put id none) := by simp [Register.step, hentry]
    refine ⟨?_, ?_⟩
    · rw [hend, hstep]
      rfl
    · rw [hend, hstep]
      exact (directory_congr (show { db₂ with redis }.customer = _ from hkept)).trans hput

/-! ## Avatars -/

section Avatars

variable {R : CustomerEntropy}

theorem keepsDirectory_of_plain {op : CustomerStmt} (h : op.Plain) : op.keepsDirectory = true := by
  cases op <;> first | rfl | cases h.2

/-- What comes after the check of the customer in the methods on avatars. -/
theorem keepsDirectory_commit (id : ℕ) (path dropped : Option Bytes) :
    Prog.Only (fun op => op.keepsDirectory = true) (fun _ => True) (do
      let _ ← issue (.update id (.avatarPath path))
      dropAvatar E dropped
      bump E
      get E id) := by
  refine Prog.only_bind.mpr (Prog.only_stmt.mpr ⟨rfl, fun _ => Prog.only_bind.mpr ?_⟩)
  refine ((only_dropAvatar dropped).imp fun _ => keepsDirectory_of_plain).mono fun _ _ => ?_
  have hbump : Prog.Only (fun op => op.keepsDirectory = true) (fun _ => True) (bump E) := by
    rw [bump_eq]
    split_ifs
    · exact ⟨rfl, fun _ => trivial⟩
    · trivial
  exact Prog.only_bind.mpr (hbump.mono fun _ _ =>
    (only_serviceGet id).imp fun _ => keepsDirectory_of_plain)

theorem keepsDirectory_removeAvatar (id : ℕ) :
    Prog.Only (fun op => op.keepsDirectory = true) (fun _ => True) (removeAvatar E id) := by
  refine Prog.only_bind.mpr (Prog.only_stmt.mpr ⟨rfl, fun customer => ?_⟩)
  cases customer with
  | none => trivial
  | some customer => exact keepsDirectory_commit id none _

theorem keepsDirectory_uploadAvatar (id : ℕ) (file : UploadedFile) :
    Prog.Only (fun op => op.keepsDirectory = true) (fun _ => True)
      (uploadAvatar E R id file) := by
  refine Prog.only_bind.mpr (Prog.only_stmt.mpr ⟨rfl, fun customer => ?_⟩)
  cases customer with
  | none => trivial
  | some customer =>
    simp only
    split
    · trivial
    · refine Prog.only_bind.mpr (((only_moveUploadedFile R file _).imp
        fun _ => keepsDirectory_of_plain).mono fun path _ => ?_)
      cases path with
      | none => trivial
      | some path => exact keepsDirectory_commit id _ _

end Avatars

end CustomerService

end SlimStarter
