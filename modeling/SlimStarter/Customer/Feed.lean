import SlimStarter.Customer.Unique

/-!
# The import on its own

What the import does when nothing else runs, as a function of the table and the local variables:
`verdict` is what happens to a record, `feed` one pass of the loop, and `accepted` the records that
get into a batch. `run_process` says that the job computes these, and `insertAll_feedAll` that the
table ends with the accepted records inserted, in order, after the rows it had.
-/

namespace SlimStarter

open CustomerModel (existsByName existsByEmail createMany)

namespace CustomerImportJob

/-- The table and the local variables of the loop. -/
structure Loop where
  table : Table CustomerRow
  st : ImportState
deriving DecidableEq

/-- What becomes of a record. -/
inductive Verdict where
  | empty
  | refused (error : String)
  | known
  | accepted (parsed : CustomerData)
deriving DecidableEq, Repr

/-- What gets into the batch. -/
def Verdict.batched : Verdict → List CustomerData
  | accepted parsed => [parsed]
  | _ => []

section Defs

variable (E : CustomerEnv) (now : LocalTime) (chunk : ℕ) (header : List (Bytes × ℕ))

/-- Whether the table knows the name or the email. -/
def known (t : Table CustomerRow) (parsed : CustomerData) : Bool :=
  existsByName E t parsed.name none || parsed.email.any fun email => existsByEmail E t email none

def verdict (x : Loop) (line : Csv.Record) : Verdict :=
  let parsed := parseRow line header
  if isEmptyRow line then .empty
  else
    match validateRow E parsed x.st.seenNames x.st.seenEmails with
    | some error => .refused error
    | none => if known E x.table parsed then .known else .accepted parsed

/-- Insert these records, one after the other. -/
def insertAll (t : Table CustomerRow) (ds : List CustomerData) : Table CustomerRow :=
  (createMany t (ds.map (newRow now))).2

def flushed (due : Bool) (x : Loop) : Loop :=
  if due then
    ⟨insertAll now x.table x.st.batch,
      { x.st with imported := x.st.imported + x.st.batch.length, batch := [] }⟩
  else x

/-- One pass of the loop. -/
def feed (x : Loop) (line : Csv.Record) : Loop :=
  let st := { x.st with processed := x.st.processed + 1 }
  match verdict E header x line with
  | .empty => ⟨x.table, st⟩
  | .refused error => ⟨x.table, ImportState.reject st error⟩
  | .known => ⟨x.table, { st with skipped := st.skipped + 1 }⟩
  | .accepted parsed =>
    let st := ImportState.accept E st parsed
    flushed now (chunk ≤ st.batch.length) ⟨x.table, st⟩

def feedAll (x : Loop) (lines : List Csv.Record) : Loop := lines.foldl (feed E now chunk header) x

/-- The records that get into a batch. -/
def accepted (x : Loop) : List Csv.Record → List CustomerData
  | [] => []
  | line :: lines =>
    (verdict E header x line).batched ++ accepted (feed E now chunk header x line) lines

def finished (x : Loop) : Loop := flushed now (x.st.batch ≠ []) x

end Defs

variable {E : CustomerEnv} {now : LocalTime} {i : Int} {chunk : ℕ} {progress : Bool} {total : ℕ}
variable {header : List (Bytes × ℕ)} {db : CustomerDb} {st : ImportState}

theorem run_isKnown (parsed : CustomerData) :
    (isKnown parsed).run E.exec i db = (.ok (known E db.customer parsed), db) := by
  have hname : Prog.run E.exec i (issue (.existsByName parsed.name none)) db =
      (.ok (existsByName E db.customer parsed.name none), db) := rfl
  unfold isKnown known
  rw [Prog.run_bind, hname]
  cases existsByName E db.customer parsed.name none
  · cases parsed.email <;> rfl
  · rfl

theorem run_flushIf (due : Bool) :
    (flushIf E due st).run E.exec i db =
      (.ok (flushed (E.zone.date i) due ⟨db.customer, st⟩).st,
        { db with customer := (flushed (E.zone.date i) due ⟨db.customer, st⟩).table }) := by
  cases due <;> rfl

theorem run_report : (report progress total st).run E.exec i db = (.ok (), db) := by
  unfold report
  split <;> rfl

theorem run_importRow (line : Csv.Record) :
    (importRow E chunk progress total header st line).run E.exec i db =
      (.ok (feed E (E.zone.date i) chunk header ⟨db.customer, st⟩ line).st,
        { db with
          customer := (feed E (E.zone.date i) chunk header ⟨db.customer, st⟩ line).table }) := by
  by_cases hempty : isEmptyRow line = true
  · simp only [importRow, feed, verdict, hempty, if_true]
    rfl
  · cases hvalid : validateRow E (parseRow line header) st.seenNames st.seenEmails with
    | some error =>
      simp only [importRow, feed, verdict, hempty, hvalid, Bool.false_eq_true, if_false]
      rfl
    | none =>
      simp only [importRow, feed, verdict, hempty, hvalid, Bool.false_eq_true, if_false]
      rw [Prog.run_bind, run_isKnown]
      cases known E db.customer (parseRow line header)
      · simp only [Bool.false_eq_true, if_false]
        rw [Prog.run_bind, run_flushIf]
        simp only
        rw [Prog.run_bind, run_report]
        rfl
      · rfl

theorem run_importRows (lines : List Csv.Record) :
    (importRows E chunk progress total header st lines).run E.exec i db =
      (.ok (feedAll E (E.zone.date i) chunk header ⟨db.customer, st⟩ lines).st,
        { db with
          customer :=
            (feedAll E (E.zone.date i) chunk header ⟨db.customer, st⟩ lines).table }) := by
  induction lines generalizing st db with
  | nil => rfl
  | cons line lines ih =>
    unfold importRows
    rw [Prog.run_bind, run_importRow]
    exact ih

/-- The loop of an import of these records, from its first pass to its last chunk. -/
def imported (E : CustomerEnv) (now : LocalTime) (chunk : ℕ) (header : List (Bytes × ℕ))
    (t : Table CustomerRow) (lines : List Csv.Record) : Loop :=
  finished now (feedAll E now chunk header ⟨t, ImportState.initial⟩ lines)

/-- What the job returns after this loop. -/
def Loop.result (total : ℕ) (x : Loop) : ImportResult where
  total := total
  imported := x.st.imported
  skipped := x.st.skipped
  failed := x.st.failed
  errors := x.st.errors

theorem run_importRecords (first : Csv.Record) (lines : List Csv.Record)
    (hname : ((headerMap first).lookup (ascii "name")).isSome) :
    (importRecords E chunk progress total first lines).run E.exec i db =
      (.ok (Loop.result total
        (imported E (E.zone.date i) chunk (headerMap first) db.customer lines)),
        { db with
          customer :=
            (imported E (E.zone.date i) chunk (headerMap first) db.customer lines).table }) := by
  unfold importRecords
  rw [if_neg (by simpa [Option.isNone_iff_eq_none, ← Option.not_isSome_iff_eq_none] using hname)]
  rw [Prog.run_bind, run_importRows]
  simp only
  rw [Prog.run_bind, run_flushIf]
  cases progress <;> rfl

/-- The columns of an import file. -/
def fileHeader (contents : Bytes) : List (Bytes × ℕ) :=
  headerMap ((Csv.records contents).head?.getD [])

/-- The records of an import file after the header. -/
def dataRecords (contents : Bytes) : List Csv.Record := (Csv.records contents).tail

/-- The file has a name column. -/
def HasName (contents : Bytes) : Prop := ((fileHeader contents).lookup (ascii "name")).isSome = true

instance (contents : Bytes) : Decidable (HasName contents) := by
  unfold HasName
  infer_instance

theorem run_readFile {path contents : Bytes} (hfile : db.files path = some contents) :
    Prog.run E.exec i (issue (.readFile path)) db = (.ok (some contents), db) := by
  rw [← hfile]
  rfl

theorem run_process_eq {path contents : Bytes} (hfile : db.files path = some contents) :
    (process E chunk path progress).run E.exec i db =
      (importRecords E chunk progress (countDataRows (some contents))
        ((Csv.records contents).head?.getD []) (dataRecords contents)).run E.exec i db := by
  unfold process
  rw [Prog.run_bind, Prog.run_map, run_readFile hfile]
  simp only [Except.map]
  rw [Prog.run_bind, run_readFile hfile]
  rfl

theorem run_process {path contents : Bytes} (hfile : db.files path = some contents)
    (hname : HasName contents) :
    (process E chunk path progress).run E.exec i db =
      (.ok (Loop.result (countDataRows (some contents)) (imported E (E.zone.date i) chunk
          (fileHeader contents) db.customer (dataRecords contents))),
        { db with
          customer := (imported E (E.zone.date i) chunk (fileHeader contents) db.customer
            (dataRecords contents)).table }) := by
  rw [run_process_eq hfile]
  exact run_importRecords _ _ hname

theorem run_process_of_not_hasName {path contents : Bytes}
    (hfile : db.files path = some contents) (hname : ¬ HasName contents) :
    (process E chunk path progress).run E.exec i db =
      (.error (.runtime "Import CSV is missing a name column."), db) := by
  have hnone : ((headerMap ((Csv.records contents).head?.getD [])).lookup
      (ascii "name")).isNone = true := by
    rw [Option.isNone_iff_eq_none]
    exact Option.not_isSome_iff_eq_none.mp hname
  rw [run_process_eq hfile, importRecords, if_pos hnone]
  rfl

theorem run_isMissing (fileName : Bytes) :
    (isMissing E fileName).run E.exec i db =
      (.ok (fileName = [] || (db.files (customerImportFile E fileName)).isNone), db) := by
  unfold isMissing
  split_ifs with hempty
  · simp [hempty]
  · rw [Prog.run_map]
    simp [CustomerEnv.exec, Prog.stmt, Except.map, hempty]

/-- The job imports the file and removes it. -/
theorem run_handle {file contents : Bytes} (hne : basename file ≠ [])
    (hfile : db.files (customerImportFile E (basename file)) = some contents)
    (hname : HasName contents) :
    (handle E file progress).run E.exec i db =
      (.ok (Loop.result (countDataRows (some contents)) (imported E (E.zone.date i) chunkSize
          (fileHeader contents) db.customer (dataRecords contents))),
        CustomerDb.withFile
          { db with
            customer := (imported E (E.zone.date i) chunkSize (fileHeader contents) db.customer
              (dataRecords contents)).table }
          (customerImportFile E (basename file)) none) := by
  have hmissing : (isMissing E (basename file)).run E.exec i db = (.ok false, db) := by
    simp [run_isMissing, hne, hfile]
  unfold handle
  rw [Prog.run_bind, hmissing]
  simp only [Bool.false_eq_true, if_false]
  rw [Prog.run_tryFinally, run_process hfile hname]
  rfl

theorem run_handle_of_missing {file : Bytes}
    (hfile : db.files (customerImportFile E (basename file)) = none) :
    (handle E file progress).run E.exec i db =
      (.error (.runtime "The import file is missing."), db) := by
  have hmissing : (isMissing E (basename file)).run E.exec i db = (.ok true, db) := by
    simp [run_isMissing, hfile]
  unfold handle
  rw [Prog.run_bind, hmissing]
  rfl

theorem existsByName_iff {t : Table CustomerRow} {name : Bytes} :
    existsByName E t name none = true ↔
      ∃ r ∈ t.rows, r.live = true ∧ CustomerModel.sqlEq E r.name name = true := by
  simp [existsByName, CustomerModel.existsByColumn, CustomerModel.taken, Table.affected_pos,
    CustomerRow.live, and_comm]

theorem existsByEmail_iff {t : Table CustomerRow} {email : Bytes} :
    existsByEmail E t email none = true ↔
      ∃ r ∈ t.rows, r.live = true ∧ ∃ e ∈ r.email, CustomerModel.sqlEq E e email = true := by
  simp [existsByEmail, CustomerModel.existsByColumn, CustomerModel.taken, Table.affected_pos,
    CustomerRow.live, Option.any_eq_true, and_comm]

theorem known_iff {t : Table CustomerRow} {d : CustomerData} :
    known E t d = true ↔ ∃ r ∈ t.rows, r.live = true ∧ ¬ r.toCustomerData.Apart E d := by
  have hnot : ∀ r : CustomerRow, ¬ r.toCustomerData.Apart E d ↔
      CustomerModel.sqlEq E r.name d.name = true
        ∨ ∃ e ∈ d.email, ∃ e' ∈ r.email, CustomerModel.sqlEq E e' e = true := by
    intro r
    simp only [CustomerData.Apart, not_and_or, not_forall, Bool.not_eq_false, exists_prop]
    refine or_congr Iff.rfl ⟨?_, ?_⟩
    · rintro ⟨e, he, e', he', h⟩
      exact ⟨e', he', e, he, h⟩
    · rintro ⟨e, he, e', he', h⟩
      exact ⟨e', he', e, he, h⟩
  simp only [known, Bool.or_eq_true, existsByName_iff, Option.any_eq_true, existsByEmail_iff, hnot]
  constructor
  · rintro (⟨r, hr, hlive, h⟩ | ⟨e, he, r, hr, hlive, e', he', h⟩)
    · exact ⟨r, hr, hlive, .inl h⟩
    · exact ⟨r, hr, hlive, .inr ⟨e, he, e', he', h⟩⟩
  · rintro ⟨r, hr, hlive, h | ⟨e, he, e', he', h⟩⟩
    · exact .inl ⟨r, hr, hlive, h⟩
    · exact .inr ⟨e, he, r, hr, hlive, e', he', h⟩

theorem not_apart_self (d : CustomerData) : ¬ d.Apart E d := by
  simp [CustomerData.Apart, CustomerModel.sqlEq]

section InsertAll

variable {t : Table CustomerRow} {ds ds' : List CustomerData} {d : CustomerData}

@[simp] theorem insertAll_nil : insertAll now t [] = t := rfl

theorem insertAll_append :
    insertAll now t (ds ++ ds') = insertAll now (insertAll now t ds) ds' := by
  simp [insertAll, createMany]

/-- The new rows come after the old ones, in order, and are live. -/
theorem insertAll_rows (now : LocalTime) (t : Table CustomerRow) (ds : List CustomerData) :
    ∃ new, (insertAll now t ds).rows = t.rows ++ new
      ∧ new.map (·.toCustomerData) = ds ∧ ∀ r ∈ new, r.live = true := by
  induction ds generalizing t with
  | nil => exact ⟨[], by simp⟩
  | cons d ds ih =>
    obtain ⟨new, hrows, hdata, hlive⟩ := ih (t.insert (NewCustomer.row (newRow now d)))
    refine ⟨NewCustomer.row (newRow now d) t.autoIncrement :: new, ?_, ?_, ?_⟩
    · rw [List.append_cons]
      exact hrows
    · rw [List.map_cons, hdata]
      rfl
    · intro r hr
      rcases List.mem_cons.mp hr with rfl | hr
      · rfl
      · exact hlive r hr

theorem insertAll_injective (h : insertAll now t ds = insertAll now t ds') : ds = ds' := by
  obtain ⟨new, hrows, rfl, -⟩ := insertAll_rows now t ds
  obtain ⟨new', hrows', rfl, -⟩ := insertAll_rows now t ds'
  rw [h, hrows'] at hrows
  rw [List.append_cancel_left hrows]

theorem known_insertAll : known E (insertAll now t ds) d = true ↔
    known E t d = true ∨ ∃ e ∈ ds, ¬ e.Apart E d := by
  obtain ⟨new, hrows, rfl, hlive⟩ := insertAll_rows now t ds
  simp only [known_iff, hrows, List.mem_append, List.mem_map]
  constructor
  · rintro ⟨r, hr | hr, hl, hnot⟩
    · exact .inl ⟨r, hr, hl, hnot⟩
    · exact .inr ⟨_, ⟨r, hr, rfl⟩, hnot⟩
  · rintro (⟨r, hr, hl, hnot⟩ | ⟨_, ⟨r, hr, rfl⟩, hnot⟩)
    · exact ⟨r, .inl hr, hl, hnot⟩
    · exact ⟨r, .inr hr, hlive r hr, hnot⟩

theorem known_insertAll_of_known (h : known E t d = true) :
    known E (insertAll now t ds) d = true := known_insertAll.mpr (.inl h)

end InsertAll

/-! ## The loop -/

section Loop

variable {x : Loop} {line : Csv.Record} {lines pre : List Csv.Record} {d parsed : CustomerData}

theorem feed_of_accepted (h : verdict E header x line = .accepted parsed) :
    feed E now chunk header x line =
      let st := ImportState.accept E { x.st with processed := x.st.processed + 1 } parsed
      flushed now (chunk ≤ st.batch.length) ⟨x.table, st⟩ := by
  simp only [feed, h]

/-- Where a record is not accepted, the table, the batch and what was seen stay. -/
theorem feed_of_not_accepted (now : LocalTime) (chunk : ℕ)
    (h : ∀ parsed, verdict E header x line ≠ .accepted parsed) :
    (feed E now chunk header x line).table = x.table
      ∧ (feed E now chunk header x line).st.batch = x.st.batch
      ∧ (feed E now chunk header x line).st.seenNames = x.st.seenNames
      ∧ (feed E now chunk header x line).st.seenEmails = x.st.seenEmails := by
  unfold feed
  cases hv : verdict E header x line with
  | accepted parsed => exact absurd hv (h parsed)
  | _ => exact ⟨rfl, rfl, rfl, rfl⟩

theorem of_accepted (h : verdict E header x line = .accepted parsed) :
    isEmptyRow line = false ∧ parsed = parseRow line header
      ∧ validateRow E parsed x.st.seenNames x.st.seenEmails = none
      ∧ known E x.table parsed = false := by
  unfold verdict at h
  by_cases hempty : isEmptyRow line = true
  · simp [hempty] at h
  · cases hvalid : validateRow E (parseRow line header) x.st.seenNames x.st.seenEmails with
    | some error => simp [hempty, hvalid] at h
    | none =>
      by_cases hknown : known E x.table (parseRow line header) = true
      · simp [hempty, hvalid, hknown] at h
      · simp only [hempty, hvalid, hknown, Bool.false_eq_true, if_false,
          Verdict.accepted.injEq] at h
        subst h
        exact ⟨by simpa using hempty, rfl, hvalid, by simpa using hknown⟩

/-- Whether it is due or not, a flush leaves the rows of the table and those that wait. -/
theorem insertAll_flushed (due : Bool) :
    insertAll now (flushed now due x).table (flushed now due x).st.batch =
      insertAll now x.table x.st.batch := by
  cases due <;> rfl

theorem insertAll_feed :
    insertAll now (feed E now chunk header x line).table (feed E now chunk header x line).st.batch =
      insertAll now x.table (x.st.batch ++ (verdict E header x line).batched) := by
  cases hv : verdict E header x line with
  | accepted parsed =>
    rw [feed_of_accepted hv]
    exact insertAll_flushed _
  | _ =>
    have hnot : ∀ parsed, verdict E header x line ≠ .accepted parsed := by simp [hv]
    obtain ⟨htable, hbatch, -, -⟩ := feed_of_not_accepted now chunk hnot
    rw [htable, hbatch]
    simp [Verdict.batched]

/-- The rows that a pass leaves, with those still to come. -/
theorem insertAll_accepted_cons :
    insertAll now (feed E now chunk header x line).table ((feed E now chunk header x line).st.batch
        ++ accepted E now chunk header (feed E now chunk header x line) lines) =
      insertAll now x.table (x.st.batch ++ accepted E now chunk header x (line :: lines)) := by
  rw [insertAll_append, insertAll_feed, ← insertAll_append, List.append_assoc]
  rfl

theorem insertAll_feedAll :
    insertAll now (feedAll E now chunk header x lines).table
        (feedAll E now chunk header x lines).st.batch =
      insertAll now x.table (x.st.batch ++ accepted E now chunk header x lines) := by
  induction lines generalizing x with
  | nil => simp [feedAll, accepted]
  | cons line lines ih =>
    rw [← insertAll_accepted_cons]
    exact ih

theorem finished_table : (finished now x).table = insertAll now x.table x.st.batch := by
  unfold finished
  by_cases h : x.st.batch = []
  · simp [flushed, h]
  · simp [flushed, h]

/-- The table ends with the accepted records after the rows it had. -/
theorem imported_table {t : Table CustomerRow} :
    (imported E now chunk header t lines).table =
      insertAll now t (accepted E now chunk header ⟨t, ImportState.initial⟩ lines) := by
  unfold imported
  rw [finished_table, insertAll_feedAll]
  rfl

theorem count_feed :
    (feed E now chunk header x line).st.imported
        + (feed E now chunk header x line).st.batch.length =
      x.st.imported + x.st.batch.length + (verdict E header x line).batched.length := by
  cases hv : verdict E header x line with
  | accepted parsed =>
    rw [feed_of_accepted hv]
    simp only [flushed]
    split_ifs <;> simp [ImportState.accept, Verdict.batched] <;> omega
  | _ => simp [feed, hv, Verdict.batched, ImportState.reject]

theorem count_feedAll :
    (feedAll E now chunk header x lines).st.imported
        + (feedAll E now chunk header x lines).st.batch.length =
      x.st.imported + x.st.batch.length + (accepted E now chunk header x lines).length := by
  induction lines generalizing x with
  | nil => rfl
  | cons line lines ih =>
    have hfeed := @count_feed E now chunk header x line
    have hrest := ih (x := feed E now chunk header x line)
    simp only [accepted, List.length_append]
    change (feedAll E now chunk header (feed E now chunk header x line) lines).st.imported
      + (feedAll E now chunk header (feed E now chunk header x line) lines).st.batch.length = _
    omega

theorem imported_count {t : Table CustomerRow} :
    (imported E now chunk header t lines).st.imported =
      (accepted E now chunk header ⟨t, ImportState.initial⟩ lines).length := by
  have hcount := @count_feedAll E now chunk header ⟨t, ImportState.initial⟩ lines
  simp only [ImportState.initial, List.length_nil] at hcount
  unfold imported finished flushed
  split_ifs with hdue
  · simp only [ImportState.initial]
    omega
  · have hnil : (feedAll E now chunk header ⟨t, ImportState.initial⟩ lines).st.batch = [] := by
      simpa using hdue
    simp only [ImportState.initial] at hnil ⊢
    rw [hnil] at hcount
    simpa using hcount

theorem feedAll_append (post : List Csv.Record) :
    feedAll E now chunk header x (lines ++ post) =
      feedAll E now chunk header (feedAll E now chunk header x lines) post :=
  List.foldl_append

theorem known_feed (h : known E x.table d = true) :
    known E (feed E now chunk header x line).table d = true := by
  cases hv : verdict E header x line with
  | accepted parsed =>
    rw [feed_of_accepted hv]
    simp only [flushed]
    split_ifs
    · exact known_insertAll_of_known h
    · exact h
  | _ =>
    rw [(feed_of_not_accepted now chunk (by simp [hv])).1]
    exact h

/-- No accepted record is one that the table has known. -/
theorem known_of_accepted (h : d ∈ accepted E now chunk header x lines) :
    known E x.table d = false := by
  induction lines generalizing x with
  | nil => simp [accepted] at h
  | cons line lines ih =>
    rcases List.mem_append.mp h with h | h
    · cases hv : verdict E header x line with
      | accepted parsed =>
        rw [hv] at h
        rw [List.mem_singleton.mp h]
        exact (of_accepted hv).2.2.2
      | _ => simp [hv, Verdict.batched] at h
    · have hlater := ih h
      by_contra hknown
      rw [known_feed (by simpa using hknown)] at hlater
      cases hlater

/-- No record that waits is one the table knows. -/
def Loop.Fresh (E : CustomerEnv) (x : Loop) : Prop := ∀ d ∈ x.st.batch, known E x.table d = false

theorem Loop.Fresh.feed (h : x.Fresh E) : (feed E now chunk header x line).Fresh E := by
  cases hv : verdict E header x line with
  | accepted parsed =>
    rw [feed_of_accepted hv]
    simp only [flushed]
    split_ifs
    · exact fun d hd => by simp at hd
    · intro d hd
      rcases List.mem_append.mp hd with hd | hd
      · exact h d hd
      · rw [List.mem_singleton.mp hd]
        exact (of_accepted hv).2.2.2
  | _ =>
    have hnot : ∀ parsed, verdict E header x line ≠ .accepted parsed := by simp [hv]
    obtain ⟨htable, hbatch, -, -⟩ := feed_of_not_accepted now chunk hnot
    intro d hd
    rw [htable]
    exact h d (hbatch ▸ hd)

theorem Loop.Fresh.feedAll (h : x.Fresh E) : (feedAll E now chunk header x lines).Fresh E := by
  induction lines generalizing x with
  | nil => exact h
  | cons line lines ih => exact ih h.feed

end Loop

end CustomerImportJob

end SlimStarter
