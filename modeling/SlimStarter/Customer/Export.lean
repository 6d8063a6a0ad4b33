import SlimStarter.CsvRoundTrip
import SlimStarter.Customer.Chunks
import SlimStarter.Customer.Request

/-!
# `CustomerExportJob`

The export job, and that the import reads back what it writes. A file of an export without filters
has the live customers in the order of their ids (`run_handle`); where they are normalised and valid
and their names and emails pairwise different, an import of the file into an empty table inserts
these customers in this order and refuses nothing (`import_export`).

`ExportStmt` names what the job issues. The text of a stored `datetime` is the driver's; whatever it
is, the import does not read it.
-/

namespace SlimStarter

/-- `CustomerModel::iterateForExport`. -/
def CustomerModel.iterateForExport (E : CustomerEnv) (t : Table CustomerRow) (keywords : Bytes)
    (status : Option Bytes) : List CustomerRow :=
  (CustomerModel.selected E t keywords status).insertionSort fun a b => a.id ≤ b.id

/-- The statements of the export job. -/
inductive ExportStmt where
  | countGet (keywords : Bytes) (status : Option Bytes)
  | iterateForExport (keywords : Bytes) (status : Option Bytes)
  | openFile (path : Bytes)
  | writeFile (path text : Bytes)
  | progress (percent : ℕ) (message : String)
deriving DecidableEq, Repr

@[reducible] def ExportStmt.Res : ExportStmt → Type
  | countGet .. => ℕ
  | iterateForExport .. => List CustomerRow
  | openFile _ => Bool
  | writeFile .. => Unit
  | progress .. => Unit

/-- Execute one statement; an open truncates the file and a write appends to it. -/
def CustomerEnv.execExport (E : CustomerEnv) :
    Prog.Handler ExportStmt ExportStmt.Res Int Failure CustomerDb :=
  fun op _ db =>
    match op with
    | .countGet keywords status => (.ok (CustomerModel.countGet E db.customer keywords status), db)
    | .iterateForExport keywords status =>
      (.ok (CustomerModel.iterateForExport E db.customer keywords status), db)
    | .openFile path => (.ok true, db.withFile path (some []))
    | .writeFile path text => (.ok (), db.withFile path (some ((db.files path).getD [] ++ text)))
    | .progress _ _ => (.ok (), db)

abbrev ExportProg (α : Type) : Type := Prog ExportStmt ExportStmt.Res Int Failure α

/-- `generatedAt` is the instant whose `DATE_ATOM` text is returned. -/
structure ExportResult where
  fileName : Bytes
  rowCount : ℕ
  generatedAt : Int
deriving DecidableEq, Repr

namespace CustomerExportJob

def progressInterval : ℕ := 200

/-- `CustomerExportJob::COLUMNS`. -/
def columns : List Bytes :=
  [ascii "id", ascii "name", ascii "email", ascii "phone", ascii "company", ascii "status",
    ascii "address", ascii "notes", ascii "created_at", ascii "updated_at"]

/-- The UTF-8 byte order mark. -/
def bom : Bytes := [0xEF, 0xBB, 0xBF]

/-- Issue one statement. -/
abbrev emit (op : ExportStmt) : ExportProg op.Res := Prog.stmt op

section Job

variable (E : CustomerEnv) (datetime : LocalTime → Bytes)

/-- `Storage::customerExportFile`. -/
def customerExportFile (jobId : ℕ) : Bytes :=
  implode [47] [E.storageRoot, ascii "exports",
    ascii "customer-export-" ++ natString jobId ++ ascii ".csv"]

/-- The fields of a line. -/
def fields (row : CustomerRow) : List Bytes :=
  [natString row.id, row.name, row.email.getD [], row.phone.getD [], row.company.getD [],
    row.status, row.address.getD [], row.notes.getD [], datetime row.createdAt,
    (row.updatedAt.map datetime).getD []]

def report (progress : Bool) (total processed : ℕ) : ExportProg Unit :=
  if progress ∧ processed % progressInterval = 0 then
    emit (.progress (if 0 < total then min 99 (processed * 100 / total) else 99)
      s!"Exported {processed} of {total} rows")
  else pure ()

/-- The loop over the rows; it returns how many were written. -/
def exportRows (path : Bytes) (progress : Bool) (total : ℕ) :
    ℕ → List CustomerRow → ExportProg ℕ
  | processed, [] => pure processed
  | processed, row :: rows => do
    emit (.writeFile path (Csv.fputcsv (fields datetime row)))
    report progress total (processed + 1)
    exportRows path progress total (processed + 1) rows

/-- `handle` of a payload with these filters; `progress` says whether there is a callback. -/
def handle (jobId : ℕ) (keywords : Bytes) (status : Option Bytes) (progress : Bool) :
    ExportProg ExportResult := do
  let keywords := trim keywords
  let status := status.filter (· ≠ [])
  let total ← emit (.countGet keywords status)
  let path := customerExportFile E jobId
  let opened ← emit (.openFile path)
  if opened then do
    emit (.writeFile path bom)
    emit (.writeFile path (Csv.fputcsv columns))
    let rows ← emit (.iterateForExport keywords status)
    let processed ← exportRows datetime path progress total 0 rows
    if progress then emit (.progress 100 s!"Export complete ({processed} rows)") else pure ()
    let now ← Prog.time
    pure { fileName := basename path, rowCount := processed, generatedAt := now }
  else .throw (.runtime "Could not open the export file for writing.")

end Job

variable {E : CustomerEnv} {datetime : LocalTime → Bytes} {i : Int} {db : CustomerDb}

/-- The file of these rows. -/
def contents (datetime : LocalTime → Bytes) (rows : List CustomerRow) : Bytes :=
  bom ++ (Csv.fputcsv columns ++ rows.flatMap fun row => Csv.fputcsv (fields datetime row))

theorem withFile_withFile {path : Bytes} {a b : Option Bytes} :
    (db.withFile path a).withFile path b = db.withFile path b := by
  simp [CustomerDb.withFile]

theorem withFile_files {path : Bytes} {a : Option Bytes} : (db.withFile path a).files path = a := by
  simp [CustomerDb.withFile]

theorem run_report {progress : Bool} {total processed : ℕ} :
    (report progress total processed).run E.execExport i db = (.ok (), db) := by
  unfold report
  split_ifs <;> rfl

theorem run_exportRows {path text : Bytes} {progress : Bool} {total : ℕ} (processed : ℕ)
    (rows : List CustomerRow) :
    (exportRows datetime path progress total processed rows).run E.execExport i
        (db.withFile path (some text)) =
      (.ok (processed + rows.length), db.withFile path
        (some (text ++ rows.flatMap fun row => Csv.fputcsv (fields datetime row)))) := by
  induction rows generalizing processed text with
  | nil => simp [exportRows]
  | cons row rows ih =>
    have hwrite : (emit (.writeFile path (Csv.fputcsv (fields datetime row)))).run E.execExport i
        (db.withFile path (some text)) =
          (.ok (), db.withFile path (some (text ++ Csv.fputcsv (fields datetime row)))) := by
      simp [CustomerEnv.execExport, Prog.stmt, withFile_files, withFile_withFile]
    unfold exportRows
    rw [Prog.run_bind, hwrite]
    simp only
    rw [Prog.run_bind, run_report]
    simp only
    rw [ih, List.append_assoc, List.flatMap_cons, List.length_cons, Nat.add_assoc,
      Nat.add_comm 1]

/-- The job writes the selected rows in the order of their ids. -/
theorem run_handle (jobId : ℕ) (keywords : Bytes) (status : Option Bytes) (progress : Bool) :
    let rows := CustomerModel.iterateForExport E db.customer (trim keywords)
      (status.filter (· ≠ []))
    (handle E datetime jobId keywords status progress).run E.execExport i db =
      (.ok ⟨basename (customerExportFile E jobId), rows.length, i⟩,
        db.withFile (customerExportFile E jobId) (some (contents datetime rows))) := by
  intro rows
  simp only [handle, Prog.stmt_bind, Prog.run_call, CustomerEnv.execExport, Prog.resume_ok,
    if_true, withFile_files, withFile_withFile, Option.getD_some, List.nil_append]
  rw [Prog.run_bind, run_exportRows]
  have hrows : CustomerModel.iterateForExport E
      (db.withFile (customerExportFile E jobId) (some (bom ++ Csv.fputcsv columns))).customer
      (trim keywords) (status.filter (· ≠ [])) = rows := rfl
  simp only [hrows, contents, Nat.zero_add, List.append_assoc]
  cases progress <;> rfl

end CustomerExportJob

namespace CustomerCreateRequest

variable {d : CustomerData}

/-- The fields are as `fromRequest` leaves those of some request. -/
def Normalised (d : CustomerData) : Prop := ∃ body, (fromRequest body).toArray = d

theorem nullableString_some {value : Mixed} {lowercase : Bool} {s : Bytes}
    (h : nullableString value lowercase = some s) :
    s ≠ [] ∧ trim s = s ∧ (lowercase = true → strtolower s = s) := by
  unfold nullableString at h
  split at h
  · rename_i text
    split_ifs at h with hempty hlower
    · obtain rfl := Option.some.inj h
      refine ⟨by simpa [strtolower] using hempty, by simp, fun _ => by simp⟩
    · obtain rfl := Option.some.inj h
      exact ⟨hempty, by simp, fun hl => absurd hl hlower⟩
  · cases h

theorem Normalised.name (h : Normalised d) : trim d.name = d.name := by
  obtain ⟨body, rfl⟩ := h
  simp [fromRequest]

theorem Normalised.email {s : Bytes} (h : Normalised d) (hs : d.email = some s) :
    s ≠ [] ∧ trim s = s ∧ strtolower s = s := by
  obtain ⟨body, rfl⟩ := h
  obtain ⟨hne, htrim, hlower⟩ := nullableString_some hs
  exact ⟨hne, htrim, hlower rfl⟩

theorem Normalised.optional {value : Option Bytes} {s : Bytes} (h : Normalised d)
    (hvalue : value ∈ [d.phone, d.company, d.address, d.notes]) (hs : value = some s) :
    s ≠ [] ∧ trim s = s := by
  obtain ⟨body, rfl⟩ := h
  simp only [List.mem_cons, List.not_mem_nil, or_false] at hvalue
  rcases hvalue with rfl | rfl | rfl | rfl <;>
    exact ⟨(nullableString_some hs).1, (nullableString_some hs).2.1⟩

end CustomerCreateRequest

namespace CustomerImportJob

open CustomerCreateRequest (Normalised wellFormed)
open CustomerExportJob (fields contents)

variable {E : CustomerEnv} {datetime : LocalTime → Bytes} {row : CustomerRow}

theorem fileHeader_contents (datetime : LocalTime → Bytes) (rows : List CustomerRow) :
    fileHeader (contents datetime rows) = CustomerExportJob.columns.zipIdx
      ∧ dataRecords (contents datetime rows) =
        rows.map fun row => (fields datetime row).map some := by
  let first : List Bytes := (CustomerExportJob.bom ++ ascii "id") :: CustomerExportJob.columns.tail
  have hfirst : CustomerExportJob.bom ++ Csv.fputcsv CustomerExportJob.columns
      = Csv.fputcsv first := by decide +kernel
  have hheader : headerMap (first.map some) = CustomerExportJob.columns.zipIdx := by
    decide +kernel
  have hrecords : Csv.records (contents datetime rows) =
      first.map some :: rows.map fun row => (fields datetime row).map some := by
    unfold contents
    rw [← List.append_assoc, hfirst, Csv.records_fputcsv_cons (by decide)]
    have hrows : rows.flatMap (fun row => Csv.fputcsv (fields datetime row))
        = (rows.map (fields datetime)).flatMap Csv.fputcsv := by
      rw [List.flatMap_map]
    rw [hrows, Csv.records_fputcsv, List.map_map]
    · rfl
    · intro line hline
      obtain ⟨row, -, rfl⟩ := List.mem_map.mp hline
      simp [fields]
  simp only [fileHeader, dataRecords, hrecords, List.head?_cons, Option.getD_some, List.tail_cons]
  exact ⟨hheader, trivial⟩

/-- A text that is trimmed and not empty, or null and written as the empty text, is read back. -/
theorem value_fields {column : Bytes} {index : ℕ} {o : Option Bytes}
    (hcolumn : CustomerExportJob.columns.zipIdx.lookup column = some index)
    (hfield : ((fields datetime row).map some).getD index none = some (o.getD []))
    (ho : ∀ s, o = some s → s ≠ [] ∧ trim s = s) :
    value ((fields datetime row).map some) CustomerExportJob.columns.zipIdx column = o := by
  have hraw : rawValue ((fields datetime row).map some) CustomerExportJob.columns.zipIdx column =
      some (o.getD []) := by
    unfold rawValue
    rw [hcolumn]
    exact hfield
  rw [value_eq, hraw, Option.bind_some]
  cases o with
  | none => rfl
  | some s =>
    obtain ⟨hne, htrim⟩ := ho s rfl
    simp [htrim, hne]

/-- The import parses the line of a customer into the data of the customer. -/
theorem parseRow_fields (hnorm : Normalised row.toCustomerData)
    (hwell : wellFormed E row.toCustomerData = true) :
    parseRow ((fields datetime row).map some) CustomerExportJob.columns.zipIdx
      = row.toCustomerData := by
  simp only [wellFormed, Bool.and_eq_true, decide_eq_true_eq] at hwell
  obtain ⟨⟨hname, hstatus⟩, -⟩ := hwell
  have hall : ∀ status ∈ CustomerStatus.all,
      status ≠ [] ∧ trim status = status ∧ strtolower status = status := by decide +kernel
  obtain ⟨hne, htrim, hlower⟩ := hall row.status (by simpa [CustomerStatus.isValid] using hstatus)
  have hindex : ["name", "email", "phone", "company", "status", "address", "notes"].map
      (fun column => CustomerExportJob.columns.zipIdx.lookup (ascii column)) =
        [some 1, some 2, some 3, some 4, some 5, some 6, some 7] := by decide +kernel
  simp only [List.map_cons, List.map_nil, List.cons.injEq, and_true] at hindex
  obtain ⟨h₁, h₂, h₃, h₄, h₅, h₆, h₇⟩ := hindex
  have hname' : ∀ s, some row.name = some s → s ≠ [] ∧ trim s = s := by
    rintro s ⟨⟩
    exact ⟨hname, hnorm.name⟩
  have hstatus' : ∀ s, some row.status = some s → s ≠ [] ∧ trim s = s := by
    rintro s ⟨⟩
    exact ⟨hne, htrim⟩
  have hemail' : ∀ s, row.email = some s → s ≠ [] ∧ trim s = s :=
    fun s hs => ⟨(hnorm.email hs).1, (hnorm.email hs).2.1⟩
  have hlowered : row.email.map strtolower = row.email := by
    cases hemail : row.email with
    | none => rfl
    | some s => rw [Option.map_some, (hnorm.email hemail).2.2]
  have hoptional : ∀ value ∈ [row.phone, row.company, row.address, row.notes], ∀ s,
      value = some s → s ≠ [] ∧ trim s = s := fun value hvalue s hs => hnorm.optional hvalue hs
  simp only [parseRow, value_fields h₁ rfl hname', value_fields h₂ rfl hemail',
    value_fields h₃ rfl (hoptional row.phone (by simp)),
    value_fields h₄ rfl (hoptional row.company (by simp)), value_fields h₅ rfl hstatus',
    value_fields h₆ rfl (hoptional row.address (by simp)),
    value_fields h₇ rfl (hoptional row.notes (by simp)), hlowered, Option.map_some,
    Option.getD_some, hlower]

theorem isEmptyRow_fields (hnorm : Normalised row.toCustomerData) (hname : row.name ≠ []) :
    isEmptyRow ((fields datetime row).map some) = false := by
  have htrim := hnorm.name
  simp only [isEmptyRow, fields, List.map_cons, List.all_cons, Option.all_some, htrim, hname,
    decide_false, Bool.and_false, Bool.false_and]

variable {now : LocalTime} {chunk : ℕ} {header : List (Bytes × ℕ)}
variable {x : Loop} {line : Csv.Record} {lines : List Csv.Record} {d d' parsed : CustomerData}

/-- Neither the database nor the file takes one record for the other. -/
def Different (E : CustomerEnv) (d d' : CustomerData) : Prop :=
  d.Apart E d' ∧ E.mbStrtolower d.name ≠ E.mbStrtolower d'.name

/-- The loop has seen nothing that looks like this record. -/
structure Unseen (E : CustomerEnv) (now : LocalTime) (x : Loop) (d : CustomerData) : Prop where
  name : E.mbStrtolower d.name ∉ x.st.seenNames
  email : ∀ email ∈ d.email, email ∉ x.st.seenEmails
  table : known E (x.flush now).table d = false

theorem Unseen.verdict (h : Unseen E now x (parseRow line header))
    (hempty : isEmptyRow line = false) (hwell : wellFormed E (parseRow line header) = true) :
    verdict E header x line = .accepted (parseRow line header) := by
  have hvalid := (validateRow_eq_none_iff h.name h.email).mpr hwell
  have hknown : ¬ known E x.table (parseRow line header) = true := by
    intro hk
    have := (known_flush now).mpr (.inl hk)
    rw [h.table] at this
    cases this
  simp [CustomerImportJob.verdict, hempty, hvalid, hknown]

theorem Different.email (h : Different E d d') {email : Bytes} (hd : d.email = some email) :
    d'.email ≠ some email := by
  intro hd'
  have := h.1.2 email hd email hd'
  simp [CustomerModel.sqlEq] at this

/-- A record that was accepted stands in the way of no record that differs from it. -/
theorem Unseen.feed (h : Unseen E now x d) (hdiff : Different E parsed d)
    (hv : CustomerImportJob.verdict E header x line = .accepted parsed) :
    Unseen E now (feed E now chunk header x line) d := by
  have hflush : (CustomerImportJob.feed E now chunk header x line).flush now =
      ⟨insertAll now (x.flush now).table [parsed],
        ((CustomerImportJob.feed E now chunk header x line).flush now).st⟩ := by
    rw [feed_of_accepted hv]
    simp only
    rw [flush_flushed]
    simp [Loop.flush, flushed, ImportState.accept, insertAll_append]
  have hseen : (CustomerImportJob.feed E now chunk header x line).st.seenNames =
        E.mbStrtolower parsed.name :: x.st.seenNames
      ∧ (CustomerImportJob.feed E now chunk header x line).st.seenEmails =
        parsed.email.toList ++ x.st.seenEmails := by
    rw [feed_of_accepted hv]
    simp only [flushed]
    split_ifs <;> exact ⟨rfl, rfl⟩
  refine ⟨?_, ?_, ?_⟩
  · rw [hseen.1, List.mem_cons, not_or]
    exact ⟨hdiff.2.symm, h.name⟩
  · intro email hemail
    rw [hseen.2, List.mem_append, not_or]
    refine ⟨fun hmem => ?_, h.email email hemail⟩
    exact hdiff.email (by simpa using hmem) hemail
  · rw [hflush, ← Bool.not_eq_true, known_insertAll, not_or]
    refine ⟨by simp [h.table], ?_⟩
    rintro ⟨e, he, hnot⟩
    obtain rfl := List.mem_singleton.mp he
    exact hnot hdiff.1

/-- Valid records that differ from each other and from what was seen are all accepted. -/
theorem feedAll_of_different (chunk : ℕ) (hwell : ∀ line ∈ lines, isEmptyRow line = false
      ∧ wellFormed E (parseRow line header) = true)
    (hdiff : (lines.map (parseRow · header)).Pairwise (Different E))
    (hunseen : ∀ line ∈ lines, Unseen E now x (parseRow line header)) :
    accepted E now chunk header x lines = lines.map (parseRow · header)
      ∧ (feedAll E now chunk header x lines).st.skipped = x.st.skipped
      ∧ (feedAll E now chunk header x lines).st.failed = x.st.failed
      ∧ (feedAll E now chunk header x lines).st.errors = x.st.errors := by
  induction lines generalizing x with
  | nil => exact ⟨rfl, rfl, rfl, rfl⟩
  | cons line lines ih =>
    rw [List.forall_mem_cons] at hwell hunseen
    rw [List.map_cons, List.pairwise_cons] at hdiff
    have hv := hunseen.1.verdict hwell.1.1 hwell.1.2
    obtain ⟨hacc, hskipped, hfailed, herrors⟩ := ih (x := feed E now chunk header x line) hwell.2
      hdiff.2 fun line' hline' => (hunseen.2 line' hline').feed
        (hdiff.1 _ (List.mem_map_of_mem hline')) hv
    have hst : (feed E now chunk header x line).st.skipped = x.st.skipped
        ∧ (feed E now chunk header x line).st.failed = x.st.failed
        ∧ (feed E now chunk header x line).st.errors = x.st.errors := by
      rw [feed_of_accepted hv]
      simp only [flushed]
      split_ifs <;> exact ⟨rfl, rfl, rfl⟩
    refine ⟨?_, hskipped.trans hst.1, hfailed.trans hst.2.1, herrors.trans hst.2.2⟩
    rw [accepted, hv, hacc]
    rfl

/-! ## The round trip -/

open CustomerCreateRequest (validate validate_eq_nil_iff)

theorem imported_of_different (E : CustomerEnv) (now : LocalTime) (chunk : ℕ)
    {t : Table CustomerRow} (ht : t.rows = [])
    (hwell : ∀ line ∈ lines, isEmptyRow line = false
      ∧ wellFormed E (parseRow line header) = true)
    (hdiff : (lines.map (parseRow · header)).Pairwise (Different E)) :
    (imported E now chunk header t lines).table = insertAll now t (lines.map (parseRow · header))
      ∧ (imported E now chunk header t lines).st.imported = lines.length
      ∧ (imported E now chunk header t lines).st.skipped = 0
      ∧ (imported E now chunk header t lines).st.failed = 0
      ∧ (imported E now chunk header t lines).st.errors = [] := by
  have hunseen : ∀ line ∈ lines,
      Unseen E now ⟨t, ImportState.initial⟩ (parseRow line header) := by
    intro line _
    refine ⟨by simp [ImportState.initial], by simp [ImportState.initial], ?_⟩
    rw [← Bool.not_eq_true, known_flush, known_iff, ht]
    simp [ImportState.initial]
  obtain ⟨hacc, hskipped, hfailed, herrors⟩ :=
    feedAll_of_different chunk hwell hdiff hunseen
  rw [imported_table, imported_count, hacc]
  have hst : ∀ y : Loop, (finished now y).st.skipped = y.st.skipped
      ∧ (finished now y).st.failed = y.st.failed ∧ (finished now y).st.errors = y.st.errors := by
    intro y
    unfold finished flushed
    split_ifs <;> exact ⟨rfl, rfl, rfl⟩
  exact ⟨rfl, List.length_map _, (hst _).1.trans hskipped, (hst _).2.1.trans hfailed,
    (hst _).2.2.trans herrors⟩

variable {db db' : CustomerDb} {i j : Int} {jobId : ℕ} {progress progress' : Bool} {file : Bytes}

/-- The live customers in the order of their ids. -/
def liveCustomers (db : CustomerDb) : List CustomerRow :=
  (db.customer.rows.filter (·.live)).insertionSort fun a b => a.id ≤ b.id

theorem iterateForExport_eq :
    CustomerModel.iterateForExport E db.customer (trim []) (Option.filter (· ≠ []) none)
      = liveCustomers db := by
  have hselected : CustomerModel.selected E db.customer (trim []) (Option.filter (· ≠ []) none)
      = db.customer.rows.filter (·.live) := by
    refine List.filter_congr fun r _ => ?_
    have htrim : trim (trim []) = [] := rfl
    simp [CustomerModel.matchesFilters, CustomerModel.matchesKeyword, CustomerRow.live, htrim]
  simp only [CustomerModel.iterateForExport, hselected, liveCustomers]

theorem run_handle_all (jobId : ℕ) (progress : Bool) :
    (CustomerExportJob.handle E datetime jobId [] none progress).run E.execExport i db =
      (.ok ⟨basename (CustomerExportJob.customerExportFile E jobId), (liveCustomers db).length, i⟩,
        db.withFile (CustomerExportJob.customerExportFile E jobId)
          (some (contents datetime (liveCustomers db)))) := by
  have hrun := @CustomerExportJob.run_handle E datetime i db jobId [] none progress
  simpa only [iterateForExport_eq] using hrun

section Rows

variable {rows : List CustomerRow} (hrows : ∀ r ∈ rows, Normalised r.toCustomerData
  ∧ wellFormed E r.toCustomerData = true)

theorem hasName_contents (datetime : LocalTime → Bytes) (rows : List CustomerRow) :
    HasName (contents datetime rows) := by
  unfold HasName
  rw [(fileHeader_contents datetime rows).1]
  decide +kernel

include hrows

/-- Each record of the file is parsed as the customer that it was written for. -/
theorem parsed_contents (datetime : LocalTime → Bytes) :
    (dataRecords (contents datetime rows)).map
      (parseRow · (fileHeader (contents datetime rows))) = rows.map (·.toCustomerData) := by
  obtain ⟨hheader, hrecords⟩ := fileHeader_contents datetime rows
  rw [hheader, hrecords, List.map_map]
  exact List.map_congr_left fun r hr => parseRow_fields (hrows r hr).1 (hrows r hr).2

theorem wellFormed_contents (datetime : LocalTime → Bytes) :
    ∀ line ∈ dataRecords (contents datetime rows), isEmptyRow line = false
      ∧ wellFormed E (parseRow line (fileHeader (contents datetime rows))) = true := by
  obtain ⟨hheader, hrecords⟩ := fileHeader_contents datetime rows
  rw [hheader, hrecords, List.forall_mem_map]
  intro r hr
  obtain ⟨hnorm, hw⟩ := hrows r hr
  refine ⟨isEmptyRow_fields hnorm ?_, by rwa [parseRow_fields hnorm hw]⟩
  simp only [wellFormed, Bool.and_eq_true, decide_eq_true_eq] at hw
  exact hw.1.1

end Rows

/-- An import into an empty table of the file that an export without filters wrote inserts the live
customers, in the order of their ids, and refuses and skips nothing. -/
theorem import_export
    (hvalid : ∀ r ∈ db.customer.rows, r.live = true →
      Normalised r.toCustomerData ∧ validate E r.toCustomerData = [])
    (hdiff : (db.customer.rows.filter (·.live)).Pairwise fun r r' =>
      r.toCustomerData.Apart E r'.toCustomerData
        ∧ E.mbStrtolower r.name ≠ E.mbStrtolower r'.name)
    (hempty : db'.customer.rows = []) (hne : basename file ≠ [])
    (hfile : db'.files (customerImportFile E (basename file)) =
      ((CustomerExportJob.handle E datetime jobId [] none progress).run E.execExport i db).2.files
        (CustomerExportJob.customerExportFile E jobId)) :
    let customers := liveCustomers db
    let exported :=
      (CustomerExportJob.handle E datetime jobId [] none progress).run E.execExport i db
    let reimported := (handle E file progress').run E.exec j db'
    exported.1 = .ok ⟨basename (CustomerExportJob.customerExportFile E jobId), customers.length, i⟩
      ∧ reimported.2.customer.rows.map (·.toCustomerData) = customers.map (·.toCustomerData)
      ∧ (∀ r ∈ reimported.2.customer.rows, r.live = true)
      ∧ ∃ result, reimported.1 = .ok result ∧ result.imported = customers.length
        ∧ result.skipped = 0 ∧ result.failed = 0 ∧ result.errors = [] := by
  intro customers exported reimported
  have hexport : exported = _ := run_handle_all jobId progress
  have hcontents : db'.files (customerImportFile E (basename file)) =
      some (contents datetime customers) := by
    refine hfile.trans ?_
    change exported.2.files _ = _
    rw [hexport, CustomerExportJob.withFile_files]
  have hmem : ∀ r ∈ customers, Normalised r.toCustomerData
      ∧ wellFormed E r.toCustomerData = true := by
    intro r hr
    obtain ⟨hr, hlive⟩ := List.mem_filter.mp ((List.mem_insertionSort _).mp hr)
    exact ⟨(hvalid r hr hlive).1, (validate_eq_nil_iff.mp (hvalid r hr hlive).2).1⟩
  have hparsed := parsed_contents hmem datetime
  have hsymm : ∀ {r r' : CustomerRow}, Different E r.toCustomerData r'.toCustomerData →
      Different E r'.toCustomerData r.toCustomerData := fun h => ⟨h.1.symm, h.2.symm⟩
  have hdifferent : (customers.map (·.toCustomerData)).Pairwise (Different E) := by
    rw [List.pairwise_map]
    exact (List.Perm.pairwise_iff hsymm (List.perm_insertionSort _ _)).mpr hdiff
  have hrun : reimported = _ := run_handle hne hcontents (hasName_contents datetime customers)
  obtain ⟨htable, himported, hskipped, hfailed, herrors⟩ :=
    imported_of_different E (E.zone.date j) chunkSize hempty (wellFormed_contents hmem datetime)
      (by rwa [hparsed])
  rw [hparsed] at htable
  obtain ⟨new, hrows, hdata, hlive⟩ := insertAll_rows (E.zone.date j) db'.customer
    (customers.map (·.toCustomerData))
  rw [hempty, List.nil_append] at hrows
  have hfinal : reimported.2.customer.rows = new := by
    have hcustomer : reimported.2.customer = (imported E (E.zone.date j) chunkSize
        (fileHeader (contents datetime customers)) db'.customer
        (dataRecords (contents datetime customers))).table := by
      rw [hrun, CustomerDb.withFile]
    rw [hcustomer, htable, hrows]
  have hlength : (dataRecords (contents datetime customers)).length = customers.length := by
    simpa using congrArg List.length hparsed
  refine ⟨congrArg Prod.fst hexport, by rw [hfinal, hdata], by rwa [hfinal], _,
    congrArg Prod.fst hrun, ?_⟩
  simp only [Loop.result]
  exact ⟨himported.trans hlength, hskipped, hfailed, herrors⟩

end CustomerImportJob

/-! ## Sample customers -/

namespace CustomerSample

/-- A request with a name and an address. -/
def addressBody (name address : Bytes) : Bytes → Mixed :=
  fun field =>
    if field = ascii "name" then .string name
    else if field = ascii "address" then .string address
    else .null

def datetime (l : LocalTime) : Bytes := intString l.clock

/-- A customer that such a request created. -/
def addressRow (id : ℕ) (name address : Bytes) : CustomerRow :=
  NewCustomer.row { CustomerCreateRequest.fromRequest (addressBody name address) with
    avatarPath := none, createdAt := ⟨0⟩, updatedAt := ⟨0⟩ } id

/-- Two customers, out of the order of their ids, with a quote, a comma and a line break. -/
def twoCustomers : CustomerDb :=
  ⟨⟨[addressRow 2 (ascii "Ada \"A\", Ltd") (ascii "1 High St\r\nBath"),
    addressRow 1 (ascii "Bob") (ascii " ")], 3⟩, Redis.empty, fun _ => none⟩

/-- No customers, and a file of the export of the two. -/
def withExport : CustomerDb :=
  db.withFile importFile (((CustomerExportJob.handle env datetime 7 [] none true).run
    env.execExport 1000 twoCustomers).2.files (CustomerExportJob.customerExportFile env 7))

end CustomerSample

open CustomerImportJob CustomerSample in
theorem import_export_sample :
    let customers := liveCustomers twoCustomers
    let exported := (CustomerExportJob.handle env datetime 7 [] none true).run env.execExport 1000
      twoCustomers
    let reimported := (handle env importFile false).run env.exec 2000 withExport
    exported.1 = .ok ⟨basename (CustomerExportJob.customerExportFile env 7), customers.length, 1000⟩
      ∧ reimported.2.customer.rows.map (·.toCustomerData) = customers.map (·.toCustomerData)
      ∧ (∀ r ∈ reimported.2.customer.rows, r.live = true)
      ∧ ∃ result, reimported.1 = .ok result ∧ result.imported = customers.length
        ∧ result.skipped = 0 ∧ result.failed = 0 ∧ result.errors = [] :=
  @import_export env datetime twoCustomers withExport 1000 2000 7 true false importFile
    (by
      simp only [twoCustomers, List.forall_mem_cons]
      exact ⟨fun _ => ⟨⟨_, rfl⟩, by decide +kernel⟩, fun _ => ⟨⟨_, rfl⟩, by decide +kernel⟩,
        by simp⟩)
    (by decide +kernel) rfl (by decide +kernel) (by decide +kernel)

end SlimStarter
