import SlimStarter.Lib.Issued
import SlimStarter.Customer.Export
import SlimStarter.Customer.BadRows

/-!
# Progress

Both jobs call their progress callback from the end of a loop body, with a percentage of a total
that they have counted before the loop, and once more when they are done. The export comes to the
end of its body for every row, so that its calls are regular. The import does so for an accepted
record only: its calls are regular exactly where each record that is due for one is accepted
(`progress_regular_iff`).

The total of the import counts the lines of the file that `fgets` reads, and its loop the records
that `fgetcsv` reads. The two agree exactly where each record but the last takes one line
(`total_counts_records_iff`).
-/

namespace SlimStarter

/-- The percentage of a call of the progress callback. -/
def CustomerStmt.percent? : CustomerStmt → Option ℕ
  | progress percent _ => some percent
  | _ => none

/-- The statement does not call back. -/
def CustomerStmt.Silent (op : CustomerStmt) : Prop := op.percent? = none

def ExportStmt.percent? : ExportStmt → Option ℕ
  | progress percent _ => some percent
  | _ => none

/-- The percentages of the calls that a loop over `n` records makes in each pass, and of all calls
of its job: one call after every `interval` records, the percentages between 0 and 99 and never
decreasing, and one call with 100 at the end. -/
structure Regular (interval n : ℕ) (passes : List (List ℕ)) (calls : List ℕ) : Prop where
  length : passes.length = n
  every : ∀ k pass, passes[k]? = some pass →
    pass.length = if (k + 1) % interval = 0 then 1 else 0
  bounded : ∀ percent ∈ passes.flatten, percent ≤ 99
  sorted : passes.flatten.Pairwise (· ≤ ·)
  finished : calls = passes.flatten ++ [100]

namespace Progress

/-- The percentage after `processed` records. -/
def percentage (total processed : ℕ) : ℕ :=
  if 0 < total then min 99 (processed * 100 / total) else 99

/-- The calls after the record with the number `k`, which may or may not come to the call. -/
def reportsAfter (interval total k : ℕ) (comes : Bool) : List ℕ :=
  if comes ∧ k % interval = 0 then [percentage total k] else []

/-- The calls in each pass of a loop that has gone through `start` records. -/
def reports (interval total start : ℕ) (comes : List Bool) : List (List ℕ) :=
  (comes.zipIdx start).map fun r => reportsAfter interval total (r.2 + 1) r.1

variable {interval total start k percent : ℕ} {comes : List Bool}

theorem percentage_le (total processed : ℕ) : percentage total processed ≤ 99 := by
  unfold percentage
  split_ifs
  · exact min_le_left _ _
  · exact le_rfl

theorem percentage_mono {processed processed' : ℕ} (h : processed ≤ processed') :
    percentage total processed ≤ percentage total processed' := by
  unfold percentage
  split_ifs
  · exact min_le_min le_rfl (Nat.div_le_div_right (Nat.mul_le_mul_right 100 h))
  · exact le_rfl

theorem reports_cons (b : Bool) : reports interval total start (b :: comes) =
    reportsAfter interval total (start + 1) b :: reports interval total (start + 1) comes := rfl

theorem eq_of_mem_reportsAfter {b : Bool} (h : percent ∈ reportsAfter interval total k b) :
    percent = percentage total k := by
  unfold reportsAfter at h
  split_ifs at h
  · exact List.mem_singleton.mp h
  · cases h

/-- Each percentage is that of a record after the first `start`. -/
theorem mem_reports (h : percent ∈ (reports interval total start comes).flatten) :
    ∃ k, start < k ∧ percent = percentage total k := by
  obtain ⟨pass, hpass, hmem⟩ := List.mem_flatten.mp h
  obtain ⟨r, hr, rfl⟩ := List.mem_map.mp hpass
  exact ⟨r.2 + 1, Nat.lt_succ_of_le (List.le_snd_of_mem_zipIdx hr), eq_of_mem_reportsAfter hmem⟩

theorem sorted_reports : (reports interval total start comes).flatten.Pairwise (· ≤ ·) := by
  induction comes generalizing start with
  | nil => exact .nil
  | cons b comes ih =>
    rw [reports_cons, List.flatten_cons, List.pairwise_append]
    refine ⟨?_, ih, fun percent hpercent percent' hpercent' => ?_⟩
    · unfold reportsAfter
      split_ifs
      · exact List.pairwise_singleton _ _
      · exact .nil
    · obtain ⟨k, hk, rfl⟩ := mem_reports hpercent'
      rw [eq_of_mem_reportsAfter hpercent]
      exact percentage_mono hk.le

/-- The calls of a loop are regular exactly where each record that is due for one comes to it. -/
theorem regular_reports_iff {calls : List ℕ}
    (hcalls : calls = (reports interval total 0 comes).flatten ++ [100]) :
    Regular interval comes.length (reports interval total 0 comes) calls ↔
      ∀ k b, comes[k]? = some b → (k + 1) % interval = 0 → b = true := by
  have hget : ∀ k : ℕ, (reports interval total 0 comes)[k]? =
      comes[k]?.map (reportsAfter interval total (k + 1)) := by
    intro k
    simp [reports, List.getElem?_zipIdx, Function.comp_def]
  constructor
  · intro h k b hb hk
    have hevery := h.every k _ (by rw [hget, hb]; rfl)
    rw [if_pos hk] at hevery
    by_contra hnot
    simp [reportsAfter, hnot] at hevery
  · intro h
    refine ⟨by simp [reports], fun k pass hpass => ?_, fun percent hpercent => ?_,
      sorted_reports, hcalls⟩
    · rw [hget] at hpass
      obtain ⟨b, hb, rfl⟩ := Option.map_eq_some_iff.mp hpass
      by_cases hk : (k + 1) % interval = 0
      · simp [reportsAfter, h k b hb hk, hk]
      · simp [reportsAfter, hk]
    · obtain ⟨k, -, rfl⟩ := mem_reports hpercent
      exact percentage_le total k

end Progress

namespace CustomerImportJob

open Progress

variable (E : CustomerEnv) (i : Int) (total : ℕ) (header : List (Bytes × ℕ))

/-- The statements of each pass of the loop, where the job has a callback. -/
def importPasses (st : ImportState) (db : CustomerDb) : List Csv.Record → List (List CustomerStmt)
  | [] => []
  | line :: lines =>
    let pass := importRow E chunkSize true total header st line
    pass.issued E.exec i db ::
      match (pass.run E.exec i db).1 with
      | .ok st => importPasses st (pass.run E.exec i db).2 lines
      | .error _ => []

variable {E i total header}
variable {st : ImportState} {db : CustomerDb} {line : Csv.Record} {lines : List Csv.Record}

theorem importPasses_cons :
    importPasses E i total header st db (line :: lines) =
      (importRow E chunkSize true total header st line).issued E.exec i db ::
        importPasses E i total header
          (feed E (E.zone.date i) chunkSize header ⟨db.customer, st⟩ line).st
          { db with
            customer := (feed E (E.zone.date i) chunkSize header ⟨db.customer, st⟩ line).table }
          lines := by
  simp only [importPasses, run_importRow]

theorem issued_importRows :
    (importRows E chunkSize true total header st lines).issued E.exec i db =
      (importPasses E i total header st db lines).flatten := by
  induction lines generalizing st db with
  | nil => rfl
  | cons line lines ih =>
    unfold importRows
    rw [Prog.issued_bind (run_importRow line), importPasses_cons, List.flatten_cons, ih]

theorem percents_isKnown (parsed : CustomerData) :
    ((isKnown parsed).issued E.exec i db).filterMap CustomerStmt.percent? = [] := by
  have hknown : Prog.Only CustomerStmt.Silent (fun _ => True) (isKnown parsed) := by
    unfold isKnown
    refine Prog.only_bind.mpr (Prog.only_stmt.mpr ⟨rfl, fun byName => ?_⟩)
    cases byName
    · simp only [Bool.false_eq_true, if_false]
      split
      · trivial
      · exact Prog.only_stmt.mpr ⟨rfl, fun _ => trivial⟩
    · trivial
  exact List.filterMap_eq_nil_iff.mpr (hknown.issued db)

theorem percents_flushIf (due : Bool) :
    ((flushIf E due st).issued E.exec i db).filterMap CustomerStmt.percent? = [] := by
  cases due <;> rfl

theorem percents_report :
    ((report true total st).issued E.exec i db).filterMap CustomerStmt.percent? =
      reportsAfter chunkSize total st.processed true := by
  by_cases hdue : st.processed % chunkSize = 0
  · simp only [report, reportsAfter, hdue, and_self, if_true]
    rfl
  · simp only [report, reportsAfter, hdue, and_false, if_false]
    rfl

theorem processed_flushed (now : LocalTime) (due : Bool) (x : Loop) :
    (flushed now due x).st.processed = x.st.processed := by
  unfold flushed
  split_ifs <;> rfl

theorem processed_feed (now : LocalTime) (chunk : ℕ) (x : Loop) :
    (feed E now chunk header x line).st.processed = x.st.processed + 1 := by
  cases hv : verdict E header x line with
  | accepted parsed =>
    rw [feed_of_accepted hv, processed_flushed]
    rfl
  | refused error =>
    simp only [feed, hv]
    rfl
  | known | empty => simp only [feed, hv]

/-- A pass calls back for an accepted record that is due for it. -/
theorem percents_importRow :
    ((importRow E chunkSize true total header st line).issued E.exec i db).filterMap
        CustomerStmt.percent? =
      reportsAfter chunkSize total (st.processed + 1)
        (verdict E header ⟨db.customer, st⟩ line).isAccepted := by
  have hnot : reportsAfter chunkSize total (st.processed + 1) false = [] := by
    simp [reportsAfter]
  by_cases hempty : isEmptyRow line = true
  · simp only [importRow, verdict, hempty, if_true, Verdict.isAccepted, hnot]
    rfl
  · cases hvalid : validateRow E (parseRow line header) st.seenNames st.seenEmails with
    | some error =>
      simp only [importRow, verdict, hempty, hvalid, Bool.false_eq_true, if_false,
        Verdict.isAccepted, hnot]
      rfl
    | none =>
      simp only [importRow, verdict, hempty, hvalid, Bool.false_eq_true, if_false]
      rw [Prog.issued_bind (run_isKnown _), List.filterMap_append, percents_isKnown,
        List.nil_append]
      cases known E db.customer (parseRow line header)
      · simp only [Bool.false_eq_true, if_false, Verdict.isAccepted]
        rw [Prog.issued_bind (run_flushIf _), List.filterMap_append, percents_flushIf,
          List.nil_append, Prog.issued_bind_of_nil (fun _ _ => rfl), percents_report,
          processed_flushed]
        rfl
      · simp only [if_true, Verdict.isAccepted, hnot]
        rfl

theorem percents_importPasses :
    (importPasses E i total header st db lines).map (·.filterMap CustomerStmt.percent?) =
      reports chunkSize total st.processed
        ((verdicts E (E.zone.date i) chunkSize header ⟨db.customer, st⟩ lines).map
          (·.isAccepted)) := by
  induction lines generalizing st db with
  | nil => rfl
  | cons line lines ih =>
    rw [importPasses_cons, List.map_cons, percents_importRow, ih, processed_feed]
    rfl

theorem length_verdicts {x : Loop} {now : LocalTime} {chunk : ℕ} :
    (verdicts E now chunk header x lines).length = lines.length := by
  induction lines generalizing x with
  | nil => rfl
  | cons line lines ih => rw [verdicts, List.length_cons, ih, List.length_cons]

/-- The calls of an import of a file, in each pass of its loop. -/
def importPercents (E : CustomerEnv) (i : Int) (db : CustomerDb) (contents : Bytes) :
    List (List ℕ) :=
  (importPasses E i (countDataRows (some contents)) (fileHeader contents) ImportState.initial db
    (dataRecords contents)).map (·.filterMap CustomerStmt.percent?)

theorem percents_flatten (passes : List (List CustomerStmt)) :
    passes.flatten.filterMap CustomerStmt.percent? =
      (passes.map (·.filterMap CustomerStmt.percent?)).flatten := by
  rw [List.filterMap_flatten]

variable {file contents : Bytes}

theorem percents_importRecords {first : Csv.Record}
    (hname : ((headerMap first).lookup (ascii "name")).isSome) :
    ((importRecords E chunkSize true total first lines).issued E.exec i db).filterMap
        CustomerStmt.percent? =
      ((importPasses E i total (headerMap first) ImportState.initial db lines).map
        (·.filterMap CustomerStmt.percent?)).flatten ++ [100] := by
  unfold importRecords
  rw [if_neg (by simp [Option.isSome_iff_ne_none.mp hname]),
    Prog.issued_bind (run_importRows lines), List.filterMap_append, issued_importRows,
    percents_flatten, Prog.issued_bind (run_flushIf _), List.filterMap_append, percents_flushIf]
  rfl

/-- The calls of the job: those of its passes, and one at the end. -/
theorem percents_handle (hne : basename file ≠ [])
    (hfile : db.files (customerImportFile E (basename file)) = some contents) :
    ((handle E file true).issued E.exec i db).filterMap CustomerStmt.percent? =
      if HasName contents then (importPercents E i db contents).flatten ++ [100] else [] := by
  have hmissing : (isMissing E (basename file)).run E.exec i db = (.ok false, db) := by
    simp [run_isMissing, hne, hfile]
  have hisMissing : ((isMissing E (basename file)).issued E.exec i db).filterMap
      CustomerStmt.percent? = [] := by
    rw [isMissing, if_neg hne, Prog.issued_map, Prog.issued_stmt]
    rfl
  have hremove : ∀ db, ((removeFile (customerImportFile E (basename file))).issued E.exec i
      db).filterMap CustomerStmt.percent? = [] := fun _ => rfl
  have hprocess : ((process E chunkSize (customerImportFile E (basename file)) true).issued E.exec
      i db).filterMap CustomerStmt.percent? =
        ((importRecords E chunkSize true (countDataRows (some contents))
          ((Csv.records contents).head?.getD []) (dataRecords contents)).issued E.exec i
            db).filterMap CustomerStmt.percent? := by
    unfold process
    rw [Prog.issued_bind (by rw [Prog.run_map, run_readFile hfile]; rfl), List.filterMap_append,
      Prog.issued_map, Prog.issued_bind (run_readFile hfile), List.filterMap_append]
    rfl
  unfold handle
  rw [Prog.issued_bind hmissing, List.filterMap_append, hisMissing, List.nil_append]
  simp only [Bool.false_eq_true, if_false]
  rw [Prog.issued_tryFinally, List.filterMap_append, hremove, List.append_nil, hprocess]
  split_ifs with hname
  · exact percents_importRecords hname
  · have hnone : ((headerMap ((Csv.records contents).head?.getD [])).lookup
        (ascii "name")).isNone = true := by
      rw [Option.isNone_iff_eq_none]
      exact Option.not_isSome_iff_eq_none.mp hname
    rw [importRecords, if_pos hnone]
    rfl

/-- An import calls back regularly exactly where each record that is due for a call is accepted. -/
theorem regular_import_iff (hne : basename file ≠ [])
    (hfile : db.files (customerImportFile E (basename file)) = some contents)
    (hname : HasName contents) :
    Regular chunkSize (dataRecords contents).length (importPercents E i db contents)
        (((handle E file true).issued E.exec i db).filterMap CustomerStmt.percent?) ↔
      ∀ k v, (fileVerdicts E (E.zone.date i) db.customer contents)[k]? = some v →
        (k + 1) % chunkSize = 0 → v.isAccepted = true := by
  have hpercents : importPercents E i db contents =
      reports chunkSize (countDataRows (some contents)) 0
        ((fileVerdicts E (E.zone.date i) db.customer contents).map (·.isAccepted)) :=
    percents_importPasses
  have hlength : (dataRecords contents).length =
      ((fileVerdicts E (E.zone.date i) db.customer contents).map (·.isAccepted)).length := by
    rw [List.length_map, fileVerdicts, length_verdicts]
  rw [percents_handle hne hfile, if_pos hname, hpercents, hlength, regular_reports_iff rfl]
  constructor
  · intro h k v hv
    exact h k _ (by rw [List.getElem?_map, hv]; rfl)
  · intro h k b hb
    rw [List.getElem?_map] at hb
    obtain ⟨v, hv, rfl⟩ := Option.map_eq_some_iff.mp hb
    exact h k v hv

end CustomerImportJob

namespace CustomerExportJob

open Progress

variable (E : CustomerEnv) (datetime : LocalTime → Bytes) (i : Int) (path : Bytes) (total : ℕ)

/-- One pass of the loop, where the job has a callback. -/
def exportRow (processed : ℕ) (row : CustomerRow) : ExportProg Unit := do
  emit (.writeFile path (Csv.fputcsv (fields datetime row)))
  report true total (processed + 1)

/-- The statements of each pass of the loop. -/
def exportPasses (processed : ℕ) (db : CustomerDb) : List CustomerRow → List (List ExportStmt)
  | [] => []
  | row :: rows =>
    let pass := exportRow datetime path total processed row
    pass.issued E.execExport i db ::
      exportPasses (processed + 1) (pass.run E.execExport i db).2 rows

variable {E datetime i path total}
variable {db : CustomerDb} {rows : List CustomerRow}

theorem run_exportRow (processed : ℕ) (row : CustomerRow) : ∃ db',
    (exportRow datetime path total processed row).run E.execExport i db = (.ok (), db') := by
  unfold exportRow
  simp only [Prog.stmt_bind, Prog.run_call, CustomerEnv.execExport, Prog.resume_ok]
  exact ⟨_, run_report⟩

theorem exportRows_cons (processed : ℕ) (row : CustomerRow) :
    exportRows datetime path true total processed (row :: rows) =
      exportRow datetime path total processed row >>= fun _ =>
        exportRows datetime path true total (processed + 1) rows := by
  rw [exportRows, exportRow, bind_assoc]

theorem issued_exportRows (processed : ℕ) :
    (exportRows datetime path true total processed rows).issued E.execExport i db =
      (exportPasses E datetime i path total processed db rows).flatten := by
  induction rows generalizing processed db with
  | nil => rfl
  | cons row rows ih =>
    obtain ⟨db', hrun⟩ := @run_exportRow E datetime i path total db processed row
    rw [exportRows_cons, Prog.issued_bind hrun, ih, exportPasses, List.flatten_cons, hrun]

theorem percents_exportRow (processed : ℕ) (row : CustomerRow) :
    ((exportRow datetime path total processed row).issued E.execExport i db).filterMap
        ExportStmt.percent? = reportsAfter progressInterval total (processed + 1) true := by
  simp only [exportRow, Prog.stmt_bind, Prog.issued_call, CustomerEnv.execExport, Prog.resume_ok]
  by_cases hdue : (processed + 1) % progressInterval = 0
  · simp only [report, reportsAfter, hdue, and_self, if_true]
    rfl
  · simp only [report, reportsAfter, hdue, and_false, if_false]
    rfl

theorem percents_exportPasses (processed : ℕ) :
    (exportPasses E datetime i path total processed db rows).map
        (·.filterMap ExportStmt.percent?) =
      reports progressInterval total processed (rows.map fun _ => true) := by
  induction rows generalizing processed db with
  | nil => rfl
  | cons row rows ih =>
    rw [exportPasses, List.map_cons, percents_exportRow, ih]
    rfl

/-- The calls of an export of these rows, in each pass of its loop. -/
def exportPercents (E : CustomerEnv) (datetime : LocalTime → Bytes) (i : Int) (db : CustomerDb)
    (jobId : ℕ) (keywords : Bytes) (status : Option Bytes) : List (List ℕ) :=
  let path := customerExportFile E jobId
  (exportPasses E datetime i path (CustomerModel.countGet E db.customer keywords status) 0
    (db.withFile path (some (bom ++ Csv.fputcsv columns)))
    (CustomerModel.iterateForExport E db.customer keywords status)).map
      (·.filterMap ExportStmt.percent?)

/-- The calls of the job: those of its passes, and one at the end. -/
theorem percents_handle (jobId : ℕ) (keywords : Bytes) (status : Option Bytes) :
    ((handle E datetime jobId keywords status true).issued E.execExport i db).filterMap
        ExportStmt.percent? =
      (exportPercents E datetime i db jobId (trim keywords)
        (status.filter (· ≠ []))).flatten ++ [100] := by
  simp only [handle, Prog.stmt_bind, Prog.issued_call, CustomerEnv.execExport, Prog.resume_ok,
    if_true, withFile_files, withFile_withFile, Option.getD_some, List.nil_append]
  rw [Prog.issued_bind (run_exportRows 0 _), issued_exportRows]
  simp only [List.filterMap_cons, ExportStmt.percent?, List.filterMap_append,
    List.filterMap_flatten]
  rfl

theorem regular_export (jobId : ℕ) (keywords : Bytes) (status : Option Bytes) :
    Regular progressInterval
      (CustomerModel.iterateForExport E db.customer (trim keywords)
        (status.filter (· ≠ []))).length
      (exportPercents E datetime i db jobId (trim keywords) (status.filter (· ≠ [])))
      (((handle E datetime jobId keywords status true).issued E.execExport i db).filterMap
        ExportStmt.percent?) := by
  rw [percents_handle]
  unfold exportPercents
  rw [percents_exportPasses, ← List.length_map fun _ => true, regular_reports_iff rfl]
  intro k b hb _
  rw [List.getElem?_map] at hb
  obtain ⟨-, -, rfl⟩ := Option.map_eq_some_iff.mp hb
  rfl

end CustomerExportJob

section Jobs

open CustomerImportJob CustomerSample
open CustomerExportJob (progressInterval exportPercents)

/-! ## Both jobs -/

/-- An import of a file with a name column calls back regularly exactly if each record with a
number that is a multiple of the interval is accepted, and an import of any other file never calls
back. Every export calls back regularly. -/
theorem progress_regular_iff {E : CustomerEnv} {db : CustomerDb} {i : Int} {file contents : Bytes}
    (hne : basename file ≠ [])
    (hfile : db.files (customerImportFile E (basename file)) = some contents) :
    let calls := ((handle E file true).issued E.exec i db).filterMap CustomerStmt.percent?
    (HasName contents →
      (Regular chunkSize (dataRecords contents).length (importPercents E i db contents) calls ↔
        ∀ k v, (fileVerdicts E (E.zone.date i) db.customer contents)[k]? = some v →
          (k + 1) % chunkSize = 0 → v.isAccepted = true))
      ∧ (¬ HasName contents → calls = [])
      ∧ ∀ (datetime : LocalTime → Bytes) (i : Int) (db : CustomerDb) (jobId : ℕ)
          (keywords : Bytes) (status : Option Bytes),
        Regular progressInterval
          (CustomerModel.iterateForExport E db.customer (trim keywords)
            (status.filter (· ≠ []))).length
          (exportPercents E datetime i db jobId (trim keywords) (status.filter (· ≠ [])))
          (((CustomerExportJob.handle E datetime jobId keywords status true).issued E.execExport i
            db).filterMap ExportStmt.percent?) := by
  refine ⟨regular_import_iff hne hfile, fun hname => ?_,
    fun _ _ _ _ _ _ => CustomerExportJob.regular_export _ _ _⟩
  rw [percents_handle hne hfile, if_neg hname]

/-- A file that lists the same customer a hundred times. -/
def repeated : Bytes := ascii "name\n" ++ (List.replicate 100 (ascii "Ada\n")).flatten

theorem progress_regular_sample :
    let calls := ((handle env importFile true).issued env.exec 1000
      (withImport repeated)).filterMap CustomerStmt.percent?
    (HasName repeated →
      (Regular chunkSize (dataRecords repeated).length
          (importPercents env 1000 (withImport repeated) repeated) calls ↔
        ∀ k v, (fileVerdicts env (env.zone.date 1000) (withImport repeated).customer
          repeated)[k]? = some v → (k + 1) % chunkSize = 0 → v.isAccepted = true))
      ∧ (¬ HasName repeated → calls = [])
      ∧ ∀ (datetime : LocalTime → Bytes) (i : Int) (db : CustomerDb) (jobId : ℕ)
          (keywords : Bytes) (status : Option Bytes),
        Regular progressInterval
          (CustomerModel.iterateForExport env db.customer (trim keywords)
            (status.filter (· ≠ []))).length
          (exportPercents env datetime i db jobId (trim keywords) (status.filter (· ≠ [])))
          (((CustomerExportJob.handle env datetime jobId keywords status true).issued
            env.execExport i db).filterMap ExportStmt.percent?) :=
  progress_regular_iff (by decide +kernel) (by decide +kernel)

/-- The hundredth record is refused, and nothing is reported after it. -/
theorem hundredth_record_unreported :
    HasName repeated
      ∧ (importPercents env 1000 (withImport repeated) repeated)[99]? = some []
      ∧ ¬ Regular chunkSize (dataRecords repeated).length
        (importPercents env 1000 (withImport repeated) repeated)
        (((handle env importFile true).issued env.exec 1000
          (withImport repeated)).filterMap CustomerStmt.percent?) := by
  have hpass : (importPercents env 1000 (withImport repeated) repeated)[99]? = some [] := by
    decide +kernel
  refine ⟨by decide +kernel, hpass, fun h => ?_⟩
  exact absurd (h.every 99 [] hpass) (by decide)

/-! ## The total -/

/-- The total of an import is the number of its records exactly if each line but the last ends the
record that starts with it. -/
theorem total_counts_records_iff {E : CustomerEnv} {db : CustomerDb} {i : Int} {progress : Bool}
    {file contents : Bytes} (hne : basename file ≠ [])
    (hfile : db.files (customerImportFile E (basename file)) = some contents)
    (hname : HasName contents) :
    ∃ result, ((handle E file progress).run E.exec i db).1 = .ok result
      ∧ (result.total = (dataRecords contents).length ↔
        ∀ line ∈ (Csv.lines contents).dropLast, Csv.OneLine line) := by
  refine ⟨_, congrArg Prod.fst (run_handle hne hfile hname), ?_⟩
  have hrecords : Csv.records contents ≠ [] := by
    intro hnil
    unfold HasName fileHeader at hname
    rw [hnil] at hname
    cases hname
  have hlines : Csv.lines contents ≠ [] := by
    intro hnil
    unfold Csv.records at hrecords
    rw [hnil] at hrecords
    exact hrecords rfl
  have htotal : (countDataRows (some contents) = (dataRecords contents).length) ↔
      (Csv.records contents).length = (Csv.lines contents).length := by
    have hpos := List.length_pos_iff.mpr hrecords
    have hpos' := List.length_pos_iff.mpr hlines
    rw [dataRecords, List.length_tail, countDataRows]
    omega
  exact htotal.trans (Csv.length_recordsFrom_iff _)

/-- A file with one customer, whose name has a line feed. -/
def twoLines : Bytes := ascii "name\n\"Ada\nLovelace\"\n"

theorem total_counts_records_sample :
    ∃ result, ((handle env importFile false).run env.exec 1000 (withImport twoLines)).1 =
        .ok result
      ∧ (result.total = (dataRecords twoLines).length ↔
        ∀ line ∈ (Csv.lines twoLines).dropLast, Csv.OneLine line) :=
  @total_counts_records_iff env (withImport twoLines) 1000 false importFile twoLines
    (by decide +kernel) (by decide +kernel) (by decide +kernel)

theorem total_counts_lines :
    HasName twoLines ∧ (dataRecords twoLines).length = 1
      ∧ ∃ result, ((handle env importFile false).run env.exec 1000 (withImport twoLines)).1 =
        .ok result ∧ result.total = 2 ∧ result.imported = 1 := by
  refine ⟨by decide +kernel, by decide +kernel, ⟨2, 1, 0, 0, []⟩, by decide +kernel, rfl, rfl⟩

end Jobs

end SlimStarter
