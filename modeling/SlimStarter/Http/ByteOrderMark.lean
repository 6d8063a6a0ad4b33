import SlimStarter.CsvMark
import SlimStarter.Http.Header
import SlimStarter.Http.Rejected

/-!
# Imports behind a byte order mark

`normalizeHeader` and `headerMap` strip a mark from the fields that the parser has split already. So
the mark is transparent where it does not change the split: where the first field is not quoted, the
two files have the same columns and the same rows (`file_bom`), and are imported alike
(`bomTransparent`). Behind a mark a quoted first field keeps its quotes, so that a quoted name
column is not found (`hasName_quotedName`). `bom_transparent_iff` says that of the beginnings that a
file can have, these are the ones that the mark is not transparent for.
-/

namespace SlimStarter

open Csv (bom QuoteFirst MarkedRecord records)
open CustomerTransferService

namespace CustomerImportJob

theorem normalizeColumnName_bom {f : Bytes} (h : ¬ bom <+: f) :
    normalizeColumnName (some (bom ++ f)) = normalizeColumnName (some f) := by
  have hbom : [0xEF, 0xBB, 0xBF] <+: bom ++ f := List.prefix_append bom f
  have hf : ¬ [0xEF, 0xBB, 0xBF] <+: f := h
  simp only [normalizeColumnName, Option.getD_some, if_pos hbom, if_neg hf]
  rfl

/-- Behind a mark that the text does not have itself, the columns have the same names. -/
theorem map_normalizeColumnName_bom {s : Bytes} {r r' : Csv.Record} (h : MarkedRecord s r r')
    (hs : ¬ bom <+: s) : r'.map normalizeColumnName = r.map normalizeColumnName := by
  cases h with
  | void => rfl
  | blank => decide
  | field hf =>
    simp only [List.map_cons]
    rw [normalizeColumnName_bom fun hbom => hs (hbom.trans hf)]

variable {s : Bytes}

/-- Behind a mark, the import finds the same columns and the same rows. -/
theorem file_bom (hs : ¬ bom <+: s) (hquote : ¬ QuoteFirst s) :
    fileHeader (bom ++ s) = fileHeader s ∧ dataRecords (bom ++ s) = dataRecords s := by
  by_cases hne : s = []
  · subst hne
    decide
  · obtain ⟨r, r', rest, hr, hr', hmarked⟩ := Csv.records_bom hne hquote
    unfold fileHeader dataRecords
    rw [hr, hr']
    simp only [List.head?_cons, Option.getD_some, List.tail_cons, and_true]
    rw [headerMap_eq, headerMap_eq, map_normalizeColumnName_bom hmarked hs]

/-- What `process` does with a file of these contents: what it returns but for the number of lines,
and the table that it leaves. -/
def importOf (E : CustomerEnv) (path contents : Bytes) (progress : Bool) (i : Int)
    (db : CustomerDb) :
    Except Failure (ℕ × ℕ × ℕ × List (ℕ × String)) × Table CustomerRow :=
  let run := (process E chunkSize path progress).run E.exec i (db.withFile path (some contents))
  (run.1.map fun result => (result.imported, result.skipped, result.failed, result.errors),
    run.2.customer)

theorem importOf_eq {contents contents' : Bytes}
    (hheader : fileHeader contents' = fileHeader contents)
    (hrows : dataRecords contents' = dataRecords contents) (E : CustomerEnv) (path : Bytes)
    (progress : Bool) (i : Int) (db : CustomerDb) :
    importOf E path contents' progress i db = importOf E path contents progress i db := by
  have hfile : ∀ contents, (db.withFile path (some contents)).files path = some contents := by
    simp [CustomerDb.withFile]
  unfold importOf
  by_cases hname : HasName contents
  · have hname' : HasName contents' := by
      unfold HasName
      rwa [hheader]
    rw [run_process (hfile contents) hname, run_process (hfile contents') hname', hheader, hrows]
    rfl
  · have hname' : ¬ HasName contents' := by
      unfold HasName
      rwa [hheader]
    rw [run_process_of_not_hasName (hfile contents) hname,
      run_process_of_not_hasName (hfile contents') hname']
    rfl

theorem importOf_eq_ok_iff {E : CustomerEnv} {path contents : Bytes} {progress : Bool} {i : Int}
    {db : CustomerDb} :
    (∃ result, (importOf E path contents progress i db).1 = .ok result) ↔ HasName contents := by
  have hfile : (db.withFile path (some contents)).files path = some contents := by
    simp [CustomerDb.withFile]
  unfold importOf
  by_cases hname : HasName contents
  · rw [run_process hfile hname]
    simp [Except.map, hname]
  · rw [run_process_of_not_hasName hfile hname]
    simp [Except.map, hname]

end CustomerImportJob

open CustomerImportJob (HasName fileHeader importOf)

/-! ## Requests -/

/-- The request for the import checks the header as the job does. -/
theorem hasNameColumn_eq_true {contents : Bytes} :
    hasNameColumn contents = true ↔ HasName contents := by
  unfold HasName fileHeader
  rw [CustomerImportJob.isSome_lookup_headerMap (by decide)]
  unfold hasNameColumn
  cases (records contents).head? with
  | none => simp
  | some header =>
    simp only [Option.any_some, decide_eq_true_eq, Option.getD_some]
    rfl

section Requests

variable (W : ImportSetting) (E : AppEnv) (R : CustomerEntropy) (file : UploadedFile) (userId : ℕ)
variable (i : Int) (db : AppDb)

/-- The request for the import succeeds. -/
def ImportSetting.Accepts : Prop :=
  ∃ payload, ((requestImport E R file userId).run (W.exec E) i db).1 = .ok payload

/-- The upload with a mark in front. -/
def UploadedFile.withBom : UploadedFile :=
  { file with contents := bom ++ file.contents, size := file.size.map (· + 3) }

/-- The three bytes of the mark do not take the upload over the limit. -/
def KeepsLimit : Prop :=
  ∀ n ∈ file.size, n ≤ E.uploadImportMaxBytes → n + 3 ≤ E.uploadImportMaxBytes

/-- The mark is transparent for this upload: it is accepted with the mark exactly if it is without,
and the import of the one file does what that of the other does. -/
def BomTransparent : Prop :=
  (∀ (W : ImportSetting) (R : CustomerEntropy) (userId : ℕ) (i : Int) (db : AppDb),
    RandomName R.fileName →
      (W.Accepts E R file.withBom userId i db ↔ W.Accepts E R file userId i db))
  ∧ ∀ (path : Bytes) (progress : Bool) (i : Int) (db : CustomerDb),
    importOf E.customer path (bom ++ file.contents) progress i db =
      importOf E.customer path file.contents progress i db

variable {W E R file userId i db}

theorem ImportSetting.accepts_iff (hname : RandomName R.fileName) :
    W.Accepts E R file userId i db ↔ importFileError E file = none ∧ W.storeError E R = none
      ∧ W.headerError E R (stored E R file db) = none
      ∧ ∃ jobId, (W.queued R userId i db).1 = .ok jobId := by
  unfold ImportSetting.Accepts
  rw [W.run_requestImport hname]
  cases importFileError E file with
  | some e => simp
  | none =>
    cases W.storeError E R with
    | some e => simp
    | none =>
      cases W.headerError E R (stored E R file db) with
      | some e => simp
      | none => cases (W.queued R userId i db).1 <;> simp [Except.map]

theorem importFileError_withBom (h : KeepsLimit E file) :
    importFileError E file.withBom = none ↔ importFileError E file = none := by
  have hsize : (file.size.map (· + 3)).any (E.uploadImportMaxBytes < ·) =
      file.size.any (E.uploadImportMaxBytes < ·) := by
    cases hn : file.size with
    | none => rfl
    | some n =>
      have hlimit := h n hn
      simp only [Option.map_some, Option.any_some, decide_eq_decide]
      omega
  unfold importFileError UploadedFile.withBom
  simp only [hsize]

/-- Where both files have a name column or neither has, both stored files pass the check of the
header or neither does. -/
theorem headerError_withBom
    (h : hasNameColumn (bom ++ file.contents) = hasNameColumn file.contents) :
    W.headerError E R (ImportSetting.stored E R file.withBom db) = none ↔
      W.headerError E R (ImportSetting.stored E R file db) = none := by
  rw [W.headerError_eq_none, W.headerError_eq_none]
  by_cases htarget : UploadHelper.isS3 E.customer = true
  · simp only [ImportSetting.stored, if_pos htarget]
  · simp [ImportSetting.stored, if_neg htarget, CustomerDb.withFile, UploadedFile.withBom, h]

/-- The mark is transparent where the first field is not quoted. -/
theorem bomTransparent (hs : ¬ bom <+: file.contents) (hquote : ¬ QuoteFirst file.contents)
    (hlimit : KeepsLimit E file) : BomTransparent E file := by
  obtain ⟨hheader, hrows⟩ := CustomerImportJob.file_bom hs hquote
  have hcolumn : hasNameColumn (bom ++ file.contents) = hasNameColumn file.contents := by
    rw [Bool.eq_iff_iff, hasNameColumn_eq_true, hasNameColumn_eq_true]
    unfold HasName
    rw [hheader]
  refine ⟨fun W R userId i db hname => ?_, CustomerImportJob.importOf_eq hheader hrows E.customer⟩
  rw [W.accepts_iff hname, W.accepts_iff hname, importFileError_withBom hlimit,
    headerError_withBom hcolumn]

end Requests

/-! ## Quoted headers -/

theorem mem_trim {s : Bytes} {b : UInt8} (h : b ∈ s) (hb : isTrimByte b = false) : b ∈ trim s := by
  have hdrop : ∀ {s : Bytes}, b ∈ s → b ∈ s.dropWhile isTrimByte := by
    intro s hs
    rw [← List.takeWhile_append_dropWhile (p := isTrimByte) (l := s), List.mem_append] at hs
    exact hs.resolve_left fun htake => by simp [List.mem_takeWhile_imp htake] at hb
  unfold trim List.rdropWhile
  rw [List.mem_reverse]
  exact hdrop (List.mem_reverse.mpr (hdrop h))

open Csv in
/-- The import finds a quoted name column without a mark only. -/
theorem hasName_quotedName {w : Bytes} (hw : ∀ b ∈ w, isBlank b = true) :
    HasName (quotedName w) ∧ ¬ HasName (bom ++ quotedName w) := by
  unfold HasName fileHeader
  rw [head?_records_quotedName hw, head?_records_bom_quotedName hw]
  refine ⟨by decide, fun h => ?_⟩
  rw [CustomerImportJob.isSome_lookup_headerMap (by decide)] at h
  have hname : ascii "name" = CustomerImportJob.normalizeColumnName
      (some (bom ++ (w ++ ascii "\"name\""))) := by simpa using h
  have hquote : (34 : UInt8) ∈ trim (w ++ ascii "\"name\"") :=
    mem_trim (List.mem_append_right w (by decide)) (by decide)
  have hkept : (34 : UInt8) ∈ strtolower (trim (w ++ ascii "\"name\"")) :=
    List.mem_map.mpr ⟨34, hquote, by decide⟩
  have hstripped : CustomerImportJob.normalizeColumnName
      (some (bom ++ (w ++ ascii "\"name\""))) = strtolower (trim (w ++ ascii "\"name\"")) := by
    have hbom : [0xEF, 0xBB, 0xBF] <+: bom ++ (w ++ ascii "\"name\"") := List.prefix_append bom _
    simp only [CustomerImportJob.normalizeColumnName, Option.getD_some, if_pos hbom]
    rfl
  rw [← hstripped, ← hname] at hkept
  exact absurd hkept (by decide)

open Csv in
/-- The mark is transparent for every file that begins as this one does, exactly if what it begins
with, but for blanks, is not a quote. -/
theorem bom_transparent_iff (E : AppEnv) (s : Bytes) :
    (∀ file : UploadedFile, lead file.contents = lead s → ¬ bom <+: file.contents →
      KeepsLimit E file → BomTransparent E file) ↔ ¬ QuoteFirst s := by
  constructor
  · intro h hquote
    have hw : ∀ b ∈ s.takeWhile isBlank, isBlank b = true := fun b hb => List.mem_takeWhile_imp hb
    let file : UploadedFile := ⟨0, none, [], none, quotedName (s.takeWhile isBlank)⟩
    have hlead : lead file.contents = lead s := by
      show lead (quotedName (s.takeWhile isBlank)) = _
      rw [lead_quotedName hw, lead, show (s.dropWhile isBlank).head? = some 34 from hquote]
      rfl
    have hbom : ¬ bom <+: file.contents := not_bom_quotedName hw
    obtain ⟨-, himport⟩ := h file hlead hbom (by simp [file, KeepsLimit])
    obtain ⟨hname, hmarked⟩ := hasName_quotedName hw
    obtain ⟨result, hresult⟩ := (@CustomerImportJob.importOf_eq_ok_iff E.customer [] file.contents
      false 0 ⟨⟨[], 1⟩, Redis.empty, fun _ => none⟩).mpr hname
    rw [← himport] at hresult
    exact hmarked (CustomerImportJob.importOf_eq_ok_iff.mp ⟨result, hresult⟩)
  · intro hquote file hlead hbom hlimit
    refine bomTransparent hbom ?_ hlimit
    rwa [← quoteFirst_lead, hlead, quoteFirst_lead]

open AppSample in
/-- A file whose name column is quoted is accepted and imported, but neither behind a mark. -/
theorem quoted_name_not_transparent :
    let file := upload (ascii "\"name\"\nAda\n")
    ¬ bom <+: file.contents ∧ KeepsLimit env file ∧ ¬ BomTransparent env file := by
  intro file
  have hlimit : KeepsLimit env file := by
    intro n hn _
    obtain rfl := Option.some.inj hn
    show ((ascii "\"name\"\nAda\n").length : Int) + 3 ≤ 5242880
    decide +kernel
  have haccepted : ∃ payload, ((requestImport env drawn (upload (ascii "\"name\"\nAda\n")) 1).run
      ((ImportSetting.calm env).exec env) 0 db).1 = .ok payload :=
    ⟨.queuedImport 1 "pending" (importName drawn), by decide +kernel⟩
  have hrefused : ((requestImport env drawn (upload (ascii "\"name\"\nAda\n")).withBom 1).run
      ((ImportSetting.calm env).exec env) 0 db).1 =
      .error (.validation "Import CSV is missing a name column."
        [("file", "The CSV header must contain a name column.")]) := by
    decide +kernel
  refine ⟨by decide, hlimit, fun ⟨h, _⟩ => ?_⟩
  obtain ⟨payload, hok⟩ :=
    (h (ImportSetting.calm env) drawn 1 0 db (by decide +kernel)).mpr haccepted
  rw [hrefused] at hok
  cases hok

end SlimStarter
