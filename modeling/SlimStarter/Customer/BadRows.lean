import SlimStarter.CsvTexts
import SlimStarter.Customer.Accounting

/-!
# Bad rows and good rows

From one record to the next the loop hands on the table, the batch, and the names and emails it has
seen, and only an accepted record changes any of these. Two states that agree on them (`Alike`) give
the same verdicts, so a record that is not accepted can be left out of the file: the others fare as
before, and the table ends the same (`bad_row_removed`).
-/

namespace SlimStarter

namespace CustomerImportJob

variable {E : CustomerEnv} {now : LocalTime} {chunk : ℕ} {header : List (Bytes × ℕ)}
variable {x y : Loop} {line : Csv.Record} {lines : List Csv.Record} {v : Verdict} {j : ℕ}

/-- The states agree on what a verdict depends on. -/
structure Alike (x y : Loop) : Prop where
  table : y.table = x.table
  batch : y.st.batch = x.st.batch
  seenNames : y.st.seenNames = x.st.seenNames
  seenEmails : y.st.seenEmails = x.st.seenEmails

theorem alike_feed (now : LocalTime) (chunk : ℕ)
    (h : (verdict E header x line).isAccepted = false) :
    Alike x (feed E now chunk header x line) := by
  have hnot : ∀ parsed, verdict E header x line ≠ .accepted parsed := by
    intro parsed hv
    rw [hv] at h
    cases h
  obtain ⟨htable, hbatch, hnames, hemails⟩ := feed_of_not_accepted now chunk hnot
  exact ⟨htable, hbatch, hnames, hemails⟩

theorem Alike.verdict (h : Alike x y) : verdict E header y line = verdict E header x line := by
  unfold CustomerImportJob.verdict
  rw [h.table, h.seenNames, h.seenEmails]

theorem Alike.feed (h : Alike x y) :
    Alike (feed E now chunk header x line) (feed E now chunk header y line) := by
  have hverdict := @Alike.verdict E header x y line h
  cases hv : CustomerImportJob.verdict E header x line with
  | accepted parsed =>
    rw [hv] at hverdict
    rw [feed_of_accepted hv, feed_of_accepted hverdict]
    have hsame : (ImportState.accept E { y.st with processed := y.st.processed + 1 } parsed).batch =
        (ImportState.accept E { x.st with processed := x.st.processed + 1 } parsed).batch :=
      congrArg (· ++ [parsed]) h.batch
    simp only [flushed, hsame]
    split_ifs
    · refine ⟨by simp only [h.table], rfl, ?_, ?_⟩ <;>
        simp only [ImportState.accept, h.seenNames, h.seenEmails]
    · refine ⟨h.table, hsame, ?_, ?_⟩ <;>
        simp only [ImportState.accept, h.seenNames, h.seenEmails]
  | empty | refused _ | known =>
    rw [hv] at hverdict
    simp only [CustomerImportJob.feed, hv, hverdict]
    exact ⟨h.table, h.batch, h.seenNames, h.seenEmails⟩

theorem Alike.verdicts (h : Alike x y) :
    verdicts E now chunk header y lines = verdicts E now chunk header x lines := by
  induction lines generalizing x y with
  | nil => rfl
  | cons line lines ih =>
    unfold CustomerImportJob.verdicts
    rw [h.verdict, ih h.feed]

theorem verdicts_eraseIdx (hv : (verdicts E now chunk header x lines)[j]? = some v)
    (hbad : v.isAccepted = false) :
    verdicts E now chunk header x (lines.eraseIdx j) =
      (verdicts E now chunk header x lines).eraseIdx j := by
  induction lines generalizing x j with
  | nil => simp [verdicts] at hv
  | cons line lines ih =>
    cases j with
    | zero =>
      obtain rfl : verdict E header x line = v := by simpa [verdicts] using hv
      simp only [List.eraseIdx_cons_zero, verdicts]
      exact (alike_feed now chunk hbad).verdicts.symm
    | succ j =>
      simp only [List.eraseIdx_cons_succ, verdicts]
      rw [ih (by simpa [verdicts] using hv)]

theorem flatMap_batched_eraseIdx {vs : List Verdict} (hv : vs[j]? = some v)
    (hbad : v.isAccepted = false) :
    (vs.eraseIdx j).flatMap Verdict.batched = vs.flatMap Verdict.batched := by
  induction vs generalizing j with
  | nil => rfl
  | cons w vs ih =>
    cases j with
    | zero =>
      obtain rfl : w = v := by simpa using hv
      have hnil : w.batched = [] := by
        rw [← List.length_eq_zero_iff, length_batched, hbad]
        rfl
      rw [List.eraseIdx_cons_zero, List.flatMap_cons, hnil, List.nil_append]
    | succ j =>
      rw [List.eraseIdx_cons_succ, List.flatMap_cons, List.flatMap_cons, ih (by simpa using hv)]

/-- Without a record, a count of the others is what it was. -/
theorem countP_eraseIdx {vs : List Verdict} (hv : vs[j]? = some v) (p : Verdict → Bool) :
    vs.countP p = (vs.eraseIdx j).countP p + if p v then 1 else 0 := by
  obtain ⟨hj, rfl⟩ := List.getElem?_eq_some_iff.mp hv
  rw [← (List.getElem_cons_eraseIdx_perm hj).countP_eq p, List.countP_cons]

/-! ## The file without the record -/

variable {db : CustomerDb} {i : Int} {progress : Bool} {file contents : Bytes}

/-- The header of a file without a data record is the same, and so are its other data records. -/
theorem withoutRecord_file (contents : Bytes) (j : ℕ) :
    fileHeader (Csv.withoutRecord contents (j + 1)) = fileHeader contents
      ∧ dataRecords (Csv.withoutRecord contents (j + 1)) = (dataRecords contents).eraseIdx j := by
  unfold fileHeader dataRecords
  rw [Csv.records_withoutRecord]
  cases Csv.records contents <;> exact ⟨rfl, rfl⟩

/-- Where a record is blank, refused or known, the import of the file without it adds the same
customers in the same order, and every other record fares as before: the result counts the record no
more, and lists the errors of the others. -/
theorem bad_row_removed (hne : basename file ≠ [])
    (hfile : db.files (customerImportFile E (basename file)) = some contents)
    (hname : HasName contents)
    (hv : (fileVerdicts E (E.zone.date i) db.customer contents)[j]? = some v)
    (hbad : v.isAccepted = false) :
    let without := Csv.withoutRecord contents (j + 1)
    let run := (handle E file progress).run E.exec i db
    let run' := (handle E file progress).run E.exec i
      (db.withFile (customerImportFile E (basename file)) (some without))
    let verdicts := fileVerdicts E (E.zone.date i) db.customer contents
    run'.2.customer = run.2.customer
      ∧ (∃ r r', run.1 = .ok r ∧ run'.1 = .ok r' ∧ r'.imported = r.imported
        ∧ r.skipped = r'.skipped + (if v.isKnown then 1 else 0)
        ∧ r.failed = r'.failed + (if v.isRefused then 1 else 0)
        ∧ r.errors = (refusals 2 verdicts).take maxErrors
        ∧ r'.errors = (refusals 2 (verdicts.eraseIdx j)).take maxErrors)
      ∧ fileVerdicts E (E.zone.date i) db.customer without = verdicts.eraseIdx j := by
  intro without run run' verdicts
  obtain ⟨hheader, hrecords⟩ := withoutRecord_file contents j
  have hname' : HasName without := by
    unfold HasName
    rw [hheader]
    exact hname
  have hrun : run = _ := run_handle hne hfile hname
  have hrun' : run' = _ := run_handle hne (by simp [CustomerDb.withFile]) hname'
  have hverdicts : fileVerdicts E (E.zone.date i) db.customer without = verdicts.eraseIdx j := by
    unfold verdicts fileVerdicts
    rw [hheader, hrecords]
    exact verdicts_eraseIdx hv hbad
  have haccepted : accepted E (E.zone.date i) chunkSize (fileHeader without)
      ⟨db.customer, ImportState.initial⟩ (dataRecords without) =
        accepted E (E.zone.date i) chunkSize (fileHeader contents)
          ⟨db.customer, ImportState.initial⟩ (dataRecords contents) := by
    rw [accepted_eq_flatMap, accepted_eq_flatMap]
    exact (congrArg (·.flatMap Verdict.batched) hverdicts).trans (flatMap_batched_eraseIdx hv hbad)
  obtain ⟨-, hskipped, hfailed, herrors⟩ := @tallied_imported E (E.zone.date i) chunkSize
    (fileHeader contents) (dataRecords contents) db.customer
  obtain ⟨-, hskipped', hfailed', herrors'⟩ := @tallied_imported E (E.zone.date i) chunkSize
    (fileHeader without) (dataRecords without) db.customer
  refine ⟨?_, ⟨_, _, congrArg Prod.fst hrun, congrArg Prod.fst hrun', ?_, ?_, ?_, herrors, ?_⟩,
    hverdicts⟩
  · rw [hrun, hrun']
    change (imported E _ chunkSize (fileHeader without) db.customer (dataRecords without)).table =
      (imported E _ chunkSize (fileHeader contents) db.customer (dataRecords contents)).table
    rw [imported_table, imported_table, haccepted]
  · change (imported E _ chunkSize (fileHeader without) db.customer
      (dataRecords without)).st.imported = (imported E _ chunkSize (fileHeader contents)
        db.customer (dataRecords contents)).st.imported
    rw [imported_count, imported_count, haccepted]
  · refine hskipped.trans ((countP_eraseIdx hv _).trans (congrArg (· + _) ?_))
    exact (congrArg (List.countP _) hverdicts).symm.trans hskipped'.symm
  · refine hfailed.trans ((countP_eraseIdx hv _).trans (congrArg (· + _) ?_))
    exact (congrArg (List.countP _) hverdicts).symm.trans hfailed'.symm
  · exact herrors'.trans (congrArg (fun vs => (refusals 2 vs).take maxErrors) hverdicts)

end CustomerImportJob

open CustomerImportJob CustomerSample

namespace CustomerSample

/-- A file with a record without a name between two customers. -/
def nameless : Bytes := ascii "name,email\nAda,\n,x\nBob,\n"

end CustomerSample

/-- The record without a name is counted and listed no more. -/
theorem bad_row_removed_sample : ∃ r r',
    ((handle env importFile false).run env.exec 1000 (withImport nameless)).1 = .ok r
      ∧ ((handle env importFile false).run env.exec 1000 ((withImport nameless).withFile
        (customerImportFile env (basename importFile))
          (some (Csv.withoutRecord nameless (1 + 1))))).1 = .ok r'
      ∧ r'.imported = r.imported ∧ r.skipped = r'.skipped ∧ r.failed = r'.failed + 1
      ∧ r.errors = [(3, "Name is required.")] ∧ r'.errors = [] := by
  have hverdicts : fileVerdicts env (env.zone.date 1000) (withImport nameless).customer nameless =
      [.accepted (customer (ascii "Ada")), .refused "Name is required.",
        .accepted (customer (ascii "Bob"))] := by decide +kernel
  have hverdict : (fileVerdicts env (env.zone.date 1000) (withImport nameless).customer
      nameless)[1]? = some (.refused "Name is required.") := by
    rw [hverdicts]
    rfl
  obtain ⟨-, ⟨r, r', hr, hr', himported, hskipped, hfailed, herrors, herrors'⟩, -⟩ :=
    @bad_row_removed env _ 1 (withImport nameless) 1000 false importFile nameless
      (by decide +kernel) (by decide +kernel) (by decide +kernel) hverdict rfl
  rw [hverdicts] at herrors herrors'
  exact ⟨r, r', hr, hr', himported, hskipped, hfailed, herrors, herrors'⟩

end SlimStarter
