import SlimStarter.Customer.Feed
import SlimStarter.Customer.Strict

/-!
# Chunks

The import inserts its records in chunks of `chunkSize`, and the reference is the same import with
chunks of one record. `importedOn` is the import on a database with demands on its texts: a chunk
that has a record which the database does not take ends it. Until a chunk is due its records are
invisible to the checks. Where the database tells every accepted record from those that wait, and
refuses none while others wait (`ChunksAgree`), the reference is always the import with its batch
flushed (`feed_flush`), and both leave the same table and end alike (`chunks_change_nothing_iff`).
-/

namespace SlimStarter

namespace CustomerImportJob

variable {E : CustomerEnv} {D : TextRules} {now : LocalTime} {chunk : ℕ}
variable {header : List (Bytes × ℕ)} {x : Loop} {line : Csv.Record} {lines : List Csv.Record}

section Defs

variable (E : CustomerEnv) (D : TextRules) (now : LocalTime) (chunk : ℕ)
variable (header : List (Bytes × ℕ))

/-- A pass in which a chunk is due that the database does not take. -/
def throwsAt (x : Loop) (line : Csv.Record) : Bool :=
  match verdict E header x line with
  | .accepted parsed =>
    chunk ≤ x.st.batch.length + 1 && !(x.st.batch ++ [parsed]).all D.accepts
  | _ => false

/-- The loop where it ends, or the table where a chunk made it throw. -/
def importedOn : Loop → List Csv.Record → Except (Table CustomerRow) Loop
  | x, [] => if x.st.batch.all D.accepts then .ok (finished now x) else .error x.table
  | x, line :: lines =>
    if throwsAt E D chunk header x line then .error x.table
    else importedOn (feed E now chunk header x line) lines

/-- Every record that the import accepts differs, to the database, from the records that wait in
the batch, up to the first that the database does not take; that one has none before it there. -/
def ChunksAgree : Loop → List Csv.Record → Prop
  | _, [] => True
  | x, line :: lines =>
    match verdict E header x line with
    | .accepted parsed =>
      (∀ d ∈ x.st.batch, d.Apart E parsed)
        ∧ if D.accepts parsed then ChunksAgree (feed E now chunk header x line) lines
          else x.st.batch = []
    | _ => ChunksAgree (feed E now chunk header x line) lines

instance decidableChunksAgree : ∀ x lines, Decidable (ChunksAgree E D now chunk header x lines)
  | _, [] => .isTrue trivial
  | x, line :: lines =>
    have := decidableChunksAgree (feed E now chunk header x line) lines
    match h : verdict E header x line with
    | .accepted parsed =>
      decidable_of_iff ((∀ d ∈ x.st.batch, d.Apart E parsed)
        ∧ if D.accepts parsed then
            ChunksAgree E D now chunk header (feed E now chunk header x line) lines
          else x.st.batch = []) (by rw [ChunksAgree, h])
    | .empty | .refused _ | .known =>
      decidable_of_iff (ChunksAgree E D now chunk header (feed E now chunk header x line) lines)
        (by rw [ChunksAgree, h])

end Defs

/-- The table that an import leaves. -/
def tableOf : Except (Table CustomerRow) Loop → Table CustomerRow
  | .ok y => y.table
  | .error t => t

section Run

variable {i : Int} {progress : Bool} {total : ℕ} {db : CustomerDb} {st : ImportState}

theorem runOn_flushIf (due : Bool) : (flushIf E due st).run (E.execOn D) i db =
    if due && !st.batch.all D.accepts then (.error .database, db)
    else (.ok (flushed (E.zone.date i) due ⟨db.customer, st⟩).st,
      { db with customer := (flushed (E.zone.date i) due ⟨db.customer, st⟩).table }) := by
  have hwritten : (CustomerStmt.written db.customer
      (.createMany (st.batch.map (newRow (E.zone.date i))))) = st.batch := by
    simp [CustomerStmt.written, newRow, Function.comp_def]
  cases due with
  | false => rfl
  | true =>
    by_cases h : st.batch.all D.accepts = true
    · rw [if_neg (by simp [h])]
      have hexec :=
        @execOn_of_accepts E D (.createMany (st.batch.map (newRow (E.zone.date i)))) i db
          (by rw [hwritten, h])
      simp only [flushIf, flush, if_true, Prog.run, Prog.time_bind, Prog.stmt_bind, Prog.clock_bind,
        Prog.bind_call_resume, hexec]
      rfl
    · rw [if_pos (by simpa using h)]
      have hexec := @execOn_of_not_accepts E D
        (.createMany (st.batch.map (newRow (E.zone.date i)))) i db
        (by rw [hwritten]; simpa using h)
      simp only [flushIf, flush, if_true, Prog.run, Prog.time_bind, Prog.stmt_bind, Prog.clock_bind,
        Prog.bind_call_resume, hexec, Prog.resume_error]

theorem runOn_importRow (line : Csv.Record) :
    (importRow E chunk progress total header st line).run (E.execOn D) i db =
      if throwsAt E D chunk header ⟨db.customer, st⟩ line then (.error .database, db)
      else (.ok (feed E (E.zone.date i) chunk header ⟨db.customer, st⟩ line).st,
        { db with
          customer := (feed E (E.zone.date i) chunk header ⟨db.customer, st⟩ line).table }) := by
  have hknown : ∀ parsed, (isKnown parsed).run (E.execOn D) i db =
      (.ok (known E db.customer parsed), db) := by
    intro parsed
    have hname : Prog.run (E.execOn D) i (issue (.existsByName parsed.name none)) db =
        (.ok (CustomerModel.existsByName E db.customer parsed.name none), db) := rfl
    unfold isKnown known
    rw [Prog.run_bind, hname]
    cases CustomerModel.existsByName E db.customer parsed.name none
    · cases parsed.email <;> rfl
    · rfl
  have hreport : ∀ (st : ImportState) (db : CustomerDb),
      (report progress total st).run (E.execOn D) i db = (.ok (), db) := by
    intro st db
    unfold report
    split <;> rfl
  by_cases hempty : isEmptyRow line = true
  · simp only [importRow, feed, throwsAt, verdict, hempty, if_true]
    rfl
  · cases hvalid : validateRow E (parseRow line header) st.seenNames st.seenEmails with
    | some error =>
      simp only [importRow, feed, throwsAt, verdict, hempty, hvalid, Bool.false_eq_true, if_false]
      rfl
    | none =>
      simp only [importRow, feed, throwsAt, verdict, hempty, hvalid, Bool.false_eq_true, if_false]
      rw [Prog.run_bind, hknown]
      cases known E db.customer (parseRow line header)
      · simp only [Bool.false_eq_true, if_false]
        rw [Prog.run_bind, runOn_flushIf]
        have hbatch : (ImportState.accept E { st with processed := st.processed + 1 }
            (parseRow line header)).batch = st.batch ++ [parseRow line header] := rfl
        simp only [hbatch, List.length_append, List.length_singleton]
        split_ifs
        · rfl
        · simp only
          rw [Prog.run_bind, hreport]
          rfl
      · rfl

/-- The records and the last chunk, as one loop. -/
theorem runOn_importRows (lines : List Csv.Record) :
    (importRows E chunk progress total header st lines >>= fun st =>
      flushIf E (st.batch ≠ []) st).run (E.execOn D) i db =
      match importedOn E D (E.zone.date i) chunk header ⟨db.customer, st⟩ lines with
      | .ok y => (.ok y.st, { db with customer := y.table })
      | .error t => (.error .database, { db with customer := t }) := by
  induction lines generalizing st db with
  | nil =>
    have hdue : (decide (st.batch ≠ []) && !st.batch.all D.accepts) = !st.batch.all D.accepts := by
      by_cases h : st.batch = [] <;> simp [h]
    show (flushIf E (st.batch ≠ []) st).run (E.execOn D) i db = _
    rw [runOn_flushIf, hdue, importedOn]
    by_cases h : st.batch.all D.accepts = true
    · rw [if_neg (by simp [h]), if_pos h]
      rfl
    · rw [if_pos (by simpa using h), if_neg h]
  | cons line lines ih =>
    rw [importRows, Prog.bind_assoc, Prog.run_bind, runOn_importRow, importedOn]
    split_ifs
    · rfl
    · exact ih

/-- What a process returns or throws, and the database that it leaves. -/
def outcome (total : ℕ) (db : CustomerDb) :
    Except (Table CustomerRow) Loop → Except Failure ImportResult × CustomerDb
  | .ok y => (.ok (y.result total), { db with customer := y.table })
  | .error t => (.error .database, { db with customer := t })

theorem runOn_process_eq {path contents : Bytes} (hfile : db.files path = some contents) :
    (process E chunk path progress).run (E.execOn D) i db =
      (importRecords E chunk progress (countDataRows (some contents))
        ((Csv.records contents).head?.getD []) (dataRecords contents)).run (E.execOn D) i db := by
  have hread : Prog.run (E.execOn D) i (issue (.readFile path)) db = (.ok (some contents), db) := by
    rw [← hfile]
    rfl
  unfold process
  rw [Prog.run_bind, Prog.run_map, hread]
  simp only [Except.map]
  rw [Prog.run_bind, hread]
  rfl

theorem runOn_process {path contents : Bytes} (hfile : db.files path = some contents)
    (hname : HasName contents) :
    (process E chunk path progress).run (E.execOn D) i db =
      outcome (countDataRows (some contents)) db (importedOn E D (E.zone.date i) chunk
        (fileHeader contents) ⟨db.customer, ImportState.initial⟩ (dataRecords contents)) := by
  have hsome : ¬ ((headerMap ((Csv.records contents).head?.getD [])).lookup
      (ascii "name")).isNone = true := by
    intro hnone
    rw [HasName, fileHeader, Option.isNone_iff_eq_none.mp hnone] at hname
    cases hname
  rw [runOn_process_eq hfile, importRecords, if_neg hsome]
  simp only
  rw [← Prog.bind_assoc, Prog.run_bind, runOn_importRows]
  change _ = outcome (countDataRows (some contents)) db (importedOn E D (E.zone.date i) chunk
    (headerMap ((Csv.records contents).head?.getD [])) ⟨db.customer, ImportState.initial⟩
    (dataRecords contents))
  cases importedOn E D (E.zone.date i) chunk (headerMap ((Csv.records contents).head?.getD []))
    ⟨db.customer, ImportState.initial⟩ (dataRecords contents) with
  | error t => rfl
  | ok y => cases progress <;> rfl

theorem runOn_process_of_not_hasName {path contents : Bytes}
    (hfile : db.files path = some contents) (hname : ¬ HasName contents) :
    (process E chunk path progress).run (E.execOn D) i db =
      (.error (.runtime "Import CSV is missing a name column."), db) := by
  have hnone : ((headerMap ((Csv.records contents).head?.getD [])).lookup
      (ascii "name")).isNone = true := by
    rw [Option.isNone_iff_eq_none]
    exact Option.not_isSome_iff_eq_none.mp hname
  rw [runOn_process_eq hfile, importRecords, if_pos hnone]
  rfl

end Run

/-- The loop with its batch inserted. -/
def Loop.flush (now : LocalTime) (x : Loop) : Loop := flushed now true x

theorem flush_flushed (due : Bool) : (flushed now due x).flush now = x.flush now := by
  cases due <;> simp [Loop.flush, flushed]

theorem finished_eq_flush : finished now x = x.flush now := by
  unfold finished Loop.flush
  by_cases h : x.st.batch = []
  · obtain ⟨t, st⟩ := x
    cases st
    simp_all [flushed]
  · simp [h]

theorem known_flush (now : LocalTime) {d : CustomerData} : known E (x.flush now).table d = true ↔
    known E x.table d = true ∨ ∃ e ∈ x.st.batch, ¬ e.Apart E d := known_insertAll

theorem verdict_flush (now : LocalTime) (h : ∀ parsed, verdict E header x line = .accepted parsed →
    ∀ d ∈ x.st.batch, d.Apart E parsed) :
    verdict E header (x.flush now) line = verdict E header x line := by
  have hseen : (x.flush now).st.seenNames = x.st.seenNames
      ∧ (x.flush now).st.seenEmails = x.st.seenEmails := ⟨rfl, rfl⟩
  by_cases hempty : isEmptyRow line = true
  · simp [verdict, hempty]
  · cases hvalid : validateRow E (parseRow line header) x.st.seenNames x.st.seenEmails with
    | some error => simp [verdict, hempty, hseen, hvalid]
    | none =>
      by_cases hknown : known E x.table (parseRow line header) = true
      · have hknown' := (known_flush now).mpr (.inl hknown)
        simp [verdict, hempty, hseen, hvalid, hknown, hknown']
      · have hacc : verdict E header x line = .accepted (parseRow line header) := by
          simp [verdict, hempty, hvalid, hknown]
        have hknown' : ¬ known E (x.flush now).table (parseRow line header) = true := by
          rw [known_flush now]
          rintro (hk | ⟨e, he, hnot⟩)
          · exact hknown hk
          · exact hnot (h _ hacc e he)
        simp [verdict, hempty, hseen, hvalid, hknown, hknown']

/-- A pass of the reference over the flushed loop is the flushed pass of the import. -/
theorem feed_flush (now : LocalTime) (chunk : ℕ)
    (h : ∀ parsed, verdict E header x line = .accepted parsed →
    ∀ d ∈ x.st.batch, d.Apart E parsed) :
    feed E now 1 header (x.flush now) line = (feed E now chunk header x line).flush now := by
  have hverdict := verdict_flush now h
  cases hv : verdict E header x line with
  | accepted parsed =>
    rw [feed_of_accepted hv, feed_of_accepted (hverdict.trans hv)]
    simp only
    rw [flush_flushed]
    simp [Loop.flush, flushed, ImportState.accept, insertAll_append, Nat.add_assoc]
  | _ =>
    simp only [feed, hverdict, hv]
    rfl

theorem throwsAt_of_accepted {parsed : CustomerData}
    (h : verdict E header x line = .accepted parsed) : throwsAt E D chunk header x line =
      (chunk ≤ x.st.batch.length + 1 && !(x.st.batch ++ [parsed]).all D.accepts) := by
  simp [throwsAt, h]

theorem throwsAt_of_not_accepted (h : ∀ parsed, verdict E header x line ≠ .accepted parsed) :
    throwsAt E D chunk header x line = false := by
  unfold throwsAt
  cases hv : verdict E header x line with
  | accepted parsed => exact absurd hv (h parsed)
  | _ => rfl

variable (now) in
theorem feed_of_due {parsed : CustomerData} (h : verdict E header x line = .accepted parsed)
    (hdue : chunk ≤ x.st.batch.length + 1) :
    (feed E now chunk header x line).table = insertAll now x.table (x.st.batch ++ [parsed])
      ∧ (feed E now chunk header x line).st.batch = [] := by
  rw [feed_of_accepted h]
  simp [ImportState.accept, flushed, hdue]

variable (now) in
theorem feed_of_not_due {parsed : CustomerData} (h : verdict E header x line = .accepted parsed)
    (hdue : ¬ chunk ≤ x.st.batch.length + 1) :
    (feed E now chunk header x line).table = x.table
      ∧ (feed E now chunk header x line).st.batch = x.st.batch ++ [parsed] := by
  rw [feed_of_accepted h]
  simp [ImportState.accept, flushed, hdue]

/-- A record that the database does not take keeps its whole chunk from the table. -/
theorem importedOn_doomed (h : x.st.batch.all D.accepts = false) :
    importedOn E D now chunk header x lines = .error x.table := by
  induction lines generalizing x with
  | nil => simp [importedOn, h]
  | cons line lines ih =>
    rw [importedOn]
    split_ifs with hthrows
    · rfl
    · by_cases hacc : ∃ parsed, verdict E header x line = .accepted parsed
      · obtain ⟨parsed, hv⟩ := hacc
        have hbad : (x.st.batch ++ [parsed]).all D.accepts = false := by
          rw [List.all_append, h, Bool.false_and]
        have hdue : ¬ chunk ≤ x.st.batch.length + 1 := by
          simpa [throwsAt_of_accepted hv, hbad] using hthrows
        obtain ⟨htable, hbatch⟩ := feed_of_not_due now hv hdue
        rw [ih (by rw [hbatch, hbad]), htable]
      · obtain ⟨htable, hbatch, -, -⟩ := feed_of_not_accepted now chunk (not_exists.mp hacc)
        rw [ih (by rw [hbatch, h]), htable]

variable (E D now chunk header) in
/-- What is inserted begins with the records that wait. -/
theorem table_importedOn (x : Loop) (lines : List Csv.Record) :
    ∃ ds, tableOf (importedOn E D now chunk header x lines) = insertAll now x.table ds
      ∧ (ds = [] ∨ x.st.batch <+: ds) := by
  induction lines generalizing x with
  | nil =>
    rw [importedOn]
    split_ifs
    · exact ⟨x.st.batch, finished_table, .inr List.prefix_rfl⟩
    · exact ⟨[], rfl, .inl rfl⟩
  | cons line lines ih =>
    rw [importedOn]
    split_ifs
    · exact ⟨[], rfl, .inl rfl⟩
    · obtain ⟨ds, htable, hds⟩ := ih (feed E now chunk header x line)
      by_cases hacc : ∃ parsed, verdict E header x line = .accepted parsed
      · obtain ⟨parsed, hv⟩ := hacc
        by_cases hdue : chunk ≤ x.st.batch.length + 1
        · obtain ⟨hfed, -⟩ := feed_of_due now hv hdue
          refine ⟨x.st.batch ++ [parsed] ++ ds, ?_, .inr ?_⟩
          · rw [htable, hfed]
            exact insertAll_append.symm
          · rw [List.append_assoc]
            exact List.prefix_append _ _
        · obtain ⟨hfed, hbatch⟩ := feed_of_not_due now hv hdue
          rw [hfed] at htable
          rw [hbatch] at hds
          exact ⟨ds, htable, hds.imp_right fun h => (List.prefix_append _ _).trans h⟩
      · obtain ⟨hfed, hbatch, -, -⟩ := feed_of_not_accepted now chunk (not_exists.mp hacc)
        rw [hfed] at htable
        rw [hbatch] at hds
        exact ⟨ds, htable, hds⟩

variable (D now chunk lines) in
/-- A record that is accepted comes next. -/
theorem table_importedOn_accepted {parsed : CustomerData}
    (hv : verdict E header x line = .accepted parsed) : ∃ ds,
    tableOf (importedOn E D now chunk header x (line :: lines)) = insertAll now x.table ds
      ∧ (ds = [] ∨ x.st.batch ++ [parsed] <+: ds) := by
  rw [importedOn]
  split_ifs
  · exact ⟨[], rfl, .inl rfl⟩
  · obtain ⟨ds, htable, hds⟩ :=
      table_importedOn E D now chunk header (feed E now chunk header x line) lines
    by_cases hdue : chunk ≤ x.st.batch.length + 1
    · obtain ⟨hfed, -⟩ := feed_of_due now hv hdue
      refine ⟨x.st.batch ++ [parsed] ++ ds, ?_, .inr (List.prefix_append _ _)⟩
      rw [htable, hfed]
      exact insertAll_append.symm
    · obtain ⟨hfed, hbatch⟩ := feed_of_not_due now hv hdue
      rw [hfed] at htable
      rw [hbatch] at hds
      exact ⟨ds, htable, hds⟩

variable (E D now header x lines) in
/-- The reference inserts only what the table does not know. -/
theorem table_reference (hbatch : x.st.batch = []) :
    ∃ ds, tableOf (importedOn E D now 1 header x lines) = insertAll now x.table ds
      ∧ ∀ d ∈ ds, known E x.table d = false := by
  induction lines generalizing x with
  | nil =>
    refine ⟨[], ?_, by simp⟩
    simp [importedOn, hbatch, tableOf, finished_table]
  | cons line lines ih =>
    rw [importedOn]
    split_ifs
    · exact ⟨[], rfl, by simp⟩
    · by_cases hacc : ∃ parsed, verdict E header x line = .accepted parsed
      · obtain ⟨parsed, hv⟩ := hacc
        have hdue : 1 ≤ x.st.batch.length + 1 := Nat.le_add_left _ _
        obtain ⟨hfed, hempty⟩ := feed_of_due now hv hdue
        obtain ⟨ds, htable, hds⟩ := ih _ hempty
        rw [hbatch, List.nil_append] at hfed
        refine ⟨parsed :: ds, ?_, ?_⟩
        · rw [htable, hfed, ← insertAll_append]
          rfl
        · refine List.forall_mem_cons.mpr ⟨(of_accepted hv).2.2.2, fun d hd => ?_⟩
          have hunknown := hds d hd
          rw [hfed] at hunknown
          by_contra hknown
          rw [known_insertAll_of_known (by simpa using hknown)] at hunknown
          cases hunknown
      · obtain ⟨hfed, hsame, -, -⟩ := feed_of_not_accepted now 1 (not_exists.mp hacc)
        obtain ⟨ds, htable, hds⟩ := ih _ (hsame.trans hbatch)
        rw [hfed] at htable hds
        exact ⟨ds, htable, hds⟩

/-! ## The two imports -/

theorem flush_of_batch_nil (h : x.st.batch = []) : x.flush now = x := by
  rw [← finished_eq_flush, finished]
  simp [flushed, h]

/-- What is accepted leaves a batch that the database takes. -/
theorem accepts_feed {parsed : CustomerData} (hv : verdict E header x line = .accepted parsed)
    (h : x.st.batch.all D.accepts = true) (hparsed : D.accepts parsed = true) :
    (feed E now chunk header x line).st.batch.all D.accepts = true := by
  by_cases hdue : chunk ≤ x.st.batch.length + 1
  · rw [(feed_of_due now hv hdue).2]
    rfl
  · rw [(feed_of_not_due now hv hdue).2]
    simp [List.all_append, h, hparsed]

/-- Where both take a record, so do both loops. -/
theorem importedOn_cons_accepts (chunk : ℕ) {parsed : CustomerData}
    (hv : verdict E header x line = .accepted parsed)
    (h : x.st.batch.all D.accepts = true) (hparsed : D.accepts parsed = true) :
    importedOn E D now chunk header x (line :: lines) =
      importedOn E D now chunk header (feed E now chunk header x line) lines := by
  rw [importedOn, throwsAt_of_accepted hv, if_neg]
  simp [List.all_append, h, hparsed]

theorem importedOn_cons_not_accepted (chunk : ℕ)
    (h : ∀ parsed, verdict E header x line ≠ .accepted parsed) :
    importedOn E D now chunk header x (line :: lines) =
      importedOn E D now chunk header (feed E now chunk header x line) lines := by
  rw [importedOn, throwsAt_of_not_accepted h, if_neg (by simp)]

/-- A record that the database does not take ends the chunk, as the pass or later. -/
theorem importedOn_cons_refused (chunk : ℕ) {parsed : CustomerData}
    (hv : verdict E header x line = .accepted parsed) (hparsed : D.accepts parsed = false) :
    importedOn E D now chunk header x (line :: lines) = .error x.table := by
  have hbad : (x.st.batch ++ [parsed]).all D.accepts = false := by
    simp [List.all_append, hparsed]
  rw [importedOn, throwsAt_of_accepted hv, hbad]
  by_cases hdue : chunk ≤ x.st.batch.length + 1
  · rw [if_pos (by simp [hdue])]
  · obtain ⟨htable, hbatch⟩ := feed_of_not_due now hv hdue
    rw [if_neg (by simp [hdue]), importedOn_doomed (by rw [hbatch, hbad]), htable]

theorem chunksAgree_of_not_accepted (h : ∀ parsed, verdict E header x line ≠ .accepted parsed) :
    ChunksAgree E D now chunk header x (line :: lines) ↔
      ChunksAgree E D now chunk header (feed E now chunk header x line) lines := by
  rw [ChunksAgree]
  cases hv : verdict E header x line with
  | accepted parsed => exact absurd hv (h parsed)
  | _ => rfl

theorem chunksAgree_of_accepted {parsed : CustomerData}
    (hv : verdict E header x line = .accepted parsed) :
    ChunksAgree E D now chunk header x (line :: lines) ↔ (∀ d ∈ x.st.batch, d.Apart E parsed)
      ∧ if D.accepts parsed then
          ChunksAgree E D now chunk header (feed E now chunk header x line) lines
        else x.st.batch = [] := by
  rw [ChunksAgree, hv]

variable (now chunk lines) in
/-- A record that differs from those that wait takes the import and the reference the same way. -/
theorem importedOn_both_of_accepts {parsed : CustomerData}
    (hv : verdict E header x line = .accepted parsed) (hapart : ∀ d ∈ x.st.batch, d.Apart E parsed)
    (hbatch : x.st.batch.all D.accepts = true) (hparsed : D.accepts parsed = true) :
    importedOn E D now chunk header x (line :: lines) =
        importedOn E D now chunk header (feed E now chunk header x line) lines
      ∧ importedOn E D now 1 header (x.flush now) (line :: lines) =
        importedOn E D now 1 header ((feed E now chunk header x line).flush now) lines := by
  have hflushed : (x.flush now).st.batch.all D.accepts = true := rfl
  have hline : ∀ parsed, verdict E header x line = .accepted parsed →
      ∀ d ∈ x.st.batch, d.Apart E parsed := by
    intro parsed' hv'
    rw [hv] at hv'
    exact Verdict.accepted.inj hv' ▸ hapart
  have hvflush := (verdict_flush now hline).trans hv
  refine ⟨importedOn_cons_accepts chunk hv hbatch hparsed, ?_⟩
  rw [importedOn_cons_accepts 1 hvflush hflushed hparsed, feed_flush now chunk hline]

variable (now chunk lines) in
theorem importedOn_both_of_not_accepted
    (hnot : ∀ parsed, verdict E header x line ≠ .accepted parsed) :
    importedOn E D now chunk header x (line :: lines) =
        importedOn E D now chunk header (feed E now chunk header x line) lines
      ∧ importedOn E D now 1 header (x.flush now) (line :: lines) =
        importedOn E D now 1 header ((feed E now chunk header x line).flush now) lines := by
  have hline : ∀ parsed, verdict E header x line = .accepted parsed →
      ∀ d ∈ x.st.batch, d.Apart E parsed := fun parsed hv => absurd hv (hnot parsed)
  have hnot' : ∀ parsed, verdict E header (x.flush now) line ≠ .accepted parsed := by
    rw [verdict_flush now hline]
    exact hnot
  refine ⟨importedOn_cons_not_accepted chunk hnot, ?_⟩
  rw [importedOn_cons_not_accepted 1 hnot', feed_flush now chunk hline]

variable (now chunk lines) in
/-- Where the database does not take the record, both end with it. -/
theorem importedOn_both_of_refused {parsed : CustomerData}
    (hv : verdict E header x line = .accepted parsed) (hapart : ∀ d ∈ x.st.batch, d.Apart E parsed)
    (hrefused : D.accepts parsed = false) :
    importedOn E D now chunk header x (line :: lines) = .error x.table
      ∧ importedOn E D now 1 header (x.flush now) (line :: lines) =
        .error (x.flush now).table := by
  have hvflush : verdict E header (x.flush now) line = .accepted parsed := by
    rw [verdict_flush now fun parsed' hv' => ?_, hv]
    rw [hv] at hv'
    exact Verdict.accepted.inj hv' ▸ hapart
  exact ⟨importedOn_cons_refused chunk hv hrefused, importedOn_cons_refused 1 hvflush hrefused⟩

theorem importedOn_flush (h : ChunksAgree E D now chunk header x lines)
    (hbatch : x.st.batch.all D.accepts = true) :
    importedOn E D now chunk header x lines = importedOn E D now 1 header (x.flush now) lines := by
  induction lines generalizing x with
  | nil =>
    have hflushed : (x.flush now).st.batch.all D.accepts = true := rfl
    rw [importedOn, importedOn, if_pos hbatch, if_pos hflushed, finished_eq_flush,
      finished_eq_flush]
    exact congrArg Except.ok (flush_flushed true).symm
  | cons line lines ih =>
    by_cases hacc : ∃ parsed, verdict E header x line = .accepted parsed
    · obtain ⟨parsed, hv⟩ := hacc
      obtain ⟨hapart, hrest⟩ := (chunksAgree_of_accepted hv).mp h
      by_cases hparsed : D.accepts parsed = true
      · rw [if_pos hparsed] at hrest
        obtain ⟨hrun, hreference⟩ :=
          importedOn_both_of_accepts now chunk lines hv hapart hbatch hparsed
        rw [hrun, hreference]
        exact ih hrest (accepts_feed hv hbatch hparsed)
      · rw [if_neg hparsed] at hrest
        have hrefused : D.accepts parsed = false := by simpa using hparsed
        obtain ⟨hrun, hreference⟩ :=
          importedOn_both_of_refused now chunk lines hv hapart hrefused
        rw [hrun, hreference, flush_of_batch_nil hrest]
    · have hnot := not_exists.mp hacc
      obtain ⟨hrun, hreference⟩ :=
        importedOn_both_of_not_accepted (D := D) now chunk lines hnot
      rw [hrun, hreference]
      refine ih ((chunksAgree_of_not_accepted hnot).mp h) ?_
      rw [(feed_of_not_accepted now chunk hnot).2.1]
      exact hbatch

/-- Two imports that leave the same table are alike. -/
theorem chunksAgree_of_table (hbatch : x.st.batch.all D.accepts = true)
    (h : tableOf (importedOn E D now chunk header x lines) =
      tableOf (importedOn E D now 1 header (x.flush now) lines)) :
    ChunksAgree E D now chunk header x lines := by
  induction lines generalizing x with
  | nil => trivial
  | cons line lines ih =>
    by_cases hacc : ∃ parsed, verdict E header x line = .accepted parsed
    · obtain ⟨parsed, hv⟩ := hacc
      have hapart : ∀ d ∈ x.st.batch, d.Apart E parsed := by
        -- The import inserts the record or nothing, and the reference what waits, but not it.
        intro d hd
        by_contra hnot
        obtain ⟨ds, htable, hds⟩ := table_importedOn_accepted D now chunk lines hv
        obtain ⟨new, htable', hnew⟩ :=
          table_reference E D now header (x.flush now) (line :: lines) rfl
        have hinserted : insertAll now x.table ds = insertAll now x.table (x.st.batch ++ new) := by
          rw [← htable, h, htable', insertAll_append]
          rfl
        have hsame : ds = x.st.batch ++ new := insertAll_injective hinserted
        rcases hds with rfl | hds
        · rw [(List.append_eq_nil_iff.mp hsame.symm).1] at hd
          cases hd
        · rw [hsame, List.prefix_append_right_inj] at hds
          have hunknown := hnew parsed (hds.subset List.mem_cons_self)
          rw [(known_flush now).mpr (.inr ⟨d, hd, hnot⟩)] at hunknown
          cases hunknown
      refine (chunksAgree_of_accepted hv).mpr ⟨hapart, ?_⟩
      by_cases hparsed : D.accepts parsed = true
      · rw [if_pos hparsed]
        obtain ⟨hrun, hreference⟩ :=
          importedOn_both_of_accepts now chunk lines hv hapart hbatch hparsed
        rw [hrun, hreference] at h
        exact ih (accepts_feed hv hbatch hparsed) h
      · rw [if_neg hparsed]
        have hrefused : D.accepts parsed = false := by simpa using hparsed
        obtain ⟨hrun, hreference⟩ :=
          importedOn_both_of_refused now chunk lines hv hapart hrefused
        rw [hrun, hreference] at h
        have hinserted : insertAll now x.table [] = insertAll now x.table x.st.batch := h
        exact (insertAll_injective hinserted).symm
    · have hnot := not_exists.mp hacc
      obtain ⟨hrun, hreference⟩ :=
        importedOn_both_of_not_accepted (D := D) now chunk lines hnot
      rw [hrun, hreference] at h
      refine (chunksAgree_of_not_accepted hnot).mpr (ih ?_ h)
      rw [(feed_of_not_accepted now chunk hnot).2.1]
      exact hbatch

/-- Without a name column no record has a name. -/
theorem verdict_ne_accepted (h : header.lookup (ascii "name") = none) (parsed : CustomerData) :
    verdict E header x line ≠ .accepted parsed := by
  intro hv
  obtain ⟨-, rfl, hvalid, -⟩ := of_accepted hv
  have hname : (parseRow line header).name = [] := by
    simp [parseRow, value, h]
  simp [validateRow, rowError, hname] at hvalid

theorem chunksAgree_of_not_hasName (h : header.lookup (ascii "name") = none) :
    ChunksAgree E D now chunk header x lines := by
  induction lines generalizing x with
  | nil => trivial
  | cons line lines ih => exact (chunksAgree_of_not_accepted (verdict_ne_accepted h)).mpr ih

variable {db : CustomerDb} {i : Int} {progress : Bool} {path contents : Bytes}

/-- The import does with its chunks what it does with single records, on a database with whatever
demands, exactly where the two are alike. -/
theorem chunks_change_nothing_iff (D : TextRules) (hfile : db.files path = some contents) :
    (process E chunkSize path progress).run (E.execOn D) i db =
        (process E 1 path progress).run (E.execOn D) i db ↔
      ChunksAgree E D (E.zone.date i) chunkSize (fileHeader contents)
        ⟨db.customer, ImportState.initial⟩ (dataRecords contents) := by
  by_cases hname : HasName contents
  · rw [runOn_process hfile hname, runOn_process hfile hname]
    have hstart : Loop.flush (E.zone.date i) ⟨db.customer, ImportState.initial⟩ =
      ⟨db.customer, ImportState.initial⟩ := rfl
    constructor
    · intro h
      have htable : ∀ r, (outcome (countDataRows (some contents)) db r).2.customer = tableOf r := by
        rintro (t | y) <;> rfl
      refine chunksAgree_of_table rfl ?_
      rw [hstart, ← htable, ← htable, h]
    · intro h
      rw [importedOn_flush h rfl, hstart]
  · rw [runOn_process_of_not_hasName hfile hname, runOn_process_of_not_hasName hfile hname]
    have hnone : (fileHeader contents).lookup (ascii "name") = none :=
      Option.not_isSome_iff_eq_none.mp hname
    simp only [chunksAgree_of_not_hasName hnone]

end CustomerImportJob

/-! ## Sample files -/

namespace CustomerSample

/-- `utf8mb4_unicode_ci` on the letters of ASCII and on `é`. -/
def unicodeCi : Bytes → Bytes
  | 0xC3 :: 0xA9 :: s => 101 :: unicodeCi s
  | b :: s => strtolower [b] ++ unicodeCi s
  | [] => []

/-- The sample setting on MySQL. -/
def mysql : CustomerEnv := { env with weight := unicodeCi }

/-- The characters of one and of two bytes. -/
def utf8Short : Bytes → Bool
  | [] => true
  | b :: b' :: s =>
    if b < 0x80 then utf8Short (b' :: s)
    else 0xC2 ≤ b && b < 0xE0 && 0x80 ≤ b' && b' < 0xC0 && utf8Short s
  | [b] => b < 0x80

/-- MySQL in strict mode, on texts of such characters. -/
def strictShort : TextRules := ⟨utf8Short, true⟩

/-- A file that lists two customers. -/
def twoNames (name name' : Bytes) : Bytes := ascii "name\n" ++ name ++ 10 :: name' ++ [10]

end CustomerSample

open CustomerImportJob CustomerSample

theorem chunks_change_nothing_sample :
    (process mysql chunkSize importFile false).run (mysql.execOn strictShort) 1000
        (withImport (twoNames (ascii "Ada") (ascii "Bob")))
      = (process mysql 1 importFile false).run (mysql.execOn strictShort) 1000
        (withImport (twoNames (ascii "Ada") (ascii "Bob"))) :=
  (chunks_change_nothing_iff strictShort rfl).mpr (by decide +kernel)

/-- On MySQL the import inserts two customers that the reference takes for one, and a name that is
too long takes along the customer before it. -/
theorem chunk_hides_customer :
    (process mysql chunkSize importFile false).run (mysql.execOn strictShort) 1000
        (withImport (twoNames (ascii "Jos" ++ [0xC3, 0xA9]) (ascii "Jose")))
      ≠ (process mysql 1 importFile false).run (mysql.execOn strictShort) 1000
        (withImport (twoNames (ascii "Jos" ++ [0xC3, 0xA9]) (ascii "Jose")))
    ∧ (process mysql chunkSize importFile false).run (mysql.execOn strictShort) 1000
        (withImport (twoNames (ascii "Ada") (List.replicate 256 97)))
      ≠ (process mysql 1 importFile false).run (mysql.execOn strictShort) 1000
        (withImport (twoNames (ascii "Ada") (List.replicate 256 97))) := by
  constructor <;>
  · intro h
    have hrows := congrArg (fun r => r.2.customer.rows.length) h
    revert hrows
    decide +kernel

end SlimStarter
