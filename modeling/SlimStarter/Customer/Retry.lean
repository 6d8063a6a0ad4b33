import SlimStarter.Lib.Interrupt
import SlimStarter.Customer.Reimport

/-!
# Retrying a failed import

An attempt of `handle` stops where a statement on the table fails; it keeps the chunks inserted
before and, in its `finally`, removes the file (`standsAt_handle`). The retry then finds no file and
changes nothing, so it converges exactly where nothing was left to insert when the attempt failed
(`retry_converges_iff`).
-/

namespace SlimStarter

/-- The statement reads or changes the customer table. -/
def CustomerStmt.onTable (op : CustomerStmt) : Bool := op.reads || op.writes

/-- The data of the live customers. -/
def CustomerDb.liveData (db : CustomerDb) : List CustomerData :=
  (db.customer.rows.filter (·.live)).map (·.toCustomerData)

namespace CustomerImportJob

variable {E : CustomerEnv} {i : Int} {chunk : ℕ} {progress : Bool} {total : ℕ}
variable {header : List (Bytes × ℕ)} {st : ImportState} {line : Csv.Record}
variable {lines : List Csv.Record}

section Rethrows

open Prog

theorem rethrows_isKnown (parsed : CustomerData) : (isKnown parsed).Rethrows := by
  refine rethrows_stmt.bind fun byName => ?_
  cases byName
  · cases h : parsed.email with
    | none =>
      simp only [Bool.false_eq_true, if_false]
      trivial
    | some email =>
      simp only [Bool.false_eq_true, if_false]
      exact rethrows_stmt
  · trivial

theorem rethrows_flush (batch : List CustomerData) : (flush E batch).Rethrows := by
  refine rethrows_time.bind fun now => rethrows_stmt.bind fun _ => ?_
  trivial

theorem rethrows_flushIf (due : Bool) : (flushIf E due st).Rethrows := by
  cases due
  · trivial
  · refine (rethrows_flush st.batch).bind fun count => ?_
    trivial

theorem rethrows_report : (report progress total st).Rethrows := by
  unfold report
  split
  · exact rethrows_stmt
  · trivial

theorem rethrows_importRow : (importRow E chunk progress total header st line).Rethrows := by
  unfold importRow
  simp only
  split_ifs
  · trivial
  · split
    · trivial
    · refine (rethrows_isKnown _).bind fun known => ?_
      cases known
      · exact (rethrows_flushIf _).bind fun st => rethrows_report.bind fun _ => trivial
      · trivial

theorem rethrows_importRows : (importRows E chunk progress total header st lines).Rethrows := by
  induction lines generalizing st with
  | nil => trivial
  | cons line lines ih => exact rethrows_importRow.bind fun st => ih

theorem rethrows_process (path : Bytes) : (process E chunk path progress).Rethrows := by
  refine rethrows_stmt.map.bind fun total => rethrows_stmt.bind fun contents => ?_
  cases contents with
  | none => trivial
  | some contents =>
    simp only [importRecords]
    split_ifs
    · trivial
    · exact rethrows_importRows.bind fun st => (rethrows_flushIf _).bind fun st =>
        rethrows_stmt.bind fun _ => trivial
    · exact rethrows_importRows.bind fun st => (rethrows_flushIf _).bind fun st => trivial

end Rethrows

section Stands

variable {db db₁ : CustomerDb} {op : CustomerStmt}

theorem standsAt_isKnown {parsed : CustomerData} {k}
    (h : Prog.StandsAt E.exec i (isKnown parsed) db op k db₁) :
    op ∈ parsed.checks none ∧ db₁ = db := by
  rcases h.bind with ⟨k', h, -⟩ | ⟨byName, db', hrun, h⟩
  · obtain ⟨rfl, rfl⟩ := h.stmt
    exact ⟨by simp [CustomerData.checks], rfl⟩
  · obtain rfl : db = db' := congrArg Prod.snd hrun
    cases byName
    · cases hemail : parsed.email with
      | none =>
        simp only [Bool.false_eq_true, if_false, hemail] at h
        cases h
      | some email =>
        simp only [Bool.false_eq_true, if_false, hemail] at h
        obtain ⟨rfl, rfl⟩ := h.stmt
        exact ⟨by simp [CustomerData.checks, hemail], rfl⟩
    · cases h

theorem standsAt_flush {batch : List CustomerData} {k}
    (h : Prog.StandsAt E.exec i (flush E batch) db op k db₁) : op.writes = true ∧ db₁ = db := by
  rcases h.bind with ⟨k', h, -⟩ | ⟨now, db', hrun, h⟩
  · cases h with
    | clock h => cases h
  · obtain rfl : db = db' := congrArg Prod.snd hrun
    rcases h.bind with ⟨k', h, -⟩ | ⟨_, _, -, h⟩
    · obtain ⟨rfl, rfl⟩ := h.stmt
      exact ⟨rfl, rfl⟩
    · cases h

theorem standsAt_flushIf {due : Bool} {k}
    (h : Prog.StandsAt E.exec i (flushIf E due st) db op k db₁) :
    due = true ∧ op.writes = true ∧ db₁ = db := by
  cases due
  · cases h
  · rcases h.bind with ⟨k', h, -⟩ | ⟨_, _, -, h⟩
    · exact ⟨rfl, standsAt_flush h⟩
    · cases h

theorem standsAt_report {k} (h : Prog.StandsAt E.exec i (report progress total st) db op k db₁) :
    op.onTable = false := by
  unfold report at h
  split at h
  · obtain ⟨rfl, -⟩ := Prog.StandsAt.stmt h
    rfl
  · cases h

/-- While it works on a record, the job stands at a check of it, or inserts a batch that the record
has completed. -/
theorem standsAt_importRow (hop : op.onTable = true) {k}
    (h : Prog.StandsAt E.exec i (importRow E chunk progress total header st line) db op k db₁) :
    db₁ = db ∧ (op ∈ (parseRow line header).checks none
      ∨ op.writes = true
        ∧ ∃ parsed, verdict E header ⟨db.customer, st⟩ line = .accepted parsed) := by
  by_cases hempty : isEmptyRow line = true
  · simp only [importRow, hempty, if_true] at h
    cases h
  · cases hvalid : validateRow E (parseRow line header) st.seenNames st.seenEmails with
    | some error =>
      simp only [importRow, hempty, hvalid, Bool.false_eq_true, if_false] at h
      cases h
    | none =>
      simp only [importRow, hempty, hvalid, Bool.false_eq_true, if_false] at h
      rcases h.bind with ⟨k', h, -⟩ | ⟨isKnown, db', hrun, h⟩
      · obtain ⟨hcheck, rfl⟩ := standsAt_isKnown h
        exact ⟨rfl, .inl hcheck⟩
      · rw [run_isKnown] at hrun
        obtain ⟨hknown, rfl⟩ := Prod.mk.inj hrun
        cases isKnown
        · simp only [Bool.false_eq_true, if_false] at h
          have hacc : verdict E header ⟨db.customer, st⟩ line =
              .accepted (parseRow line header) := by
            simp [verdict, hempty, hvalid, Except.ok.inj hknown]
          rcases h.bind with ⟨k', h, -⟩ | ⟨st', db', -, h⟩
          · obtain ⟨-, hwrites, rfl⟩ := standsAt_flushIf h
            exact ⟨rfl, .inr ⟨hwrites, _, hacc⟩⟩
          · rcases h.bind with ⟨k', h, -⟩ | ⟨_, _, -, h⟩
            · rw [standsAt_report h] at hop
              cases hop
            · cases h
        · cases h

/-- In its loop, the job stands at a record; the records before it have been fed. -/
theorem standsAt_importRows (hop : op.onTable = true) {k}
    (h : Prog.StandsAt E.exec i (importRows E chunk progress total header st lines) db op k db₁) :
    ∃ pre line post, lines = pre ++ line :: post
      ∧ db₁ = { db with customer :=
          (feedAll E (E.zone.date i) chunk header ⟨db.customer, st⟩ pre).table }
      ∧ (op ∈ (parseRow line header).checks none
        ∨ op.writes = true ∧ ∃ parsed, verdict E header
            (feedAll E (E.zone.date i) chunk header ⟨db.customer, st⟩ pre) line =
              .accepted parsed) := by
  induction lines generalizing st db with
  | nil => cases h
  | cons line lines ih =>
    rcases Prog.StandsAt.bind h with ⟨k', h, -⟩ | ⟨st', db', hrun, h⟩
    · obtain ⟨rfl, hcases⟩ := standsAt_importRow hop h
      exact ⟨[], line, lines, rfl, rfl, hcases⟩
    · rw [run_importRow] at hrun
      obtain ⟨hst, rfl⟩ := Prod.mk.inj hrun
      obtain rfl := Except.ok.inj hst
      obtain ⟨pre, line', post, rfl, hdb, hcases⟩ := ih h
      exact ⟨line :: pre, line', post, rfl, hdb, hcases⟩

/-- The failing statement is a check of the next record, or inserts a batch. -/
def CheckOrInsert (E : CustomerEnv) (now : LocalTime) (chunk : ℕ) (header : List (Bytes × ℕ))
    (x : Loop) (rest : List Csv.Record) (op : CustomerStmt) : Prop :=
  (∃ line post, rest = line :: post ∧ op ∈ (parseRow line header).checks none)
    ∨ (op.writes = true ∧ x.st.batch ++ accepted E now chunk header x rest ≠ [])

theorem standsAt_process (hop : op.onTable = true) {path contents : Bytes}
    (hfile : db.files path = some contents) {k}
    (h : Prog.StandsAt E.exec i (process E chunk path progress) db op k db₁) :
    HasName contents ∧ ∃ pre rest x, dataRecords contents = pre ++ rest
      ∧ x = feedAll E (E.zone.date i) chunk (fileHeader contents)
          ⟨db.customer, ImportState.initial⟩ pre
      ∧ db₁ = { db with customer := x.table }
      ∧ CheckOrInsert E (E.zone.date i) chunk (fileHeader contents) x rest op := by
  have hread : ∀ {op' : CustomerStmt}, op'.onTable = true → op' ≠ .readFile path := by
    rintro _ hop' rfl
    cases hop'
  rcases h.bind with ⟨k', h, -⟩ | ⟨total, db', hrun, h⟩
  · obtain ⟨k', h⟩ := h.map
    exact absurd h.stmt.1 (hread hop)
  · rw [Prog.run_map, run_readFile hfile] at hrun
    obtain rfl : db = db' := congrArg Prod.snd hrun
    rcases h.bind with ⟨k', h, -⟩ | ⟨contents', db', hrun, h⟩
    · exact absurd h.stmt.1 (hread hop)
    · rw [run_readFile hfile] at hrun
      obtain ⟨hcontents, rfl⟩ := Prod.mk.inj hrun
      obtain rfl := Except.ok.inj hcontents
      simp only [importRecords] at h
      by_cases hname : HasName contents
      · rw [if_neg (by simpa [HasName, fileHeader, Option.isNone_iff_eq_none,
          ← Option.not_isSome_iff_eq_none] using hname)] at h
        refine ⟨hname, ?_⟩
        rcases h.bind with ⟨k', h, -⟩ | ⟨st, db', hrun, h⟩
        · obtain ⟨pre, line, post, hlines, hdb, hcases⟩ := standsAt_importRows hop h
          refine ⟨pre, line :: post, _, hlines, rfl, hdb, hcases.imp ?_ ?_⟩
          · exact fun hcheck => ⟨line, post, rfl, hcheck⟩
          · rintro ⟨hwrites, parsed, hv⟩
            refine ⟨hwrites, ?_⟩
            simp [accepted, fileHeader, hv, Verdict.batched]
        · rw [run_importRows] at hrun
          obtain ⟨hst, rfl⟩ := Prod.mk.inj hrun
          obtain rfl := Except.ok.inj hst
          rcases h.bind with ⟨k', h, -⟩ | ⟨st, db', -, h⟩
          · obtain ⟨hdue, hwrites, rfl⟩ := standsAt_flushIf h
            refine ⟨dataRecords contents, [], _, (List.append_nil _).symm, rfl, rfl,
              .inr ⟨hwrites, ?_⟩⟩
            rw [accepted, List.append_nil]
            exact of_decide_eq_true hdue
          · cases progress
            · cases h
            · rcases h.bind with ⟨k', h, -⟩ | ⟨_, _, -, h⟩
              · obtain ⟨rfl, -⟩ := Prog.StandsAt.stmt h
                cases hop
              · cases h
      · rw [if_pos (by
          rw [Option.isNone_iff_eq_none]
          exact Option.not_isSome_iff_eq_none.mp hname)] at h
        cases h

/-- Where the job stands, and what a failure there leaves: the chunks inserted so far, and no
file. -/
theorem standsAt_handle (hop : op.onTable = true) {file contents : Bytes}
    (hfile : db.files (customerImportFile E (basename file)) = some contents) {k}
    (h : Prog.StandsAt E.exec i (handle E file progress) db op k db₁) :
    basename file ≠ [] ∧ HasName contents ∧ ∃ pre rest x, dataRecords contents = pre ++ rest
      ∧ x = feedAll E (E.zone.date i) chunkSize (fileHeader contents)
          ⟨db.customer, ImportState.initial⟩ pre
      ∧ db₁ = { db with customer := x.table }
      ∧ CheckOrInsert E (E.zone.date i) chunkSize (fileHeader contents) x rest op
      ∧ ∀ e, (k (.error e)).run E.exec i db₁ =
          (.error e, db₁.withFile (customerImportFile E (basename file)) none) := by
  have hmissing : ∀ {k'} {db' : CustomerDb},
      ¬ Prog.StandsAt E.exec i (isMissing E (basename file)) db op k' db' := by
    intro k' db' h
    unfold isMissing at h
    split_ifs at h
    · cases h
    · obtain ⟨k', h⟩ := h.map
      obtain ⟨rfl, -⟩ := h.stmt
      cases hop
  rcases h.bind with ⟨k', h, -⟩ | ⟨missing, db', hrun, h⟩
  · exact absurd h hmissing
  · cases missing
    · rw [run_isMissing] at hrun
      obtain ⟨hfound, rfl⟩ := Prod.mk.inj hrun
      have hne : basename file ≠ [] := by
        intro hempty
        simp [hempty] at hfound
      simp only [Bool.false_eq_true, if_false] at h
      rcases h.tryFinally with ⟨k', hp, rfl⟩ | ⟨k', hq⟩
      · obtain ⟨hname, pre, rest, x, hlines, hx, hdb, hcases⟩ := standsAt_process hop hfile hp
        refine ⟨hne, hname, pre, rest, x, hlines, hx, hdb, hcases, fun e => ?_⟩
        simp only [hp.error (rethrows_process _) e]
        rfl
      · rcases hq.bind with ⟨k', hq, -⟩ | ⟨_, _, -, hq⟩
        · obtain ⟨rfl, -⟩ := hq.stmt
          cases hop
        · cases hq
    · cases h

end Stands

/-! ## The retry -/

section Retry

variable {t : Table CustomerRow} {ds : List CustomerData} {now : LocalTime}

theorem liveData_insertAll {db : CustomerDb} (ht : db.customer = insertAll now t ds)
    {db₀ : CustomerDb} (ht₀ : db₀.customer = t) : db.liveData = db₀.liveData ++ ds := by
  obtain ⟨new, hrows, rfl, hlive⟩ := insertAll_rows now t ds
  unfold CustomerDb.liveData
  rw [ht, hrows, ht₀, List.filter_append, List.map_append, List.filter_eq_self.mpr hlive]

theorem known_of_mem_liveData {db : CustomerDb} {d : CustomerData} (h : d ∈ db.liveData) :
    known E db.customer d = true := by
  obtain ⟨r, hr, rfl⟩ := List.mem_map.mp h
  obtain ⟨hr, hlive⟩ := List.mem_filter.mp hr
  exact known_iff.mpr ⟨r, hr, hlive, not_apart_self _⟩

/-- No record is left to insert: the attempt fails at a check of a record, before which no accepted
record waits, and from which on none is accepted. -/
def NothingLeft (E : CustomerEnv) (now : LocalTime) (header : List (Bytes × ℕ))
    (t t₁ : Table CustomerRow) (lines : List Csv.Record) (op : CustomerStmt) : Prop :=
  ∃ pre line post, lines = pre ++ line :: post ∧ op ∈ (parseRow line header).checks none
    ∧ (feedAll E now chunkSize header ⟨t, ImportState.initial⟩ pre).table = t₁
    ∧ (feedAll E now chunkSize header ⟨t, ImportState.initial⟩ pre).st.batch = []
    ∧ accepted E now chunkSize header (feedAll E now chunkSize header ⟨t, ImportState.initial⟩ pre)
        (line :: post) = []

/-- From any state of the loop, the import ends with what waits and what is accepted later. -/
theorem imported_table_of_feedAll {header : List (Bytes × ℕ)} (pre rest : List Csv.Record) :
    (imported E now chunk header t (pre ++ rest)).table =
      insertAll now (feedAll E now chunk header ⟨t, ImportState.initial⟩ pre).table
        ((feedAll E now chunk header ⟨t, ImportState.initial⟩ pre).st.batch
          ++ accepted E now chunk header (feedAll E now chunk header ⟨t, ImportState.initial⟩ pre)
            rest) := by
  unfold imported
  rw [finished_table, feedAll_append, insertAll_feedAll]

variable {db : CustomerDb} {i' : Int} {file contents : Bytes} {op : CustomerStmt}

/-- Where a statement on the table fails, the retry ends with the customers of the uninterrupted run
exactly if nothing was left to insert. -/
theorem retry_converges_iff (n : ℕ) (e : Failure)
    (hfile : db.files (customerImportFile E (basename file)) = some contents)
    (hat : ((handle E file progress).steps E.exec i n db).1.statement? = some op)
    (hop : op.onTable = true) :
    let stopped := (handle E file progress).steps E.exec i n db
    let attempt := ((stopped.1.failed e).run E.exec i stopped.2).2
    let retried := ((handle E file progress).run E.exec i' attempt).2
    let whole := ((handle E file progress).run E.exec i db).2
    (∀ d, d ∈ retried.liveData ↔ d ∈ whole.liveData) ↔
      NothingLeft E (E.zone.date i) (fileHeader contents) db.customer stopped.2.customer
        (dataRecords contents) op := by
  intro stopped attempt retried whole
  obtain ⟨k, hk⟩ := Prog.statement?_eq_some.mp hat
  have hsteps : (handle E file progress).steps E.exec i n db = (.call op k, stopped.2) := by
    rw [← hk]
  have hstands := Prog.StandsAt.of_steps hsteps
  obtain ⟨hne, hname, pre, rest, x, hlines, hx, hdb, hcases, hfail⟩ :=
    standsAt_handle hop hfile hstands
  have hattempt : attempt =
      stopped.2.withFile (customerImportFile E (basename file)) none := by
    simp only [attempt, stopped, hk, Prog.failed]
    rw [hfail e]
  have hretried : retried.customer = x.table := by
    have hgone : attempt.files (customerImportFile E (basename file)) = none := by
      rw [hattempt]
      simp [CustomerDb.withFile]
    have hrun := @run_handle_of_missing E i' progress attempt file hgone
    simp only [retried, hrun]
    rw [hattempt, hdb]
    rfl
  have hwhole : whole.customer = insertAll (E.zone.date i) x.table
      (x.st.batch ++ accepted E (E.zone.date i) chunkSize (fileHeader contents) x rest) := by
    simp only [whole, run_handle hne hfile hname]
    rw [hx, ← imported_table_of_feedAll, ← hlines]
    rfl
  have hlive := liveData_insertAll hwhole hretried
  have hfresh : ∀ d ∈ x.st.batch
      ++ accepted E (E.zone.date i) chunkSize (fileHeader contents) x rest,
      known E retried.customer d = false := by
    rw [hretried]
    intro d hd
    rcases List.mem_append.mp hd with hd | hd
    · have hinitial : Loop.Fresh E ⟨db.customer, ImportState.initial⟩ := fun d hd => by
        simp [ImportState.initial] at hd
      exact (hx ▸ hinitial.feedAll) d hd
    · exact known_of_accepted hd
  constructor
  · intro hsame
    have hnil : x.st.batch ++ accepted E (E.zone.date i) chunkSize (fileHeader contents) x rest
        = [] := by
      refine List.eq_nil_iff_forall_not_mem.mpr fun d hd => ?_
      have hmem : d ∈ retried.liveData := (hsame d).mpr (hlive ▸ List.mem_append_right _ hd)
      have hnot := hfresh d hd
      rw [known_of_mem_liveData hmem] at hnot
      cases hnot
    obtain ⟨hbatch, hnone⟩ := List.append_eq_nil_iff.mp hnil
    rcases hcases with ⟨line, post, rfl, hcheck⟩ | ⟨-, hsome⟩
    · rw [hx] at hbatch hnone
      exact ⟨pre, line, post, hlines, hcheck, by rw [hdb, hx], hbatch, hnone⟩
    · exact absurd hnil hsome
  · rintro ⟨pre', line, post, hlines', -, htable, hbatch, hnone⟩ d
    have hsame : whole.customer = retried.customer := by
      simp only [whole, run_handle hne hfile hname]
      rw [hlines']
      refine (imported_table_of_feedAll pre' (line :: post)).trans ?_
      rw [htable, hbatch, hnone, hretried, hdb]
      rfl
    unfold CustomerDb.liveData
    rw [hsame]

end Retry

end CustomerImportJob

/-! ## Sample attempts -/

open CustomerImportJob CustomerSample

namespace CustomerSample

/-- The customers after an attempt whose statement after the first `n` fails, and a retry. -/
def retried (db : CustomerDb) (n : ℕ) : CustomerDb :=
  let stopped := (handle env importFile false).steps env.exec 1000 n db
  let attempt := ((stopped.1.failed .database).run env.exec 1000 stopped.2).2
  ((handle env importFile false).run env.exec 2000 attempt).2

/-- A file that lists a customer of the table. -/
def onlyKnown : CustomerDb :=
  { withImport (ascii "name\nAda\n") with
    customer := (CustomerModel.create ⟨1000⟩ db.customer (customer (ascii "Ada"))).2 }

end CustomerSample

theorem retry_converges_sample :
    ((handle env importFile false).steps env.exec 1000 3 onlyKnown).1.statement? =
        some (.existsByName (ascii "Ada") none)
      ∧ ∀ d, d ∈ (retried onlyKnown 3).liveData ↔
        d ∈ ((handle env importFile false).run env.exec 1000 onlyKnown).2.liveData :=
  ⟨by decide +kernel, (@retry_converges_iff env 1000 false onlyKnown 2000 importFile
    (ascii "name\nAda\n") (.existsByName (ascii "Ada") none) 3 .database (by decide +kernel)
    (by decide +kernel) rfl).mpr ⟨[], [some (ascii "Ada")], [], by decide +kernel,
      by decide +kernel, by decide +kernel, by decide +kernel, by decide +kernel⟩⟩

/-- A chunk whose insert fails is not there after the retry. -/
theorem retry_loses_chunk :
    (((handle env importFile false).steps env.exec 1000 4
        (withImport (ascii "name\nBob\n"))).1.statement?.map (·.onTable)) = some true
      ∧ ¬ ∀ d, d ∈ (retried (withImport (ascii "name\nBob\n")) 4).liveData ↔
        d ∈ ((handle env importFile false).run env.exec 1000
          (withImport (ascii "name\nBob\n"))).2.liveData := by
  refine ⟨by decide +kernel, fun h => ?_⟩
  have hbob := (h (customer (ascii "Bob"))).mpr (by decide +kernel)
  revert hbob
  decide +kernel

end SlimStarter
