import SlimStarter.Customer.Accounting
import SlimStarter.Customer.Retry

/-!
# What a failing import commits

The job writes to the table by the flushes of its batch only, and each inserts a whole chunk; the
last may be smaller. Wherever the job is cut, the table has the accepted records of as many chunks
as there were flushes (`always_handle`), so that a flush that fails, or a process that dies, leaves
a prefix of the accepted records that ends with a chunk. No flush is empty, and a job that returns
has made as many as it takes for all of them (`import_commits_chunks`).
-/

namespace SlimStarter

/-- The statement inserts a batch. -/
def CustomerStmt.isFlush : CustomerStmt → Bool
  | createMany _ => true
  | _ => false

/-- The statement leaves the table as it is. -/
def CustomerStmt.LeavesTable (op : CustomerStmt) : Prop := op.writes = false

namespace CustomerImportJob

variable {E : CustomerEnv} {now : LocalTime} {i : Int} {chunk : ℕ} {progress : Bool} {total : ℕ}
variable {header : List (Bytes × ℕ)} {t : Table CustomerRow} {all : List CustomerData}
variable {db : CustomerDb} {st : ImportState} {x : Loop} {line : Csv.Record}
variable {lines : List Csv.Record} {k : ℕ}

/-- The table has the rows of as many chunks of the accepted records as were flushed, none of which
was empty. -/
structure Chunked (now : LocalTime) (chunk : ℕ) (t : Table CustomerRow) (all : List CustomerData)
    (s : CustomerDb × ℕ) : Prop where
  table : s.1.customer = insertAll now t (all.take (chunk * s.2))
  nonempty : chunk * s.2 < all.length + chunk

theorem exec_of_leavesTable {op : CustomerStmt} (h : op.LeavesTable) :
    (E.exec op i db).2.customer = db.customer ∧ op.isFlush = false := by
  refine ⟨customer_exec h i db, ?_⟩
  cases op <;> first | rfl | cases h

theorem Chunked.exec {s : CustomerDb × ℕ} {op : CustomerStmt} (hop : op.LeavesTable)
    (h : Chunked now chunk t all s) :
    Chunked now chunk t all (Prog.counted CustomerStmt.isFlush E.exec op i s).2 := by
  obtain ⟨hcustomer, hflush⟩ := @exec_of_leavesTable E i s.1 op hop
  obtain ⟨htable, hnonempty⟩ := h
  constructor
  · simpa only [Prog.counted, hcustomer, hflush, Bool.false_eq_true, false_and, if_false]
      using htable
  · simpa only [Prog.counted, hflush, Bool.false_eq_true, false_and, if_false] using hnonempty

variable {α : Type} {p : CustomerProg α} {A : α → Prop}

theorem always_of_only (hp : Prog.Only CustomerStmt.LeavesTable A p) {s : CustomerDb × ℕ}
    (h : Chunked now chunk t all s) :
    Prog.Always (Prog.counted CustomerStmt.isFlush E.exec) i (Chunked now chunk t all) p s :=
  .of_only hp (fun _ _ hop h => h.exec hop) h

theorem run_of_only (hp : Prog.Only CustomerStmt.LeavesTable A p) :
    p.run (Prog.counted CustomerStmt.isFlush E.exec) i (db, k) =
      ((p.run E.exec i db).1, (p.run E.exec i db).2, k) :=
  Prog.run_counted (hp.imp fun _ hop => (@exec_of_leavesTable E i db _ hop).2)

theorem leavesTable_of_plain (hp : Prog.Only CustomerStmt.Plain A p) :
    Prog.Only CustomerStmt.LeavesTable A p := hp.imp fun _ hop => hop.2

theorem only_reads_isKnown (parsed : CustomerData) :
    Prog.Only CustomerStmt.LeavesTable (fun _ => True) (isKnown parsed) :=
  leavesTable_of_plain (only_isKnown parsed)

theorem only_reads_report :
    Prog.Only CustomerStmt.LeavesTable (fun _ => True) (report progress total st) :=
  leavesTable_of_plain (only_report progress total st)

/-! ## The loop -/

/-- The record completes a chunk. -/
def completes (E : CustomerEnv) (chunk : ℕ) (header : List (Bytes × ℕ)) (x : Loop)
    (line : Csv.Record) : Bool :=
  (verdict E header x line).isAccepted && chunk ≤ x.st.batch.length + 1

/-- Where the loop stands after `k` flushes, given the records that the whole import accepts. -/
structure Committed (E : CustomerEnv) (now : LocalTime) (chunk : ℕ) (header : List (Bytes × ℕ))
    (t : Table CustomerRow) (all : List CustomerData) (x : Loop) (k : ℕ)
    (lines : List Csv.Record) : Prop where
  table : x.table = insertAll now t (all.take (chunk * k))
  full : chunk * k ≤ all.length
  rest : all.drop (chunk * k) = x.st.batch ++ accepted E now chunk header x lines
  waiting : x.st.batch.length < chunk

theorem Committed.rest_of_accepted (h : Committed E now chunk header t all x k (line :: lines))
    {parsed : CustomerData} (hv : verdict E header x line = .accepted parsed) :
    all.drop (chunk * k) = (x.st.batch ++ [parsed])
      ++ accepted E now chunk header (feed E now chunk header x line) lines := by
  rw [h.rest, accepted, hv, List.append_assoc]
  rfl

/-- An accepted record that completes a chunk is inserted with it. -/
theorem Committed.flush (h : Committed E now chunk header t all x k (line :: lines))
    {parsed : CustomerData} (hv : verdict E header x line = .accepted parsed)
    (hdue : chunk ≤ x.st.batch.length + 1) :
    Committed E now chunk header t all (feed E now chunk header x line) (k + 1) lines := by
  have hall := h.rest_of_accepted hv
  have hwaiting := h.waiting
  have hlength : (x.st.batch ++ [parsed]).length = x.st.batch.length + 1 := by simp
  have hchunk : chunk = (x.st.batch ++ [parsed]).length := by omega
  have hfeed : CustomerImportJob.feed E now chunk header x line =
      flushed now true ⟨x.table, ImportState.accept E
        { x.st with processed := x.st.processed + 1 } parsed⟩ := by
    rw [feed_of_accepted hv]
    simp [ImportState.accept, hdue]
  refine ⟨?_, ?_, ?_, ?_⟩
  · rw [hfeed]
    change insertAll now x.table (x.st.batch ++ [parsed]) = _
    rw [h.table, ← insertAll_append, Nat.mul_add_one, List.take_add, hall]
    congr 2
    exact (List.take_left' hchunk.symm).symm
  · have hleft := congrArg List.length hall
    simp only [List.length_drop, List.length_append] at hleft
    have hfull := h.full
    simp only [List.length_append] at hchunk
    rw [Nat.mul_add_one]
    omega
  · rw [Nat.mul_add_one, ← List.drop_drop, hall, List.drop_left' hchunk.symm, hfeed]
    rfl
  · rw [hfeed]
    exact Nat.lt_of_le_of_lt (Nat.zero_le _) hwaiting

theorem Committed.wait (h : Committed E now chunk header t all x k (line :: lines))
    {parsed : CustomerData} (hv : verdict E header x line = .accepted parsed)
    (hdue : ¬ chunk ≤ x.st.batch.length + 1) :
    Committed E now chunk header t all (feed E now chunk header x line) k lines := by
  have hall := h.rest_of_accepted hv
  have hfeed : CustomerImportJob.feed E now chunk header x line =
      ⟨x.table, ImportState.accept E { x.st with processed := x.st.processed + 1 } parsed⟩ := by
    rw [feed_of_accepted hv]
    simp [ImportState.accept, flushed, hdue]
  refine ⟨?_, h.full, ?_, ?_⟩
  · rw [hfeed]
    exact h.table
  · rw [hfeed] at hall ⊢
    exact hall
  · rw [hfeed]
    show (x.st.batch ++ [parsed]).length < chunk
    rw [List.length_append, List.length_singleton]
    omega

theorem Committed.feed (h : Committed E now chunk header t all x k (line :: lines)) :
    Committed E now chunk header t all (feed E now chunk header x line)
      (k + if completes E chunk header x line then 1 else 0) lines := by
  cases hv : verdict E header x line with
  | accepted parsed =>
    have hcompletes : completes E chunk header x line = decide (chunk ≤ x.st.batch.length + 1) := by
      simp [completes, hv, Verdict.isAccepted]
    rw [hcompletes]
    by_cases hdue : chunk ≤ x.st.batch.length + 1
    · simpa [hdue] using h.flush hv hdue
    · simpa [hdue] using h.wait hv hdue
  | empty | refused _ | known =>
    have hnot : ∀ parsed, verdict E header x line ≠ .accepted parsed := by simp [hv]
    obtain ⟨htable, hbatch, -, -⟩ := feed_of_not_accepted now chunk hnot
    have hcompletes : completes E chunk header x line = false := by
      simp [completes, hv, Verdict.isAccepted]
    rw [hcompletes]
    refine ⟨htable.trans h.table, h.full, ?_, hbatch ▸ h.waiting⟩
    rw [hbatch]
    refine h.rest.trans ?_
    rw [accepted, hv]
    rfl

theorem Committed.chunked (h : Committed E now chunk header t all x k lines)
    (hdb : db.customer = x.table) : Chunked now chunk t all (db, k) := by
  refine ⟨hdb.trans h.table, ?_⟩
  show chunk * k < all.length + chunk
  have hfull := h.full
  have hwaiting := h.waiting
  omega

theorem run_flushIf_counted (due : Bool) :
    (flushIf E due st).run (Prog.counted CustomerStmt.isFlush E.exec) i (db, k) =
      (.ok (flushed (E.zone.date i) due ⟨db.customer, st⟩).st,
        { db with customer := (flushed (E.zone.date i) due ⟨db.customer, st⟩).table },
        k + if due then 1 else 0) := by
  cases due <;> rfl

/-- The table is in whole chunks before a flush and after it. -/
theorem always_flushIf {due : Bool} (h : Chunked now chunk t all (db, k))
    (h' : Chunked now chunk t all
      ({ db with customer := (flushed (E.zone.date i) due ⟨db.customer, st⟩).table },
        k + if due then 1 else 0)) :
    Prog.Always (Prog.counted CustomerStmt.isFlush E.exec) i (Chunked now chunk t all)
      (flushIf E due st) (db, k) := by
  cases due
  · exact h
  · exact ⟨h, h'⟩

/-- One pass of the loop, with the flush it may make. -/
theorem run_importRow_counted (line : Csv.Record) :
    (importRow E chunk progress total header st line).run
        (Prog.counted CustomerStmt.isFlush E.exec) i (db, k) =
      (.ok (feed E (E.zone.date i) chunk header ⟨db.customer, st⟩ line).st,
        { db with
          customer := (feed E (E.zone.date i) chunk header ⟨db.customer, st⟩ line).table },
        k + if completes E chunk header ⟨db.customer, st⟩ line then 1 else 0) := by
  by_cases hempty : isEmptyRow line = true
  · simp only [importRow, feed, completes, verdict, hempty, if_true]
    rfl
  · cases hvalid : validateRow E (parseRow line header) st.seenNames st.seenEmails with
    | some error =>
      simp only [importRow, feed, completes, verdict, hempty, hvalid, Bool.false_eq_true, if_false]
      rfl
    | none =>
      simp only [importRow, feed, completes, verdict, hempty, hvalid, Bool.false_eq_true, if_false]
      rw [Prog.run_bind, run_of_only (only_reads_isKnown _), run_isKnown]
      cases known E db.customer (parseRow line header)
      · simp only [Bool.false_eq_true, if_false]
        rw [Prog.run_bind, run_flushIf_counted]
        simp only
        rw [Prog.run_bind, run_of_only only_reads_report, run_report]
        simp [Verdict.isAccepted, ImportState.accept]
      · rfl

theorem always_importRow
    (h : Committed E (E.zone.date i) chunk header t all ⟨db.customer, st⟩ k (line :: lines)) :
    Prog.Always (Prog.counted CustomerStmt.isFlush E.exec) i
      (Chunked (E.zone.date i) chunk t all)
      (importRow E chunk progress total header st line) (db, k) := by
  have hafter := h.feed
  by_cases hempty : isEmptyRow line = true
  · simp only [importRow, hempty, if_true]
    exact h.chunked rfl
  · cases hvalid : validateRow E (parseRow line header) st.seenNames st.seenEmails with
    | some error =>
      simp only [importRow, hempty, hvalid, Bool.false_eq_true, if_false]
      exact h.chunked rfl
    | none =>
      simp only [importRow, hempty, hvalid, Bool.false_eq_true, if_false]
      refine (always_of_only (only_reads_isKnown _) (h.chunked rfl)).bind fun isKnown s' hrun => ?_
      rw [run_of_only (only_reads_isKnown _), run_isKnown] at hrun
      obtain ⟨hknown, rfl⟩ := Prod.mk.inj hrun
      obtain rfl := Except.ok.inj hknown
      cases hk : known E db.customer (parseRow line header)
      · simp only [Bool.false_eq_true, if_false]
        have hv : verdict E header ⟨db.customer, st⟩ line = .accepted (parseRow line header) := by
          simp [verdict, hempty, hvalid, hk]
        set st₁ := ImportState.accept E { st with processed := st.processed + 1 }
          (parseRow line header)
        have hcompletes : completes E chunk header ⟨db.customer, st⟩ line =
            decide (chunk ≤ st₁.batch.length) := by
          simp [completes, hv, Verdict.isAccepted, st₁, ImportState.accept]
        have hchunked : Chunked (E.zone.date i) chunk t all
            ({ db with customer := (flushed (E.zone.date i) (chunk ≤ st₁.batch.length)
                ⟨db.customer, st₁⟩).table },
              k + if decide (chunk ≤ st₁.batch.length) then 1 else 0) := by
          rw [feed_of_accepted hv, hcompletes] at hafter
          exact hafter.chunked rfl
        refine (always_flushIf (h.chunked rfl) hchunked).bind fun st' s' hrun => ?_
        rw [run_flushIf_counted] at hrun
        obtain ⟨-, rfl⟩ := Prod.mk.inj hrun
        refine (always_of_only only_reads_report hchunked).bind fun _ s'' hrun => ?_
        rw [run_of_only only_reads_report, run_report] at hrun
        obtain ⟨-, rfl⟩ := Prod.mk.inj hrun
        exact hchunked
      · exact h.chunked rfl

theorem always_importRows
    (h : Committed E (E.zone.date i) chunk header t all ⟨db.customer, st⟩ k lines) :
    Prog.Always (Prog.counted CustomerStmt.isFlush E.exec) i
        (Chunked (E.zone.date i) chunk t all)
        (importRows E chunk progress total header st lines) (db, k)
      ∧ ∃ st' db' k', (importRows E chunk progress total header st lines).run
          (Prog.counted CustomerStmt.isFlush E.exec) i (db, k) = (.ok st', db', k')
        ∧ Committed E (E.zone.date i) chunk header t all ⟨db'.customer, st'⟩ k' [] := by
  induction lines generalizing st db k with
  | nil => exact ⟨h.chunked rfl, st, db, k, rfl, h⟩
  | cons line lines ih =>
    have hrun := @run_importRow_counted E i chunk progress total header db st k line
    have hnext : Committed E (E.zone.date i) chunk header t all
        ⟨({ db with customer := (feed E (E.zone.date i) chunk header ⟨db.customer, st⟩ line).table }
            : CustomerDb).customer,
          (feed E (E.zone.date i) chunk header ⟨db.customer, st⟩ line).st⟩
        (k + if completes E chunk header ⟨db.customer, st⟩ line then 1 else 0) lines := h.feed
    have hrest := ih hnext
    constructor
    · refine (always_importRow h).bind fun st' s' hrun' => ?_
      rw [hrun] at hrun'
      obtain ⟨hst, rfl⟩ := Prod.mk.inj hrun'
      obtain rfl := Except.ok.inj hst
      exact hrest.1
    · unfold importRows
      rw [Prog.run_bind, hrun]
      exact hrest.2

/-- The last flush inserts what waits, which is the rest. -/
theorem Committed.finished
    (h : Committed E (E.zone.date i) chunk header t all ⟨db.customer, st⟩ k []) :
    Chunked (E.zone.date i) chunk t all
      ({ db with customer := (flushed (E.zone.date i) (st.batch ≠ []) ⟨db.customer, st⟩).table },
        k + if decide (st.batch ≠ []) then 1 else 0) := by
  have hrest : all.drop (chunk * k) = st.batch := h.rest.trans (List.append_nil _)
  by_cases hbatch : st.batch = []
  · simp only [hbatch, ne_eq, not_true_eq_false, decide_false, flushed, Bool.false_eq_true,
      if_false]
    exact h.chunked rfl
  · have hall : all.take (chunk * (k + 1)) = all.take (chunk * k) ++ st.batch := by
      rw [Nat.mul_add_one, List.take_add, hrest, List.take_of_length_le h.waiting.le]
    have hleft := congrArg List.length hrest
    have hpos := List.length_pos_iff.mpr hbatch
    rw [List.length_drop] at hleft
    simp only [hbatch, ne_eq, not_false_eq_true, decide_true, flushed, if_true]
    refine ⟨?_, ?_⟩
    · show insertAll _ db.customer st.batch = insertAll _ t (all.take (chunk * (k + 1)))
      rw [hall, insertAll_append, ← h.table]
    · show chunk * (k + 1) < all.length + chunk
      rw [Nat.mul_add_one]
      omega

/-! ## The whole job -/

theorem chunked_zero (hchunk : 0 < chunk) : Chunked now chunk db.customer all (db, 0) := by
  refine ⟨?_, Nat.add_pos_right _ hchunk⟩
  rw [Nat.mul_zero, List.take_zero, insertAll_nil]

theorem always_importRecords (hchunk : 0 < chunk) (first : Csv.Record) (lines : List Csv.Record) :
    Prog.Always (Prog.counted CustomerStmt.isFlush E.exec) i
      (Chunked (E.zone.date i) chunk db.customer (accepted E (E.zone.date i) chunk (headerMap first)
        ⟨db.customer, ImportState.initial⟩ lines))
      (importRecords E chunk progress total first lines) (db, 0) := by
  unfold importRecords
  by_cases hname : ((headerMap first).lookup (ascii "name")).isNone = true
  · rw [if_pos hname]
    exact chunked_zero hchunk
  · rw [if_neg hname]
    have hstart : Committed E (E.zone.date i) chunk (headerMap first) db.customer
        (accepted E (E.zone.date i) chunk (headerMap first)
          ⟨db.customer, ImportState.initial⟩ lines)
        ⟨db.customer, ImportState.initial⟩ 0 lines :=
      ⟨(chunked_zero hchunk).table, Nat.zero_le _, rfl, hchunk⟩
    obtain ⟨hrows, st, db', k, hrun, hend⟩ :=
      @always_importRows E i chunk progress total _ _ _ _ _ _ _ hstart
    refine hrows.bind fun st' s' hrun' => ?_
    rw [hrun] at hrun'
    obtain ⟨hst, rfl⟩ := Prod.mk.inj hrun'
    obtain rfl := Except.ok.inj hst
    refine (always_flushIf (hend.chunked rfl) hend.finished).bind fun st' s' hrun' => ?_
    rw [run_flushIf_counted] at hrun'
    obtain ⟨-, rfl⟩ := Prod.mk.inj hrun'
    cases progress
    · exact hend.finished
    · exact ⟨hend.finished, hend.finished⟩

variable {file path contents : Bytes}

theorem always_process (hchunk : 0 < chunk) (hfile : db.files path = some contents) :
    Prog.Always (Prog.counted CustomerStmt.isFlush E.exec) i
      (Chunked (E.zone.date i) chunk db.customer (accepted E (E.zone.date i) chunk
        (fileHeader contents) ⟨db.customer, ImportState.initial⟩ (dataRecords contents)))
      (process E chunk path progress) (db, 0) := by
  have hread : Prog.Only CustomerStmt.LeavesTable (fun _ => True) (issue (.readFile path)) :=
    Prog.only_stmt.mpr ⟨rfl, fun _ => trivial⟩
  refine (always_of_only hread (chunked_zero hchunk)).map.bind fun total s' hrun => ?_
  rw [Prog.run_map, run_of_only hread] at hrun
  obtain rfl : (db, 0) = s' := congrArg Prod.snd hrun
  refine (always_of_only hread (chunked_zero hchunk)).bind fun contents' s' hrun => ?_
  rw [run_of_only hread, run_readFile hfile] at hrun
  obtain ⟨hcontents, rfl⟩ := Prod.mk.inj hrun
  obtain rfl := Except.ok.inj hcontents
  exact always_importRecords hchunk _ _

/-- Wherever the job is cut, the table has the accepted records of whole chunks, or of all. -/
theorem always_handle
    (hfile : db.files (customerImportFile E (basename file)) = some contents) :
    Prog.Always (Prog.counted CustomerStmt.isFlush E.exec) i
      (Chunked (E.zone.date i) chunkSize db.customer (accepted E (E.zone.date i) chunkSize
        (fileHeader contents) ⟨db.customer, ImportState.initial⟩ (dataRecords contents)))
      (handle E file progress) (db, 0) := by
  have hmissing : Prog.Only CustomerStmt.LeavesTable (fun _ => True)
      (isMissing E (basename file)) := leavesTable_of_plain (only_isMissing _)
  have hremove : Prog.Only CustomerStmt.LeavesTable (fun _ => True)
      (removeFile (customerImportFile E (basename file))) :=
    leavesTable_of_plain (only_removeFile _)
  have hdb : ((isMissing E (basename file)).run E.exec i db).2 = db := by rw [run_isMissing]
  refine (always_of_only hmissing (chunked_zero (by decide))).bind fun missing s' hrun => ?_
  rw [run_of_only hmissing, hdb] at hrun
  obtain rfl : (db, 0) = s' := congrArg Prod.snd hrun
  cases missing
  · simp only [Bool.false_eq_true, if_false]
    have hprocess := @always_process E i chunkSize progress db _ contents (by decide) hfile
    exact hprocess.tryFinally (always_of_only hremove hprocess.final)
  · exact chunked_zero (by decide)

/-- A job that returns has made as many flushes as it takes for all that it accepts. -/
theorem flushes_of_returned {n : ℕ} {stopped : CustomerProg ImportResult × CustomerDb × ℕ}
    {result : ImportResult}
    (hfile : db.files (customerImportFile E (basename file)) = some contents)
    (hstopped : stopped =
      (handle E file progress).steps (Prog.counted CustomerStmt.isFlush E.exec) i n (db, 0))
    (hret : stopped.1 = .ret result) :
    stopped.2.2 = ((accepted E (E.zone.date i) chunkSize (fileHeader contents)
      ⟨db.customer, ImportState.initial⟩ (dataRecords contents)).length + 99) / 100 := by
  set all := accepted E (E.zone.date i) chunkSize (fileHeader contents)
    ⟨db.customer, ImportState.initial⟩ (dataRecords contents)
  have hchunked : Chunked (E.zone.date i) chunkSize db.customer all stopped.2 :=
    hstopped ▸ (always_handle hfile).steps n
  obtain ⟨k, hcounted⟩ : ∃ k, stopped = (((handle E file progress).steps E.exec i n db).1,
      ((handle E file progress).steps E.exec i n db).2, k) := hstopped ▸ Prog.steps_counted n
  have hrun : (handle E file progress).run E.exec i db = (.ok result, stopped.2.1) := by
    rw [← Prog.run_steps n]
    rw [hcounted] at hret ⊢
    rw [hret]
    rfl
  -- It has returned, so the file has a name column, and everything is in the table.
  have hne : basename file ≠ [] := by
    intro hempty
    simp [handle, Prog.run_bind, run_isMissing, hempty] at hrun
  have hname : HasName contents := by
    by_contra hname
    have hmissing : (isMissing E (basename file)).run E.exec i db = (.ok false, db) := by
      simp [run_isMissing, hne, hfile]
    rw [handle, Prog.run_bind, hmissing] at hrun
    simp only [Bool.false_eq_true, if_false, Prog.run_tryFinally,
      run_process_of_not_hasName hfile hname] at hrun
    rcases (removeFile (customerImportFile E (basename file))).run E.exec i db with ⟨_ | _, _⟩ <;>
      cases hrun
  rw [run_handle hne hfile hname] at hrun
  have htable : stopped.2.1.customer = insertAll (E.zone.date i) db.customer all := by
    rw [← (Prod.mk.inj hrun).2]
    exact imported_table
  have hall : all.take (chunkSize * stopped.2.2) = all :=
    insertAll_injective (hchunked.table.symm.trans htable)
  have hle : all.length ≤ chunkSize * stopped.2.2 := List.take_eq_self_iff _ |>.mp hall
  have hlt := hchunked.nonempty
  simp only [chunkSize] at hle hlt
  omega

/-- Where the job dies after some statements, or its next flush fails, the attempt has added the
accepted records of the flushes that were completed, which is a number of whole chunks of them. No
flush is empty, and a job that returns has made as many as it takes for all of them. -/
theorem import_commits_chunks (n : ℕ)
    (hfile : db.files (customerImportFile E (basename file)) = some contents) :
    let all := accepted E (E.zone.date i) chunkSize (fileHeader contents)
      ⟨db.customer, ImportState.initial⟩ (dataRecords contents)
    let stopped := (handle E file progress).steps (Prog.counted CustomerStmt.isFlush E.exec) i n
      (db, 0)
    (∃ new, stopped.2.1.customer.rows = db.customer.rows ++ new
      ∧ new.map (·.toCustomerData) = all.take (100 * stopped.2.2)
      ∧ ∀ rows e, stopped.1.statement? = some (.createMany rows) →
        ((stopped.1.failed e).run E.exec i stopped.2.1).1 = .error e
          ∧ ((stopped.1.failed e).run E.exec i stopped.2.1).2.customer = stopped.2.1.customer)
    ∧ stopped.2.2 ≤ (all.length + 99) / 100
    ∧ ∀ result, stopped.1 = .ret result → stopped.2.2 = (all.length + 99) / 100 := by
  intro all stopped
  have hchunked : Chunked (E.zone.date i) chunkSize db.customer all stopped.2 :=
    (always_handle hfile).steps n
  refine ⟨?_, ?_, fun result hret => flushes_of_returned hfile rfl hret⟩
  · obtain ⟨new, hrows, hdata, -⟩ :=
      insertAll_rows (E.zone.date i) db.customer (all.take (chunkSize * stopped.2.2))
    refine ⟨new, by rw [hchunked.table, hrows], hdata, ?_⟩
    intro rows e hat
    obtain ⟨c, hcall⟩ := Prog.statement?_eq_some.mp hat
    obtain ⟨k, hcounted⟩ : ∃ k, stopped = (((handle E file progress).steps E.exec i n db).1,
        ((handle E file progress).steps E.exec i n db).2, k) := Prog.steps_counted n
    have hstands : Prog.StandsAt E.exec i (handle E file progress) db (.createMany rows) c
        stopped.2.1 := by
      refine .of_steps (n := n) ?_
      rw [← hcall, hcounted]
    obtain ⟨-, -, -, -, -, -, -, -, -, hfail⟩ := standsAt_handle rfl hfile hstands
    rw [hcall, Prog.failed, hfail e]
    exact ⟨rfl, rfl⟩
  · have hlt := hchunked.nonempty
    simp only [chunkSize] at hlt
    omega

end CustomerImportJob

open CustomerImportJob CustomerSample

namespace CustomerSample

/-- A file with this many customers. -/
def numbered (n : ℕ) : Bytes :=
  ascii "name\n" ++ (List.range n).flatMap fun k => natString k ++ [10]

end CustomerSample

/-- Of a file with 101 customers, a job that dies at its second flush has stored a hundred. -/
theorem import_commits_chunks_sample : ∃ stopped : CustomerProg ImportResult × CustomerDb × ℕ,
    stopped = (handle env importFile false).steps (Prog.counted CustomerStmt.isFlush env.exec) 1000
      105 (withImport (numbered 101), 0)
    ∧ stopped.2.2 = 1 ∧ stopped.2.1.customer.rows.length = 100
    ∧ stopped.2.1.customer.rows.map (·.toCustomerData) =
      (accepted env (env.zone.date 1000) chunkSize (fileHeader (numbered 101))
        ⟨(withImport (numbered 101)).customer, ImportState.initial⟩
        (dataRecords (numbered 101))).take 100 := by
  obtain ⟨stopped, hstopped⟩ : ∃ stopped, stopped = (handle env importFile false).steps
      (Prog.counted CustomerStmt.isFlush env.exec) 1000 105 (withImport (numbered 101), 0) :=
    ⟨_, rfl⟩
  have hcut : stopped.2.2 = 1 ∧ stopped.2.1.customer.rows.length = 100 := by
    rw [hstopped]
    decide +kernel
  have hchunks := @import_commits_chunks env 1000 false (withImport (numbered 101)) importFile
    (numbered 101) 105 rfl
  simp only [← hstopped, hcut.1] at hchunks
  obtain ⟨⟨new, hrows, hdata, -⟩, -⟩ := hchunks
  have hempty : (withImport (numbered 101)).customer.rows = [] := rfl
  rw [hempty, List.nil_append] at hrows
  exact ⟨stopped, hstopped, hcut.1, hcut.2, (congrArg _ hrows).trans hdata⟩

end SlimStarter
