import SlimStarter.Customer.Feed

/-!
# What the import reports

`verdicts` lists what becomes of each record of a file, in order. A pass of the loop counts its
record once: a blank one nowhere, a refused one as failed and in the list of errors, a known one as
skipped, and an accepted one in the batch until its chunk is inserted (`tallied_feed`). So the
counts of the result add up to the records that are not blank, and the errors are the first
refusals (`import_accounts`).
-/

namespace SlimStarter

namespace CustomerImportJob

variable {E : CustomerEnv} {now : LocalTime} {chunk : ℕ} {header : List (Bytes × ℕ)}
variable {x : Loop} {line : Csv.Record} {lines : List Csv.Record} {v : Verdict} {vs : List Verdict}

/-- What becomes of each record. -/
def verdicts (E : CustomerEnv) (now : LocalTime) (chunk : ℕ) (header : List (Bytes × ℕ))
    (x : Loop) : List Csv.Record → List Verdict
  | [] => []
  | line :: lines =>
    verdict E header x line :: verdicts E now chunk header (feed E now chunk header x line) lines

namespace Verdict

/-- The message of a refusal. -/
def message : Verdict → Option String
  | refused error => some error
  | _ => none

def isRefused (v : Verdict) : Bool := v.message.isSome

def isKnown : Verdict → Bool
  | known => true
  | _ => false

def isAccepted : Verdict → Bool
  | accepted _ => true
  | _ => false

def isEmpty : Verdict → Bool
  | empty => true
  | _ => false

end Verdict

/-- The refusals with the numbers of their records, where the first record has the number `row`. -/
def refusals : ℕ → List Verdict → List (ℕ × String)
  | _, [] => []
  | row, v :: vs => (v.message.map (row, ·)).toList ++ refusals (row + 1) vs

theorem accepted_eq_flatMap :
    accepted E now chunk header x lines =
      (verdicts E now chunk header x lines).flatMap Verdict.batched := by
  induction lines generalizing x with
  | nil => rfl
  | cons line lines ih => rw [accepted, ih, verdicts, List.flatMap_cons]

theorem length_batched : v.batched.length = if v.isAccepted then 1 else 0 := by
  cases v <;> rfl

theorem length_refusals (row : ℕ) : (refusals row vs).length = vs.countP (·.isRefused) := by
  induction vs generalizing row with
  | nil => rfl
  | cons v vs ih =>
    have hv : (v.message.map (row, ·)).toList.length = if v.isRefused then 1 else 0 := by
      unfold Verdict.isRefused
      cases v.message <;> rfl
    rw [refusals, List.length_append, ih, hv, List.countP_cons, Nat.add_comm]

theorem isEmpty_verdict : (verdict E header x line).isEmpty = isEmptyRow line := by
  unfold verdict
  cases isEmptyRow line
  · simp only [Bool.false_eq_true, if_false]
    split
    · rfl
    · split_ifs <;> rfl
  · rfl

theorem Verdict.count_one (v : Verdict) :
    (if v.isAccepted then 1 else 0) + (if v.isKnown then 1 else 0)
        + (if v.isRefused then 1 else 0) = if !v.isEmpty then 1 else 0 := by
  cases v <;> rfl

theorem count_verdicts :
    (verdicts E now chunk header x lines).countP (·.isAccepted)
        + (verdicts E now chunk header x lines).countP (·.isKnown)
        + (verdicts E now chunk header x lines).countP (·.isRefused) =
      lines.countP (! isEmptyRow ·) := by
  induction lines generalizing x with
  | nil => rfl
  | cons line lines ih =>
    have hrest := ih (x := feed E now chunk header x line)
    have hline := (verdict E header x line).count_one
    rw [isEmpty_verdict] at hline
    rw [verdicts, List.countP_cons, List.countP_cons, List.countP_cons, List.countP_cons]
    omega

/-! ## The counters -/

/-- The counters of `y` are those of `x` after these verdicts. -/
structure Tallied (x y : Loop) (vs : List Verdict) : Prop where
  processed : y.st.processed = x.st.processed + vs.length
  imported : y.st.imported + y.st.batch.length =
    x.st.imported + x.st.batch.length + vs.countP (·.isAccepted)
  skipped : y.st.skipped = x.st.skipped + vs.countP (·.isKnown)
  failed : y.st.failed = x.st.failed + vs.countP (·.isRefused)
  errors : y.st.errors = (x.st.errors ++ refusals (x.st.processed + 2) vs).take maxErrors

theorem addError_eq {errors : List (ℕ × String)} (h : errors.length ≤ maxErrors) (row : ℕ)
    (message : String) :
    addError errors row message = (errors ++ [(row, message)]).take maxErrors := by
  unfold addError
  split_ifs with hfull
  · have hlength : maxErrors = errors.length := le_antisymm hfull h
    rw [hlength, List.take_left]
  · rw [List.take_of_length_le (by rw [List.length_append, List.length_singleton]; omega)]

theorem tallied_feed (h : x.st.errors.length ≤ maxErrors) :
    Tallied x (feed E now chunk header x line) [verdict E header x line] := by
  have hcount := @count_feed E now chunk header x line
  rw [length_batched] at hcount
  have herrors : x.st.errors = x.st.errors.take maxErrors := (List.take_of_length_le h).symm
  cases hv : verdict E header x line with
  | accepted parsed =>
    have hst : (feed E now chunk header x line).st.processed = x.st.processed + 1
        ∧ (feed E now chunk header x line).st.skipped = x.st.skipped
        ∧ (feed E now chunk header x line).st.failed = x.st.failed
        ∧ (feed E now chunk header x line).st.errors = x.st.errors := by
      rw [feed_of_accepted hv]
      simp only [flushed]
      split_ifs <;> exact ⟨rfl, rfl, rfl, rfl⟩
    obtain ⟨hprocessed, hskipped, hfailed, hsame⟩ := hst
    refine ⟨hprocessed, ?_, hskipped, hfailed, ?_⟩
    · rw [hv] at hcount
      exact hcount
    · rw [hsame, refusals, refusals]
      simpa [Verdict.message] using herrors
  | refused error =>
    rw [hv] at hcount
    have hfeed : (feed E now chunk header x line).st =
        ImportState.reject { x.st with processed := x.st.processed + 1 } error := by
      simp only [feed, hv]
    refine ⟨by rw [hfeed]; rfl, hcount, by rw [hfeed]; rfl, by rw [hfeed]; rfl, ?_⟩
    rw [hfeed]
    exact addError_eq h _ _
  | known | empty =>
    rw [hv] at hcount
    simp only [feed, hv] at hcount ⊢
    refine ⟨rfl, hcount, rfl, rfl, ?_⟩
    simpa [refusals, Verdict.message] using herrors

theorem Tallied.errors_length {y : Loop} (h : Tallied x y vs) : y.st.errors.length ≤ maxErrors := by
  rw [h.errors]
  exact List.length_take_le _ _

theorem refusals_append (row : ℕ) (vs vs' : List Verdict) :
    refusals row (vs ++ vs') = refusals row vs ++ refusals (row + vs.length) vs' := by
  induction vs generalizing row with
  | nil => rfl
  | cons v vs ih =>
    rw [List.cons_append, refusals, ih, refusals, List.append_assoc, List.length_cons,
      Nat.add_right_comm, Nat.add_assoc]

theorem take_take_append {α : Type} (n : ℕ) (as bs : List α) :
    (as.take n ++ bs).take n = (as ++ bs).take n := by
  rcases Nat.le_total n as.length with h | h
  · rw [List.take_append_of_le_length (by simp [h]), List.take_append_of_le_length h,
      List.take_take, Nat.min_self]
  · rw [List.take_of_length_le h]

theorem Tallied.trans {y z : Loop} {vs' : List Verdict} (h : Tallied x y vs)
    (h' : Tallied y z vs') : Tallied x z (vs ++ vs') where
  processed := by rw [h'.processed, h.processed, List.length_append, Nat.add_assoc]
  imported := by rw [h'.imported, h.imported, List.countP_append, Nat.add_assoc]
  skipped := by rw [h'.skipped, h.skipped, List.countP_append, Nat.add_assoc]
  failed := by rw [h'.failed, h.failed, List.countP_append, Nat.add_assoc]
  errors := by
    rw [h'.errors, h.errors, h.processed, take_take_append, List.append_assoc, refusals_append,
      Nat.add_right_comm]

theorem tallied_feedAll (h : x.st.errors.length ≤ maxErrors) :
    Tallied x (feedAll E now chunk header x lines) (verdicts E now chunk header x lines) := by
  induction lines generalizing x with
  | nil =>
    refine ⟨rfl, rfl, rfl, rfl, ?_⟩
    rw [verdicts, refusals, List.append_nil, List.take_of_length_le h]
    rfl
  | cons line lines ih =>
    have hline := @tallied_feed E now chunk header x line h
    exact hline.trans (ih hline.errors_length)

/-- The last chunk leaves the counters, but for the rows it inserts. -/
theorem Tallied.finished {y : Loop} (h : Tallied x y vs) :
    Tallied x (finished now y) vs ∧ (finished now y).st.batch = [] := by
  unfold CustomerImportJob.finished
  by_cases hbatch : y.st.batch = []
  · rw [flushed, if_neg (by simpa using hbatch)]
    exact ⟨h, hbatch⟩
  · rw [flushed, if_pos (by simpa using hbatch)]
    exact ⟨⟨h.processed, h.imported, h.skipped, h.failed, h.errors⟩, rfl⟩

/-! ## The result -/

theorem tallied_imported {t : Table CustomerRow} :
    let y := imported E now chunk header t lines
    let vs := verdicts E now chunk header ⟨t, ImportState.initial⟩ lines
    y.st.imported = vs.countP (·.isAccepted) ∧ y.st.skipped = vs.countP (·.isKnown)
      ∧ y.st.failed = vs.countP (·.isRefused)
      ∧ y.st.errors = (refusals 2 vs).take maxErrors := by
  intro y vs
  have hall : Tallied ⟨t, ImportState.initial⟩
      (feedAll E now chunk header ⟨t, ImportState.initial⟩ lines) vs :=
    tallied_feedAll (Nat.zero_le _)
  obtain ⟨htally, hbatch⟩ := @Tallied.finished now _ _ _ hall
  have himported := htally.imported
  rw [hbatch] at himported
  refine ⟨himported.trans (Nat.zero_add _), htally.skipped.trans (Nat.zero_add _),
    htally.failed.trans (Nat.zero_add _), htally.errors⟩

variable {db : CustomerDb} {i : Int} {progress : Bool} {file contents : Bytes}

/-- What becomes of the records of an import file. -/
def fileVerdicts (E : CustomerEnv) (now : LocalTime) (t : Table CustomerRow) (contents : Bytes) :
    List Verdict :=
  verdicts E now chunkSize (fileHeader contents) ⟨t, ImportState.initial⟩ (dataRecords contents)

/-- The job accounts for every record that is not blank, counts the rows it adds, and lists the
first refusals with the numbers of their records, of which the header has the number 1. -/
theorem import_accounts (hne : basename file ≠ [])
    (hfile : db.files (customerImportFile E (basename file)) = some contents)
    (hname : HasName contents) :
    let run := (handle E file progress).run E.exec i db
    let failing := refusals 2 (fileVerdicts E (E.zone.date i) db.customer contents)
    ∃ result new, run.1 = .ok result
      ∧ result.imported + result.skipped + result.failed =
        (dataRecords contents).countP (! isEmptyRow ·)
      ∧ run.2.customer.rows = db.customer.rows ++ new ∧ new.length = result.imported
      ∧ failing.length = result.failed
      ∧ result.errors = failing.take (min result.failed maxErrors) := by
  intro run failing
  have hrun : run = _ := run_handle hne hfile hname
  have hcount := @count_verdicts E (E.zone.date i) chunkSize (fileHeader contents)
    ⟨db.customer, ImportState.initial⟩ (dataRecords contents)
  obtain ⟨himported, hskipped, hfailed, herrors⟩ := @tallied_imported E (E.zone.date i) chunkSize
    (fileHeader contents) (dataRecords contents) db.customer
  have hfailing : failing.length = _ := (length_refusals 2).trans hfailed.symm
  obtain ⟨new, hrows, hdata, -⟩ := insertAll_rows (E.zone.date i) db.customer
    (accepted E (E.zone.date i) chunkSize (fileHeader contents) ⟨db.customer, ImportState.initial⟩
      (dataRecords contents))
  refine ⟨_, new, congrArg Prod.fst hrun, ?_, ?_, ?_, hfailing, ?_⟩
  · rw [← hcount, ← himported, ← hskipped, ← hfailed]
    rfl
  · rw [hrun, ← hrows, ← imported_table]
    rfl
  · rw [← List.length_map (·.toCustomerData), hdata, ← imported_count]
    rfl
  · refine herrors.trans ?_
    change failing.take maxErrors = failing.take (min (imported E (E.zone.date i) chunkSize
      (fileHeader contents) db.customer (dataRecords contents)).st.failed maxErrors)
    rw [← hfailing, Nat.min_comm, ← List.take_eq_take_min]

end CustomerImportJob

open CustomerImportJob CustomerSample

/-- A file with a customer, a blank line, a record without a name and a customer listed again. -/
theorem import_accounts_sample :
    let contents := ascii "name,email\nAda,\n\n,x\nAda,\n"
    let failing := refusals 2 (fileVerdicts env (env.zone.date 1000) db.customer contents)
    ∃ result new, ((handle env importFile false).run env.exec 1000 (withImport contents)).1 =
        .ok result
      ∧ result.imported + result.skipped + result.failed =
        (dataRecords contents).countP (! isEmptyRow ·)
      ∧ ((handle env importFile false).run env.exec 1000 (withImport contents)).2.customer.rows =
        db.customer.rows ++ new
      ∧ new.length = result.imported
      ∧ failing.length = result.failed
      ∧ result.errors = failing.take (min result.failed maxErrors) :=
  @import_accounts env (withImport (ascii "name,email\nAda,\n\n,x\nAda,\n")) 1000 false importFile
    (ascii "name,email\nAda,\n\n,x\nAda,\n") (by decide +kernel) (by decide +kernel)
    (by decide +kernel)

end SlimStarter
