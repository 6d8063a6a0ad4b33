import SlimStarter.Customer.Avatar
import SlimStarter.Http.Privilege

/-!
# Rejected imports

`requestImport` checks the upload, stores the file, reads its header back and dispatches the job.
What it throws after the file is stored leaves the file where it is: the job, which removes the file
on every path, is never queued. `run_requestImport` says what each exit leaves, and
`rejected_import_leaves_nothing_iff` on which uploads a request that throws changes nothing.

The setting decides what the file system and the queue do: `moveTo` can throw, a stored file can
turn out unreadable, and a dispatch can throw.
-/

namespace SlimStarter

open CustomerTransferService

/-- `moveTo` is what moving an upload to a path throws, `opens` says whether a path can be opened,
and `dispatch` is what the queue replies and makes of its table. -/
structure ImportSetting where
  moveTo : Bytes → Option Failure
  opens : Bytes → Bool
  dispatch : Bytes → JobPayload → Int → Table JobData → Except Failure ℕ × Table JobData

namespace ImportSetting

variable (W : ImportSetting) (E : AppEnv)

/-- Execute one statement in this setting. -/
def exec : Prog.Handler AppStmt AppStmt.Res Int Failure AppDb :=
  fun op i db =>
    match op with
    | .customer (.moveTo path contents) =>
      match W.moveTo path with
      | some e => (.error e, db)
      | none => E.exec (.customer (.moveTo path contents)) i db
    | .customer (.readFile path) =>
      if W.opens path then E.exec (.customer (.readFile path)) i db else (.ok none, db)
    | .dispatch type payload =>
      ((W.dispatch type payload i db.job).1,
        { db with job := (W.dispatch type payload i db.job).2 })
    | op => E.exec op i db

/-- Nothing fails, and a dispatch adds a job. -/
def calm : ImportSetting where
  moveTo := fun _ => none
  opens := fun _ => true
  dispatch := fun type payload i t =>
    (.ok t.autoIncrement, t.insert fun id =>
      { id, type, payload, state := E.newJob (E.customer.zone.date i) })

end ImportSetting

namespace CustomerTransferService

variable (E : AppEnv) (R : CustomerEntropy)

/-- The directory of the uploaded imports. -/
def importsDirectory : Bytes := implode [47] [E.customer.storageRoot, ascii "imports"]

/-- The name that an import is stored under. -/
def importName : Bytes := R.fileName ++ ascii ".csv"

def importPath : Bytes := importsDirectory E ++ 47 :: importName R

/-- The check of `assertImportHeader` on the contents of a file. -/
def hasNameColumn (contents : Bytes) : Bool :=
  (Csv.records contents).head?.any fun header => ascii "name" ∈ normalizeHeader header

variable {E R} {file : UploadedFile}

theorem basename_eq_self {s : Bytes} (h : 47 ∉ s) : basename s = s := by
  have hdrop : s.rdropWhile (· = 47) = s := by
    rw [List.rdropWhile_eq_self_iff]
    intro hne hlast
    exact h (of_decide_eq_true hlast ▸ List.getLast_mem hne)
  unfold basename
  rw [hdrop, List.rtakeWhile_eq_self_iff]
  intro b hb
  simpa using ne_of_mem_of_not_mem hb h

theorem slash_notMem_importName (h : RandomName R.fileName) : 47 ∉ importName R := by
  intro hslash
  rcases List.mem_append.mp hslash with hslash | hslash
  · rcases h.2 47 hslash with hdigit | hletter
    · exact absurd hdigit (by decide)
    · exact absurd hletter (by decide)
  · exact absurd hslash (by decide)

theorem basename_importName (h : RandomName R.fileName) : basename (importName R) = importName R :=
  basename_eq_self (slash_notMem_importName h)

theorem relativePath_of_importFileError (h : importFileError E file = none) :
    UploadHelper.relativePath R file [] = importName R := by
  have hcsv : strtolower (pathinfoExtension file.clientFilename) = ascii "csv" := by
    unfold importFileError at h
    by_contra hne
    simp only [ne_eq, hne, not_false_eq_true, if_true] at h
    split_ifs at h
  unfold UploadHelper.relativePath importName
  rw [hcsv]
  rfl

theorem customerImportFile_importName (h : RandomName R.fileName) :
    CustomerImportJob.customerImportFile E.customer (importName R) = importPath E R := by
  unfold CustomerImportJob.customerImportFile importPath importsDirectory
  rw [basename_importName h]
  simp [implode, List.intercalate]

theorem importPath_below : importsDirectory E ++ [47] <+: importPath E R :=
  ⟨importName R, by simp [importPath]⟩

end CustomerTransferService

namespace ImportSetting

variable (W : ImportSetting) (E : AppEnv) (R : CustomerEntropy) (file : UploadedFile) (userId : ℕ)
variable (i : Int) (db : AppDb)

/-- What storing the file throws. -/
def storeError : Option Failure :=
  if UploadHelper.isS3 E.customer then
    if E.customer.putObject (importName R) then none
    else some (.appException "The import file could not be stored." HttpStatus.internalServerError)
  else W.moveTo (importPath E R)

/-- The database once the file is stored: the object storage is not part of it. -/
def stored : AppDb :=
  if UploadHelper.isS3 E.customer then db
  else { db with customer := db.customer.withFile (importPath E R) (some file.contents) }

/-- What the check of the header throws. -/
def headerError : Option Failure :=
  if W.opens (importPath E R) then
    match db.customer.files (importPath E R) with
    | none => some (.appException "The import file could not be read."
        HttpStatus.internalServerError)
    | some contents =>
      if hasNameColumn contents then none
      else some (.validation "Import CSV is missing a name column."
        [("file", "The CSV header must contain a name column.")])
  else some (.appException "The import file could not be read." HttpStatus.internalServerError)

/-- What the queue makes of the job. -/
def queued : Except Failure ℕ × Table JobData :=
  W.dispatch JobType.customerImport (.import (importName R) userId) i db.job

variable {E R file userId i db}

theorem run_store (h : importFileError E file = none) :
    (onCustomers (UploadHelper.store (importUploads E) R file [])).run (W.exec E) i db =
      if UploadHelper.isS3 E.customer then
        (.ok (if E.customer.putObject (importName R) then some (importName R) else none), db)
      else match W.moveTo (importPath E R) with
        | some e => (.error e, db)
        | none => (.ok (some (importName R)), stored E R file db) := by
  have hs3 : UploadHelper.isS3 (importUploads E) = UploadHelper.isS3 E.customer := rfl
  have hrelative := relativePath_of_importFileError (R := R) h
  unfold UploadHelper.store
  generalize UploadHelper.relativePath R file [] = relative at hrelative ⊢
  subst hrelative
  rw [hs3]
  by_cases htarget : UploadHelper.isS3 E.customer = true
  · rw [if_pos htarget, if_pos htarget]
    rfl
  · rw [if_neg htarget, if_neg htarget]
    have hmoves : W.exec E (.customer (.moveTo (importPath E R) file.contents)) i db =
        match W.moveTo (importPath E R) with
        | some e => (.error e, db)
        | none => (.ok (), { db with
            customer := db.customer.withFile (importPath E R) (some file.contents) }) := rfl
    show Prog.run (W.exec E) i (.call (.customer (.moveTo (importPath E R) file.contents)) _) db = _
    rw [Prog.run_call, hmoves]
    cases hmove : W.moveTo (importPath E R) with
    | some e => rfl
    | none =>
      simp only [stored, if_neg htarget]
      rfl

theorem run_assertImportHeader :
    (assertImportHeader (importPath E R)).run (W.exec E) i db =
      match W.headerError E R db with
      | some e => (.error e, db)
      | none => (.ok (), db) := by
  have hreads : W.exec E (.customer (.readFile (importPath E R))) i db =
      if W.opens (importPath E R) then (.ok (db.customer.files (importPath E R)), db)
      else (.ok none, db) := rfl
  unfold assertImportHeader headerError
  rw [Prog.stmt_bind, Prog.run_call, hreads]
  by_cases hopens : W.opens (importPath E R) = true
  · simp only [if_pos hopens, Prog.resume_ok]
    cases db.customer.files (importPath E R) with
    | none => rfl
    | some contents =>
      show Prog.run _ _ (if hasNameColumn contents = true then _ else _) _ = _
      by_cases hcolumn : hasNameColumn contents = true
      · simp [hcolumn]
      · simp [hcolumn]
  · simp [hopens]

/-- What comes once the file is stored under its name. -/
theorem run_afterStore (hname : RandomName R.fileName) {db' : AppDb} (hjob : db'.job = db.job) :
    Prog.run (W.exec E) i (do
      let fileName := basename (importName R)
      assertImportHeader (CustomerImportJob.customerImportFile E.customer fileName)
      let jobId ← perform (.dispatch JobType.customerImport (.import fileName userId))
      pure (Payload.queuedImport jobId "pending" fileName)) db' =
    match W.headerError E R db' with
    | some e => (.error e, db')
    | none => ((W.queued R userId i db).1.map fun jobId =>
        Payload.queuedImport jobId "pending" (importName R),
        { db' with job := (W.queued R userId i db).2 }) := by
  simp only [basename_importName hname, customerImportFile_importName hname]
  rw [Prog.run_bind, run_assertImportHeader]
  cases W.headerError E R db' with
  | some e => rfl
  | none =>
    have hdispatch : ∀ name, name = importName R → W.exec E
        (.dispatch JobType.customerImport (.import name userId)) i db' =
        ((W.queued R userId i db).1, { db' with job := (W.queued R userId i db).2 }) := by
      rintro _ rfl
      rw [queued, ← hjob]
      rfl
    show Prog.run (W.exec E) i (perform _ >>= _) db' = _
    rw [Prog.stmt_bind, Prog.run_call, hdispatch _ (basename_importName hname)]
    cases (W.queued R userId i db).1 <;> rfl

/-- What a request replies and leaves, exit by exit. -/
theorem run_requestImport (hname : RandomName R.fileName) :
    (requestImport E R file userId).run (W.exec E) i db =
      match importFileError E file with
      | some e => (.error e, db)
      | none => match W.storeError E R with
        | some e => (.error e, db)
        | none => match W.headerError E R (stored E R file db) with
          | some e => (.error e, stored E R file db)
          | none => ((W.queued R userId i db).1.map fun jobId =>
              .queuedImport jobId "pending" (importName R),
              { stored E R file db with job := (W.queued R userId i db).2 }) := by
  cases hfile : importFileError E file with
  | some e => simp [requestImport, hfile]
  | none =>
    simp only [requestImport, hfile]
    rw [Prog.run_bind, W.run_store hfile, storeError]
    by_cases htarget : UploadHelper.isS3 E.customer = true
    · have hstored : stored E R file db = db := if_pos htarget
      rw [if_pos htarget, if_pos htarget, hstored]
      by_cases hput : E.customer.putObject (importName R) = true
      · rw [if_pos hput, if_pos hput]
        exact W.run_afterStore hname rfl
      · rw [if_neg hput, if_neg hput]
        rfl
    · rw [if_neg htarget, if_neg htarget]
      cases W.moveTo (importPath E R) with
      | some e => rfl
      | none =>
        refine W.run_afterStore hname ?_
        simp only [stored, if_neg htarget]

/-! ## What a rejected request leaves -/

theorem storeError_eq_none : W.storeError E R = none ↔
    if UploadHelper.isS3 E.customer then E.customer.putObject (importName R) = true
    else W.moveTo (importPath E R) = none := by
  unfold storeError
  split_ifs <;> simp_all

theorem headerError_eq_none : W.headerError E R db = none ↔
    W.opens (importPath E R) = true ∧
      ∃ contents, db.customer.files (importPath E R) = some contents
        ∧ hasNameColumn contents = true := by
  unfold headerError
  by_cases hopens : W.opens (importPath E R) = true
  · cases db.customer.files (importPath E R) with
    | none => simp [hopens]
    | some contents => simp [hopens]
  · simp [hopens]

variable (E R file userId i db) in
/-- The request is accepted or refused before it stores anything, or what it stores is not new: in
the object storage, or a file of the same bytes. The job table is at stake where the file has passed
every check and the queue throws. -/
def LeavesNothing : Prop :=
  importFileError E file = none →
    if UploadHelper.isS3 E.customer then
      E.customer.putObject (importName R) = true → W.opens (importPath E R) = true →
      (∃ contents, db.customer.files (importPath E R) = some contents
        ∧ hasNameColumn contents = true) →
      (∃ e, (W.queued R userId i db).1 = .error e) → (W.queued R userId i db).2 = db.job
    else
      W.moveTo (importPath E R) = none →
      let named := W.opens (importPath E R) = true ∧ hasNameColumn file.contents = true
      (named ∧ ∃ jobId, (W.queued R userId i db).1 = .ok jobId)
        ∨ db.customer.files (importPath E R) = some file.contents
          ∧ (named → (W.queued R userId i db).2 = db.job)

end ImportSetting

section Requests

variable {W : ImportSetting} {E : AppEnv} {R : CustomerEntropy} {file : UploadedFile} {userId : ℕ}
variable {i : Int} {db : AppDb}

/-- The uploaded imports and the jobs of two databases are the same. -/
def SameImports (E : AppEnv) (db db' : AppDb) : Prop :=
  (∀ path, importsDirectory E ++ [47] <+: path →
    db'.customer.files path = db.customer.files path) ∧ db'.job = db.job

/-- A stored file is seen, unless the same bytes were there. -/
theorem sameImports_stored_iff {job : Table JobData} :
    SameImports E db { db with
        customer := db.customer.withFile (importPath E R) (some file.contents), job } ↔
      db.customer.files (importPath E R) = some file.contents ∧ job = db.job := by
  refine and_congr_left fun _ => ⟨fun h => ?_, fun h path _ => ?_⟩
  · have hpath := h _ (importPath_below (R := R))
    simpa [CustomerDb.withFile] using hpath.symm
  · by_cases heq : path = importPath E R
    · subst heq
      simp [CustomerDb.withFile, h]
    · simp [CustomerDb.withFile, heq]

theorem sameImports_self : SameImports E db db := ⟨fun _ _ => rfl, rfl⟩

/-- In the object storage the request puts no file. -/
theorem leavesNothing_iff_of_isS3 (hname : RandomName R.fileName)
    (hfile : importFileError E file = none) (htarget : UploadHelper.isS3 E.customer = true) :
    let result := (requestImport E R file userId).run (W.exec E) i db
    ((∃ e, result.1 = .error e) → SameImports E db result.2) ↔
      W.LeavesNothing E R file userId i db := by
  have hstored := W.storeError_eq_none (E := E) (R := R)
  have hdb : ImportSetting.stored E R file db = db := if_pos htarget
  rw [if_pos htarget] at hstored
  rw [W.run_requestImport hname]
  unfold ImportSetting.LeavesNothing
  simp only [hfile, if_pos htarget, hdb]
  cases hstore : W.storeError E R with
  | some e =>
    have hput : ¬ E.customer.putObject (importName R) = true := by simp [← hstored, hstore]
    simp [sameImports_self, hput]
  | none =>
    have hheader := @ImportSetting.headerError_eq_none W E R db
    cases herror : W.headerError E R db with
    | some e =>
      have hnone : ¬ (W.opens (importPath E R) = true ∧
          ∃ contents, db.customer.files (importPath E R) = some contents
            ∧ hasNameColumn contents = true) := by simp [← hheader, herror]
      simp only [sameImports_self, implies_true, true_implies, true_iff]
      intro _ hopens hcontents
      exact absurd ⟨hopens, hcontents⟩ hnone
    | none =>
      obtain ⟨hopens, hcontents⟩ := hheader.mp herror
      have hjob : ∀ job, SameImports E db { db with job } ↔ job = db.job :=
        fun job => and_iff_right fun _ _ => rfl
      obtain ⟨reply, job⟩ := W.queued R userId i db
      cases reply with
      | ok jobId => simp [Except.map]
      | error e => simp [Except.map, hjob, hstored.mp hstore, hopens, hcontents]

/-- In the file system the file of the request is there from the store on. -/
theorem leavesNothing_iff_of_not_isS3 (hname : RandomName R.fileName)
    (hfile : importFileError E file = none) (htarget : ¬ UploadHelper.isS3 E.customer = true) :
    let result := (requestImport E R file userId).run (W.exec E) i db
    ((∃ e, result.1 = .error e) → SameImports E db result.2) ↔
      W.LeavesNothing E R file userId i db := by
  have hstored := W.storeError_eq_none (E := E) (R := R)
  have hdb : ImportSetting.stored E R file db = { db with
      customer := db.customer.withFile (importPath E R) (some file.contents) } := if_neg htarget
  rw [if_neg htarget] at hstored
  rw [W.run_requestImport hname]
  unfold ImportSetting.LeavesNothing
  simp only [hfile, if_neg htarget, hdb]
  cases hstore : W.storeError E R with
  | some e =>
    have hmove : ¬ W.moveTo (importPath E R) = none := by simp [← hstored, hstore]
    simp [sameImports_self, hmove]
  | none =>
    have hnamed : W.headerError E R { db with
        customer := db.customer.withFile (importPath E R) (some file.contents) } = none ↔
        W.opens (importPath E R) = true ∧ hasNameColumn file.contents = true := by
      rw [W.headerError_eq_none]
      simp [CustomerDb.withFile]
    cases herror : W.headerError E R { db with
        customer := db.customer.withFile (importPath E R) (some file.contents) } with
    | some e =>
      have hnot : ¬ (W.opens (importPath E R) = true ∧ hasNameColumn file.contents = true) := by
        simp [← hnamed, herror]
      have hleft := @sameImports_stored_iff E R file db db.job
      simp only [hstored.mp hstore, hnot, false_and, false_or, false_implies, and_true,
        true_implies]
      simpa using hleft
    | none =>
      have hyes := hnamed.mp herror
      obtain ⟨reply, job⟩ := W.queued R userId i db
      cases reply with
      | ok jobId => simp [Except.map, hyes]
      | error e => simp [Except.map, hyes, hstored.mp hstore, sameImports_stored_iff]

/-- A request that throws leaves the uploaded imports and the jobs as they were, exactly if it is
one that stores nothing new before the last check that it fails. -/
theorem rejected_import_leaves_nothing_iff (hname : RandomName R.fileName) :
    let result := (requestImport E R file userId).run (W.exec E) i db
    ((∃ e, result.1 = .error e) → SameImports E db result.2) ↔
      W.LeavesNothing E R file userId i db := by
  cases hfile : importFileError E file with
  | some e =>
    rw [W.run_requestImport hname]
    simp [ImportSetting.LeavesNothing, hfile, sameImports_self]
  | none =>
    by_cases htarget : UploadHelper.isS3 E.customer = true
    · exact leavesNothing_iff_of_isS3 hname hfile htarget
    · exact leavesNothing_iff_of_not_isS3 hname hfile htarget

end Requests

/-! ## A sample upload -/

namespace AppSample

/-- The name `bin2hex(random_bytes(8))` draws. -/
def drawn : CustomerEntropy := ⟨ascii "00112233aabbccdd", 0⟩

/-- A CSV upload of these contents. -/
def upload (contents : Bytes) : UploadedFile :=
  ⟨0, some contents.length, ascii "customers.csv", none, contents⟩

end AppSample

open AppSample in
theorem rejected_import_leaves_nothing_sample :
    let result := (requestImport env drawn { upload (ascii "name\nAnn\n") with error := 1 } 1).run
      ((ImportSetting.calm env).exec env) 0 db
    (∃ e, result.1 = .error e) → SameImports env db result.2 :=
  (@rejected_import_leaves_nothing_iff (ImportSetting.calm env) env drawn
    { upload (ascii "name\nAnn\n") with error := 1 } 1 0 db (by decide +kernel)).mpr
    fun h => absurd h (by decide +kernel)

open AppSample in
/-- A CSV without a name column is refused, and stays among the uploaded imports. -/
theorem rejected_import_keeps_file :
    let result := (requestImport env drawn (upload (ascii "email\n")) 1).run env.exec 0 db
    ¬ ((∃ e, result.1 = .error e) → SameImports env db result.2) := by
  intro result h
  have hfailed : result.1 = .error (.validation "Import CSV is missing a name column."
      [("file", "The CSV header must contain a name column.")]) := by
    unfold result
    decide +kernel
  have hkept : result.2.customer.files (importPath env drawn) = some (ascii "email\n") := by
    unfold result
    decide +kernel
  have hnew : db.customer.files (importPath env drawn) = none := rfl
  have hpath := (h ⟨_, hfailed⟩).1 _ (@importPath_below env drawn)
  rw [hkept, hnew] at hpath
  cases hpath

end SlimStarter
