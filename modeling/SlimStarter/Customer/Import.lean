import SlimStarter.Customer.Service
import SlimStarter.Csv

/-!
# `CustomerImportJob`

The import job as a program. `process` takes the size of a chunk, which the job itself fixes at
`chunkSize`. `CustomerCall` gathers the job and the operations of `CustomerService`, so that a run
can mix them; `evict` is Redis dropping a key on its own.
-/

namespace SlimStarter

open Prog (time)

structure ImportResult where
  total : ℕ
  imported : ℕ
  skipped : ℕ
  failed : ℕ
  errors : List (ℕ × String)
deriving DecidableEq, Repr

/-- The local variables of the loop of `process`. -/
structure ImportState where
  imported : ℕ
  skipped : ℕ
  failed : ℕ
  processed : ℕ
  errors : List (ℕ × String)
  seenNames : List Bytes
  seenEmails : List Bytes
  batch : List CustomerData
deriving DecidableEq, Repr

/-- The local variables before the first record. -/
def ImportState.initial : ImportState := ⟨0, 0, 0, 0, [], [], [], []⟩

namespace CustomerImportJob

def chunkSize : ℕ := 100

def maxErrors : ℕ := 100

variable (E : CustomerEnv)

/-- `Storage::customerImportFile`. -/
def customerImportFile (fileName : Bytes) : Bytes :=
  implode [47] [E.storageRoot, ascii "imports", basename fileName]

def normalizeColumnName (column : Option Bytes) : Bytes :=
  let column := column.getD []
  strtolower (trim (if [0xEF, 0xBB, 0xBF] <+: column then column.drop 3 else column))

/-- The columns of a header with their indices, each at its first occurrence. -/
def headerMap (header : Csv.Record) : List (Bytes × ℕ) :=
  header.zipIdx.foldl (fun map (column, index) =>
    let name := normalizeColumnName column
    if name ≠ [] ∧ (map.lookup name).isNone then map ++ [(name, index)] else map) []

def value (line : Csv.Record) (header : List (Bytes × ℕ)) (column : Bytes) : Option Bytes := do
  let index ← header.lookup column
  let raw ← line.getD index none
  if trim raw = [] then none else some (trim raw)

def parseRow (line : Csv.Record) (header : List (Bytes × ℕ)) : CustomerData where
  name := (value line header (ascii "name")).getD []
  email := (value line header (ascii "email")).map strtolower
  phone := value line header (ascii "phone")
  company := value line header (ascii "company")
  status := ((value line header (ascii "status")).map strtolower).getD CustomerStatus.default
  address := value line header (ascii "address")
  notes := value line header (ascii "notes")

/-- The part of `validateRow` that looks at the row alone. -/
def rowError (parsed : CustomerData) : Option String :=
  if parsed.name = [] then some "Name is required."
  else if ¬ CustomerStatus.isValid parsed.status then
    some ("Status must be one of: " ++ text (implode (ascii ", ") CustomerStatus.all) ++ ".")
  else if parsed.email.any fun email => !E.filterVarEmail email then some "Email is invalid."
  else none

def validateRow (parsed : CustomerData) (seenNames seenEmails : List Bytes) : Option String :=
  match rowError E parsed with
  | some error => some error
  | none =>
    if E.mbStrtolower parsed.name ∈ seenNames then some "Duplicate customer in file."
    else if parsed.email.any (· ∈ seenEmails) then some "Duplicate email in file."
    else none

def isEmptyRow (line : Csv.Record) : Bool :=
  line.all fun value => value.all fun value => trim value = []

def addError (errors : List (ℕ × String)) (row : ℕ) (message : String) : List (ℕ × String) :=
  if maxErrors ≤ errors.length then errors else errors ++ [(row, message)]

/-! ## The job -/

/-- Whether the database knows the name or the email. -/
def isKnown (parsed : CustomerData) : CustomerProg Bool := do
  let byName ← issue (.existsByName parsed.name none)
  if byName then pure true
  else
    match parsed.email with
    | none => pure false
    | some email => issue (.existsByEmail email none)

/-- A row of a chunk that is written at `now`. -/
def newRow (now : LocalTime) (parsed : CustomerData) : NewCustomer :=
  { parsed with avatarPath := none, createdAt := now, updatedAt := now }

def flush (batch : List CustomerData) : CustomerProg ℕ := do
  let now ← time
  let _ ← issue (.createMany (batch.map (newRow (E.zone.date now))))
  pure batch.length

/-- Insert the batch, where it is due, and start the next one. -/
def flushIf (due : Bool) (st : ImportState) : CustomerProg ImportState :=
  if due then do
    let count ← flush E st.batch
    pure { st with imported := st.imported + count, batch := [] }
  else pure st

/-- The state after a row that failed validation. -/
def ImportState.reject (st : ImportState) (error : String) : ImportState :=
  { st with failed := st.failed + 1, errors := addError st.errors (st.processed + 1) error }

/-- The state after a row was put into the batch. -/
def ImportState.accept (st : ImportState) (parsed : CustomerData) : ImportState :=
  { st with
    batch := st.batch ++ [parsed]
    seenNames := E.mbStrtolower parsed.name :: st.seenNames
    seenEmails := parsed.email.toList ++ st.seenEmails }

/-- The call of the progress callback after an accepted row, where there is one. -/
def report (progress : Bool) (total : ℕ) (st : ImportState) : CustomerProg Unit :=
  if progress ∧ st.processed % chunkSize = 0 then
    let imported := st.imported
    issue (.progress (if 0 < total then min 99 (st.processed * 100 / total) else 99)
      s!"Imported {imported} of {total} rows")
  else pure ()

/-- One pass of the loop. -/
def importRow (chunk : ℕ) (progress : Bool) (total : ℕ) (header : List (Bytes × ℕ))
    (st : ImportState) (line : Csv.Record) : CustomerProg ImportState :=
  let st := { st with processed := st.processed + 1 }
  if isEmptyRow line then pure st
  else
    let parsed := parseRow line header
    match validateRow E parsed st.seenNames st.seenEmails with
    | some error => pure (ImportState.reject st error)
    | none => do
      let known ← isKnown parsed
      if known then pure { st with skipped := st.skipped + 1 }
      else do
        let st := ImportState.accept E st parsed
        let st ← flushIf E (chunk ≤ st.batch.length) st
        report progress total st
        pure st

def importRows (chunk : ℕ) (progress : Bool) (total : ℕ) (header : List (Bytes × ℕ)) :
    ImportState → List Csv.Record → CustomerProg ImportState
  | st, [] => pure st
  | st, line :: lines => do
    let st ← importRow E chunk progress total header st line
    importRows chunk progress total header st lines

/-- `process` from the header on. -/
def importRecords (chunk : ℕ) (progress : Bool) (total : ℕ) (header : Csv.Record)
    (lines : List Csv.Record) : CustomerProg ImportResult := do
  if ((headerMap header).lookup (ascii "name")).isNone then
    .throw (.runtime "Import CSV is missing a name column.")
  else do
    let st ← importRows E chunk progress total (headerMap header) ImportState.initial lines
    let st ← flushIf E (st.batch ≠ []) st
    let imported := st.imported
    if progress then issue (.progress 100 s!"Import complete ({imported} imported)") else pure ()
    pure { total, imported, skipped := st.skipped, failed := st.failed, errors := st.errors }

/-- `countDataRows` of what `fopen` opens. -/
def countDataRows (contents : Option Bytes) : ℕ :=
  match contents with
  | none => 0
  | some contents => (Csv.lines contents).length - 1

def process (chunk : ℕ) (path : Bytes) (progress : Bool) : CustomerProg ImportResult := do
  let total ← countDataRows <$> issue (.readFile path)
  let contents ← issue (.readFile path)
  match contents with
  | none => .throw (.runtime "Could not open the import file.")
  | some contents =>
    importRecords E chunk progress total ((Csv.records contents).head?.getD [])
      (Csv.records contents).tail

/-- The `finally` of `handle`. -/
def removeFile (path : Bytes) : CustomerProg Unit := do
  let _ ← issue (.unlink path)
  pure ()

/-- `$fileName === '' || !is_file($path)`. -/
def isMissing (fileName : Bytes) : CustomerProg Bool :=
  if fileName = [] then pure true else not <$> issue (.isFile (customerImportFile E fileName))

/-- `handle` of a payload with this `file`; `progress` says whether there is a callback. -/
def handle (file : Bytes) (progress : Bool) : CustomerProg ImportResult := do
  let missing ← isMissing E (basename file)
  if missing then .throw (.runtime "The import file is missing.")
  else
    let path := customerImportFile E (basename file)
    Prog.tryFinally (removeFile path) (process E chunkSize path progress)

end CustomerImportJob

/-! ## Calls -/

inductive CustomerCall where
  | list (keywords : Bytes) (status : Option Bytes) (page limit : Int)
  | stats
  | get (id : ℕ)
  | create (dto : CustomerData)
  | update (id : ℕ) (payload : CustomerData)
  | delete (id : ℕ)
  | uploadAvatar (id : ℕ) (file : UploadedFile)
  | removeAvatar (id : ℕ)
  | importJob (file : Bytes) (progress : Bool)
  | evict (key : Bytes)
deriving DecidableEq, Repr

inductive CustomerResult where
  | cached (c : Cached)
  | customer (c : PublicCustomer)
  | imported (r : ImportResult)
  | void
deriving DecidableEq, Repr

/-- The program of a call. -/
def CustomerCall.prog (E : CustomerEnv) (R : CustomerEntropy) :
    CustomerCall → CustomerProg CustomerResult
  | list keywords status page limit =>
    .cached <$> CustomerService.list E R keywords status page limit
  | stats => .cached <$> CustomerService.stats E R
  | get id => .customer <$> CustomerService.get E id
  | create dto => .customer <$> CustomerService.create E dto
  | update id payload => .customer <$> CustomerService.update E id payload
  | delete id => (fun _ => .void) <$> CustomerService.delete E id
  | uploadAvatar id file => .customer <$> CustomerService.uploadAvatar E R id file
  | removeAvatar id => .customer <$> CustomerService.removeAvatar E id
  | importJob file progress => .imported <$> CustomerImportJob.handle E file progress
  | evict key => (fun _ => .void) <$> issue (.redisDel key)

end SlimStarter
