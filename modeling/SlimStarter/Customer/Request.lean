import SlimStarter.Customer.Phases
import SlimStarter.Customer.Strict

/-!
# `CustomerCreateRequest`

The payload of the create endpoint and its checks, beside the row that the import parses from the
same texts. The two parsers agree on every assignment of texts (`parseRow_eq`) and the two
validators on all but the lengths, which the import does not look at: they agree on a record exactly
if it fails a check they share or keeps the limits (`import_agrees_iff`). What keeps the limits is
taken by a database in strict mode too (`TextRules.accepts_of_withinLimits`).
-/

namespace SlimStarter

/-- A value of a parsed body: null or absent, a string, or another one with its string cast. -/
inductive Mixed where
  | null
  | string (s : Bytes)
  | other (cast : Bytes)
deriving DecidableEq, Repr

/-- `(string) ($value ?? '')`. -/
def Mixed.cast : Mixed → Bytes
  | null => []
  | string s => s
  | other s => s

/-- The value of a field that holds a text or is absent. -/
def Mixed.ofText : Option Bytes → Mixed
  | none => null
  | some s => string s

@[simp] theorem Mixed.cast_ofText (value : Option Bytes) : (ofText value).cast = value.getD [] := by
  cases value <;> rfl

/-- The fields of the payload; `toArray()` has the same. -/
abbrev CustomerCreateRequest : Type := CustomerData

namespace CustomerCreateRequest

/-- `CustomerCreateRequest::MAX_TEXT_LENGTH`. -/
def maxTextLength : ℕ := 5000

def nullableString (value : Mixed) (lowercase : Bool) : Option Bytes :=
  match value with
  | .string s =>
    if trim s = [] then none else some (if lowercase then strtolower (trim s) else trim s)
  | _ => none

/-- `fromRequest` of a request with this parsed body. -/
def fromRequest (body : Bytes → Mixed) : CustomerCreateRequest :=
  let rawStatus := strtolower (trim (body (ascii "status")).cast)
  { name := trim (body (ascii "name")).cast
    email := nullableString (body (ascii "email")) true
    phone := nullableString (body (ascii "phone")) false
    company := nullableString (body (ascii "company")) false
    status := if rawStatus = [] then CustomerStatus.default else rawStatus
    address := nullableString (body (ascii "address")) false
    notes := nullableString (body (ascii "notes")) false }

def toArray (dto : CustomerCreateRequest) : CustomerData where
  name := dto.name
  email := dto.email
  phone := dto.phone
  company := dto.company
  status := dto.status
  address := dto.address
  notes := dto.notes

@[simp] theorem toArray_eq (dto : CustomerCreateRequest) : dto.toArray = dto := rfl

/-- The error of an optional text that has more than `max` characters. -/
def lengthError (field label : String) (max : ℕ) (value : Option Bytes) :
    List (String × String) :=
  if value.any (max < mbStrlen ·) then [(field, s!"{label} must not exceed {max} characters.")]
  else []

def nameError (name : Bytes) : List (String × String) :=
  if name = [] then [("name", "Name is required.")] else lengthError "name" "Name" 150 (some name)

def emailError (E : CustomerEnv) (email : Option Bytes) : List (String × String) :=
  if email.any fun email => !E.filterVarEmail email then
    [("email", "A valid email address is required.")]
  else lengthError "email" "Email" 190 email

def statusError (status : Bytes) : List (String × String) :=
  if ¬ CustomerStatus.isValid status then
    [("status", "Status must be one of: " ++ text (implode (ascii ", ") CustomerStatus.all) ++ ".")]
  else []

/-- The errors by field, in the order of the checks. -/
def validate (E : CustomerEnv) (dto : CustomerCreateRequest) : List (String × String) :=
  nameError dto.name ++ emailError E dto.email ++ lengthError "phone" "Phone" 40 dto.phone
    ++ lengthError "company" "Company" 150 dto.company ++ statusError dto.status
    ++ lengthError "address" "Address" maxTextLength dto.address
    ++ lengthError "notes" "Notes" maxTextLength dto.notes

/-- The limits of `validate`, each with the text it is for. -/
def limits (d : CustomerData) : List (Option Bytes × ℕ) :=
  [(some d.name, 150), (d.email, 190), (d.phone, 40), (d.company, 150),
    (d.address, maxTextLength), (d.notes, maxTextLength)]

/-- No text exceeds its limit. -/
def withinLimits (d : CustomerData) : Bool :=
  (limits d).all fun (value, max) => value.all (mbStrlen · ≤ max)

/-- The checks that the import makes too: a name, a status of the list, and no email that is not
one. -/
def wellFormed (E : CustomerEnv) (d : CustomerData) : Bool :=
  d.name ≠ [] && CustomerStatus.isValid d.status && d.email.all E.filterVarEmail

variable {E : CustomerEnv} {d : CustomerData}

theorem lengthError_eq_nil {field label : String} {max : ℕ} {value : Option Bytes} :
    lengthError field label max value = [] ↔ value.all (mbStrlen · ≤ max) = true := by
  cases value <;> simp [lengthError]

theorem statusError_eq_nil {status : Bytes} :
    statusError status = [] ↔ CustomerStatus.isValid status = true := by
  simp [statusError]

/-- The endpoint accepts what is well-formed and within the limits. -/
theorem validate_eq_nil_iff :
    validate E d = [] ↔ wellFormed E d = true ∧ withinLimits d = true := by
  have hname : nameError d.name = [] ↔ d.name ≠ [] ∧ mbStrlen d.name ≤ 150 := by
    by_cases h : d.name = []
    · simp [nameError, h]
    · simp [nameError, h, lengthError_eq_nil]
  have hemail : emailError E d.email = [] ↔
      d.email.all E.filterVarEmail = true ∧ d.email.all (mbStrlen · ≤ 190) = true := by
    by_cases h : (d.email.any fun email => !E.filterVarEmail email) = true
    · cases hd : d.email <;> simp_all [emailError]
    · have hall : d.email.all E.filterVarEmail = true := by
        cases hd : d.email <;> simp_all
      simp [emailError, h, hall, lengthError_eq_nil]
  simp only [validate, List.append_eq_nil_iff, hname, hemail, lengthError_eq_nil,
    statusError_eq_nil, wellFormed, withinLimits, limits, List.all_cons, List.all_nil,
    Option.all_some, Bool.and_eq_true, decide_eq_true_eq, Bool.and_true]
  tauto

end CustomerCreateRequest

namespace TextRules

variable {D : TextRules} {d : CustomerData}

theorem accepts_of_withinLimits (hstatus : CustomerStatus.isValid d.status = true)
    (h : CustomerCreateRequest.withinLimits d = true) (henc : D.encodes d = true) :
    D.accepts d = true := by
  have hlength : ∀ value : Option Bytes, (value.all (mbStrlen · ≤ 5000)) = true →
      (value.all (·.length ≤ 65535)) = true := by
    rintro (_ | s) hs
    · rfl
    · have := length_le_mbStrlen s
      simp only [Option.all_some, decide_eq_true_eq] at hs ⊢
      omega
  have hshort : mbStrlen d.status ≤ 20 := by
    have hall : ∀ status ∈ CustomerStatus.all, mbStrlen status ≤ 20 := by decide
    exact hall _ (by simpa [CustomerStatus.isValid] using hstatus)
  simp only [CustomerCreateRequest.withinLimits, CustomerCreateRequest.limits, List.all_cons,
    List.all_nil, CustomerCreateRequest.maxTextLength, Bool.and_eq_true, Bool.and_true,
    Option.all_some, decide_eq_true_eq] at h
  obtain ⟨hname, hemail, hphone, hcompany, haddress, hnotes⟩ := h
  simp only [accepts, henc, stringColumns, textColumns, List.all_cons, List.all_nil, hemail,
    hphone, hcompany, hlength _ haddress, hlength _ hnotes, Option.all_some, hshort,
    decide_true, Bool.and_true, Bool.true_and, Bool.or_eq_true, decide_eq_true_eq]
  exact .inr (by omega)

end TextRules

/-! ## The import beside the endpoint -/

namespace CustomerImportJob

open CustomerCreateRequest (fromRequest nullableString withinLimits wellFormed validate
  validate_eq_nil_iff)

variable {E : CustomerEnv} {D : TextRules}
variable {line : Csv.Record} {header : List (Bytes × ℕ)} {raw : Bytes → Option Bytes}

/-- The text of a column, before it is trimmed. -/
def rawValue (line : Csv.Record) (header : List (Bytes × ℕ)) (column : Bytes) : Option Bytes := do
  let index ← header.lookup column
  line.getD index none

/-- The columns that an import reads. -/
def columns : List Bytes :=
  [ascii "name", ascii "email", ascii "phone", ascii "company", ascii "status", ascii "address",
    ascii "notes"]

theorem value_eq (column : Bytes) : value line header column =
    (rawValue line header column).bind fun s => if trim s = [] then none else some (trim s) := by
  unfold value rawValue
  cases header.lookup column <;> rfl

theorem value_eq_nullableString (column : Bytes) :
    value line header column =
      nullableString (.ofText (rawValue line header column)) false := by
  rw [value_eq]
  cases rawValue line header column <;> rfl

theorem value_map_strtolower (column : Bytes) :
    (value line header column).map strtolower =
      nullableString (.ofText (rawValue line header column)) true := by
  rw [value_eq]
  cases rawValue line header column with
  | none => rfl
  | some s =>
    simp only [Option.bind_some, Mixed.ofText, nullableString]
    split_ifs <;> rfl

theorem strtolower_eq_nil {s : Bytes} : strtolower s = [] ↔ s = [] := by simp [strtolower]

/-- The import parses a row into the record that the endpoint builds from the same texts. -/
theorem parseRow_eq (hraw : ∀ column ∈ columns, rawValue line header column = raw column) :
    parseRow line header = (fromRequest fun field => .ofText (raw field)).toArray := by
  simp only [columns, List.forall_mem_cons] at hraw
  obtain ⟨hname, hemail, hphone, hcompany, hstatus, haddress, hnotes, -⟩ := hraw
  have hnameEq : (value line header (ascii "name")).getD [] =
      trim ((raw (ascii "name")).getD []) := by
    rw [value_eq, hname]
    cases raw (ascii "name") with
    | none => rfl
    | some s =>
      simp only [Option.bind_some, Option.getD_some]
      split_ifs with h
      · exact h.symm
      · rfl
  have hstatusEq : ((value line header (ascii "status")).map strtolower).getD
      CustomerStatus.default =
      if strtolower (trim ((raw (ascii "status")).getD [])) = [] then CustomerStatus.default
      else strtolower (trim ((raw (ascii "status")).getD [])) := by
    rw [value_eq, hstatus]
    cases raw (ascii "status") with
    | none => rfl
    | some s =>
      simp only [Option.bind_some, Option.getD_some, strtolower_eq_nil]
      split_ifs <;> rfl
  simp only [CustomerCreateRequest.toArray_eq, parseRow, fromRequest, Mixed.cast_ofText, hnameEq,
    hstatusEq, value_map_strtolower (ascii "email"), hemail]
  simp only [value_eq_nullableString, hphone, hcompany, haddress, hnotes]

/-- What the import checks of the row alone. -/
theorem rowError_eq_none_iff {d : CustomerData} : rowError E d = none ↔ wellFormed E d = true := by
  by_cases hname : d.name = []
  · simp [rowError, wellFormed, hname]
  · by_cases hstatus : CustomerStatus.isValid d.status = true
    · cases hemail : d.email <;> simp [rowError, wellFormed, hname, hstatus, hemail]
    · simp [rowError, wellFormed, hname, hstatus]

theorem validateRow_eq_none_iff {d : CustomerData} {seenNames seenEmails : List Bytes}
    (hname : E.mbStrtolower d.name ∉ seenNames) (hemail : ∀ email ∈ d.email, email ∉ seenEmails) :
    validateRow E d seenNames seenEmails = none ↔ wellFormed E d = true := by
  have hseen : (d.email.any (· ∈ seenEmails)) = false := by
    cases hd : d.email with
    | none => rfl
    | some email => simpa [hd] using hemail
  rw [← rowError_eq_none_iff]
  unfold validateRow
  cases rowError E d with
  | some error => simp
  | none => simp [hname, hseen]

/-- The import and the endpoint agree on a row, and its insert cannot fail by its content, exactly
if the row fails a check they share, or keeps the limits with texts that the database has. -/
theorem import_agrees_iff {seenNames seenEmails : List Bytes}
    (hraw : ∀ column ∈ columns, rawValue line header column = raw column)
    (hname : E.mbStrtolower (parseRow line header).name ∉ seenNames)
    (hemail : ∀ email ∈ (parseRow line header).email, email ∉ seenEmails) :
    let dto := fromRequest fun field => .ofText (raw field)
    let accepted := validateRow E (parseRow line header) seenNames seenEmails = none
    (parseRow line header = dto.toArray ∧ (accepted ↔ validate E dto = [])
      ∧ (accepted → withinLimits (parseRow line header) = true
        ∧ D.accepts (parseRow line header) = true)) ↔
      (wellFormed E dto = true → withinLimits dto = true ∧ D.encodes dto = true) := by
  intro dto accepted
  have hparse : parseRow line header = dto := parseRow_eq hraw
  have haccepted : accepted ↔ wellFormed E dto = true := by
    rw [← hparse]
    exact validateRow_eq_none_iff hname hemail
  rw [haccepted, hparse, validate_eq_nil_iff, CustomerCreateRequest.toArray_eq]
  constructor
  · rintro ⟨-, -, h⟩ hwell
    obtain ⟨hlimits, haccepts⟩ := h hwell
    simp only [TextRules.accepts, Bool.and_eq_true] at haccepts
    exact ⟨hlimits, haccepts.1⟩
  · intro h
    refine ⟨rfl, ⟨fun hwell => ⟨hwell, (h hwell).1⟩, fun hboth => hboth.1⟩, fun hwell => ?_⟩
    have hstatus : CustomerStatus.isValid dto.status = true := by
      simp only [wellFormed, Bool.and_eq_true] at hwell
      exact hwell.1.2
    exact ⟨(h hwell).1, TextRules.accepts_of_withinLimits hstatus (h hwell).1 (h hwell).2⟩

end CustomerImportJob

/-! ## Sample rows -/

namespace CustomerSample

/-- The columns of a file with a name column only. -/
def nameHeader : List (Bytes × ℕ) := [(ascii "name", 0)]

/-- The fields of a request with a name only. -/
def nameBody (name : Bytes) : Bytes → Option Bytes :=
  fun field => if field = ascii "name" then some name else none

/-- MySQL in strict mode on ASCII texts. -/
def strictAscii : TextRules := ⟨fun s => s.all (· < 128), true⟩

end CustomerSample

open CustomerImportJob CustomerSample CustomerCreateRequest in
theorem import_agrees_sample :
    let dto := fromRequest fun field => .ofText (nameBody (ascii " Ada ") field)
    let parsed := parseRow [some (ascii " Ada ")] nameHeader
    parsed = dto.toArray ∧ (validateRow env parsed [] [] = none ↔ validate env dto = [])
      ∧ (validateRow env parsed [] [] = none →
        withinLimits parsed = true ∧ strictAscii.accepts parsed = true) :=
  (@import_agrees_iff env strictAscii [some (ascii " Ada ")] nameHeader (nameBody (ascii " Ada "))
    [] [] (by decide +kernel) (by simp) (by simp)).mpr (by decide +kernel)

open CustomerImportJob CustomerSample CustomerCreateRequest in
/-- The import takes a name of 256 letters, which the endpoint refuses and which makes the insert
of its chunk fail. -/
theorem import_takes_long_name :
    let name : Bytes := List.replicate 256 97
    let dto := fromRequest fun field => .ofText (nameBody name field)
    let parsed := parseRow [some name] nameHeader
    validateRow env parsed [] [] = none ∧ validate env dto ≠ []
      ∧ strictAscii.accepts parsed = false := by
  decide +kernel

end SlimStarter
