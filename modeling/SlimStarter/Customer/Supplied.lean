import SlimStarter.Lib.Interrupt
import SlimStarter.Customer.Request

/-!
# Supplied fields

What becomes of the values that a JSON body supplies for the seven fields of a customer. A name and
a status are cast to a string; of the other five only a string counts, as the API documents them,
and any other value is read as null. So a field keeps what is supplied exactly if that is a string
or the field is cast (`supplied_field_kept`), and an update stores it.
-/

namespace SlimStarter

/-- A value of a decoded JSON body. A float comes with its string cast. -/
inductive JsonValue where
  | null
  | bool (b : Bool)
  | int (n : Int)
  | float (cast : Bytes)
  | string (s : Bytes)
  | array
deriving DecidableEq, Repr

namespace JsonValue

/-- The value as the requests read it. -/
def toMixed : JsonValue → Mixed
  | null => .null
  | bool b => .other (if b then ascii "1" else [])
  | int n => .other (intString n)
  | float cast => .other cast
  | string s => .string s
  | array => .other (ascii "Array")

/-- The string form of a string, an integer or a float. -/
def text? : JsonValue → Option Bytes
  | int n => some (intString n)
  | float cast => some cast
  | string s => some s
  | _ => none

def isString : JsonValue → Bool
  | string _ => true
  | _ => false

end JsonValue

/-- The fields of a customer. -/
inductive CustomerField where
  | name | email | phone | company | status | address | notes
deriving DecidableEq, Repr

namespace CustomerField

/-- The field in a body and among the errors. -/
def key : CustomerField → String
  | name => "name"
  | email => "email"
  | phone => "phone"
  | company => "company"
  | status => "status"
  | address => "address"
  | notes => "notes"

def column (d : CustomerData) : CustomerField → Option Bytes
  | name => some d.name
  | email => d.email
  | phone => d.phone
  | company => d.company
  | status => some d.status
  | address => d.address
  | notes => d.notes

/-- The text that a customer keeps of a supplied one. -/
def normal (s : Bytes) : CustomerField → Bytes
  | email | status => strtolower (trim s)
  | _ => trim s

/-- The field takes any value by its string cast. -/
def casts : CustomerField → Bool
  | name | status => true
  | _ => false

end CustomerField

open CustomerCreateRequest (emailError fromRequest lengthError nameError nullableString statusError
  validate)

variable {E : CustomerEnv} {body : Bytes → JsonValue} {field : CustomerField} {s : Bytes}
variable {d : CustomerData}

/-- `fromRequest` of a request with this JSON object. -/
def customerPayload (body : Bytes → JsonValue) : CustomerCreateRequest :=
  fromRequest fun key => (body key).toMixed

theorem cast_toMixed {value : JsonValue} (h : value.text? = some s) : value.toMixed.cast = s := by
  cases value <;> simp_all [JsonValue.text?, JsonValue.toMixed, Mixed.cast]

theorem nullableString_toMixed {value : JsonValue} (h : value.text? = some s) (hne : trim s ≠ [])
    (lowercase : Bool) : nullableString value.toMixed lowercase =
      if value.isString then some (if lowercase then strtolower (trim s) else trim s)
      else none := by
  cases value <;> simp_all [JsonValue.text?, JsonValue.toMixed, JsonValue.isString, nullableString]

/-- What the payload has of a supplied text that is not blank. -/
theorem column_payload (hs : (body (ascii field.key)).text? = some s) (hne : trim s ≠ []) :
    field.column (customerPayload body).toArray =
      if (body (ascii field.key)).isString ∨ field.casts then some (field.normal s) else none := by
  cases field with
  | name =>
    have hcast : (body (ascii "name")).toMixed.cast = s := cast_toMixed hs
    simp [CustomerField.column, CustomerField.casts, CustomerField.normal, customerPayload,
      fromRequest, hcast]
  | status =>
    have hcast : (body (ascii "status")).toMixed.cast = s := cast_toMixed hs
    have hlower : strtolower (trim s) ≠ [] := by simpa [strtolower] using hne
    simp [CustomerField.column, CustomerField.casts, CustomerField.normal, customerPayload,
      fromRequest, hcast, hlower]
  | email =>
    have hnullable := nullableString_toMixed hs hne true
    simpa [CustomerField.column, CustomerField.casts, CustomerField.normal, customerPayload,
      fromRequest, CustomerField.key] using hnullable
  | phone | company | address | notes =>
    have hnullable := nullableString_toMixed hs hne false
    simpa [CustomerField.column, CustomerField.casts, CustomerField.normal, customerPayload,
      fromRequest, CustomerField.key] using hnullable

theorem lengthError_key {key label : String} {max : ℕ} {value : Option Bytes} {e : String × String}
    (h : e ∈ lengthError key label max value) : e.1 = key ∧ value ≠ none := by
  unfold lengthError at h
  split_ifs at h with hlong
  · obtain rfl := List.mem_singleton.mp h
    refine ⟨rfl, ?_⟩
    rintro rfl
    simp at hlong
  · simp at h

theorem emailError_key {email : Option Bytes} {e : String × String} (h : e ∈ emailError E email) :
    e.1 = "email" ∧ email ≠ none := by
  unfold emailError at h
  split_ifs at h with hinvalid
  · obtain rfl := List.mem_singleton.mp h
    refine ⟨rfl, ?_⟩
    rintro rfl
    simp at hinvalid
  · exact lengthError_key h

theorem nameError_key {name : Bytes} {e : String × String} (h : e ∈ nameError name) :
    e.1 = "name" := by
  unfold nameError at h
  split_ifs at h
  · rw [List.mem_singleton.mp h]
  · exact (lengthError_key h).1

theorem statusError_key {status : Bytes} {e : String × String} (h : e ∈ statusError status) :
    e.1 = "status" := by
  unfold statusError at h
  split_ifs at h
  · simp at h
  · rw [List.mem_singleton.mp h]

theorem validate_key {e : String × String} (h : e ∈ validate E d) :
    ∃ field : CustomerField, e.1 = field.key ∧ field.column d ≠ none := by
  simp only [validate, List.mem_append] at h
  rcases h with (((((h | h) | h) | h) | h) | h) | h
  · exact ⟨.name, nameError_key h, by simp [CustomerField.column]⟩
  · exact ⟨.email, emailError_key h⟩
  · exact ⟨.phone, lengthError_key h⟩
  · exact ⟨.company, lengthError_key h⟩
  · exact ⟨.status, statusError_key h, by simp [CustomerField.column]⟩
  · exact ⟨.address, lengthError_key h⟩
  · exact ⟨.notes, lengthError_key h⟩

theorem CustomerField.key_injective : Function.Injective CustomerField.key := by
  intro a b h
  cases a <;> cases b <;> simp_all [CustomerField.key]

theorem no_error_of_column_none (h : field.column d = none) :
    ∀ e ∈ validate E d, e.1 ≠ field.key := by
  intro e he hkey
  obtain ⟨other, hother, hcolumn⟩ := validate_key he
  obtain rfl := CustomerField.key_injective (hkey.symm.trans hother)
  exact hcolumn h

/-! ## Storing it -/

section Update

variable {i : Int} {id : ℕ} {db : CustomerDb}

/-- What writes nothing to the table leaves it as it is. -/
theorem customer_run_of_only {α : Type} {A : α → Prop} {p : CustomerProg α}
    (h : Prog.Only (fun op => op.writes = false) A p) :
    (p.run E.exec i db).2.customer = db.customer :=
  (Prog.Always.of_only (I := fun s : CustomerDb => s.customer = db.customer) h
    (fun _ s hop hs => (customer_exec hop i s).trans hs) rfl).final

/-- After its write an update writes nothing more to the table. -/
theorem only_reads_after_update : Prog.Only (fun op => op.writes = false) (fun _ => True) (do
    CustomerService.bump E
    CustomerService.get E id) := by
  have hget := (only_serviceGet (E := E) id).imp fun _ hop => hop.2
  refine Prog.only_bind.mpr ?_
  rw [bump_eq]
  split_ifs
  · exact ⟨rfl, fun _ => hget⟩
  · exact hget

/-- An update alone stores its payload in every row of the id, or throws and stores nothing. -/
theorem update_run (r : CustomerRow)
    (hr : r ∈ ((CustomerService.update E id d).run E.exec i db).2.customer.rows) (hid : r.id = id) :
    r.toCustomerData = d ∨ (r ∈ db.customer.rows
      ∧ ((CustomerService.update E id d).run E.exec i db).1.isOk = false) := by
  unfold CustomerService.update at hr ⊢
  simp only [Prog.stmt_bind, Prog.run_call, CustomerEnv.exec, Prog.resume_ok] at hr ⊢
  split_ifs at hr ⊢ with hfound
  · have hunique :
        ((CustomerService.assertUnique d.name d.email (some id)).run E.exec i db).2.customer =
          db.customer :=
      customer_run_of_only ((only_assertUnique d.name d.email (some id)).imp fun _ hop => hop.2)
    rw [Prog.run_bind] at hr ⊢
    rcases hrun : (CustomerService.assertUnique d.name d.email (some id)).run E.exec i db
      with ⟨_ | a, db'⟩
    · rw [hrun] at hr hunique
      exact .inr ⟨hunique ▸ hr, rfl⟩
    · rw [hrun] at hr hunique
      simp only [Prog.run_call, CustomerEnv.exec, CustomerDb.withTable, Prog.resume_ok] at hr ⊢
      rw [customer_run_of_only only_reads_after_update] at hr
      rcases Table.mem_update.mp hr with ⟨-, hother⟩ | ⟨r', -, -, rfl⟩
      · simp [hid] at hother
      · exact .inl rfl
  · exact .inr ⟨hr, rfl⟩

end Update

/-- A supplied text that is not blank is kept exactly if it comes as a string or its field is cast.
Otherwise the payload has no such field and no error names it. A kept text an update stores in the
rows of its id, unless it throws and leaves them. -/
theorem supplied_field_kept (hs : (body (ascii field.key)).text? = some s) (hne : trim s ≠ []) :
    let payload := customerPayload body
    let kept := field.column payload.toArray = some (field.normal s)
    (kept ↔ (body (ascii field.key)).isString = true ∨ field.casts = true)
      ∧ (¬ kept → field.column payload.toArray = none ∧ ∀ e ∈ validate E payload, e.1 ≠ field.key)
      ∧ (kept → ∀ (i : Int) (db : CustomerDb) (id : ℕ),
          let put := (CustomerService.update E id payload.toArray).run E.exec i db
          ∀ r ∈ put.2.customer.rows, r.id = id →
            field.column r.toCustomerData = some (field.normal s)
              ∨ (r ∈ db.customer.rows ∧ put.1.isOk = false)) := by
  intro payload kept
  have hcolumn := column_payload hs hne
  refine ⟨?_, fun hlost => ?_, fun hkept i db id => fun r hr hid => ?_⟩
  · simp only [kept, payload, hcolumn]
    split_ifs with h <;> simp [h]
  · have hnone : field.column payload.toArray = none := by
      simp only [kept, payload, hcolumn] at hlost ⊢
      split_ifs at hlost ⊢ with h
      · simp at hlost
      · rfl
    exact ⟨hnone, no_error_of_column_none hnone⟩
  · rcases update_run r hr hid with hstored | hthrown
    · exact .inl (hstored ▸ hkept)
    · exact .inr hthrown

/-! ## Sample bodies -/

namespace CustomerSample

/-- A name and a phone number. -/
def phoneBody (phone : JsonValue) : Bytes → JsonValue := fun key =>
  if key = ascii "name" then .string (ascii "Ann")
  else if key = ascii "phone" then phone
  else .null

/-- A customer with a phone number. -/
def withPhone : CustomerDb :=
  { db with
    customer := ⟨[{ customer (ascii "Ann") with
      id := 1, phone := some (ascii "5550000"), avatarPath := none, createdAt := ⟨0⟩,
      updatedAt := none, deletedAt := none }], 2⟩ }

end CustomerSample

open CustomerSample in
theorem supplied_field_kept_sample :
    let payload := customerPayload (phoneBody (.string (ascii " 5551234 ")))
    (payload.phone = some (ascii "5551234") ↔
        (JsonValue.string (ascii " 5551234 ")).isString = true ∨ CustomerField.phone.casts = true)
      ∧ (¬ payload.phone = some (ascii "5551234") →
          payload.phone = none ∧ ∀ e ∈ validate env payload, e.1 ≠ "phone")
      ∧ (payload.phone = some (ascii "5551234") → ∀ (i : Int) (db : CustomerDb) (id : ℕ),
          let put := (CustomerService.update env id payload.toArray).run env.exec i db
          ∀ r ∈ put.2.customer.rows, r.id = id →
            r.phone = some (ascii "5551234") ∨ (r ∈ db.customer.rows ∧ put.1.isOk = false)) :=
  @supplied_field_kept env (phoneBody (.string (ascii " 5551234 "))) .phone (ascii " 5551234 ")
    (by decide) (by decide)

open CustomerSample in
/-- A phone number that comes as a number is no error, and the update clears the stored one. -/
theorem numeric_phone_cleared :
    let body := phoneBody (.int 5551234)
    let payload := customerPayload body
    let put := (CustomerService.update env 1 payload.toArray).run env.exec 0 withPhone
    (body (ascii "phone")).text? = some (ascii "5551234") ∧ trim (ascii "5551234") ≠ []
      ∧ payload.toArray.phone = none ∧ validate env payload = []
      ∧ withPhone.customer.rows.map (·.phone) = [some (ascii "5550000")]
      ∧ put.1.isOk = true ∧ put.2.customer.rows.map (·.phone) = [none] := by
  decide +kernel

end SlimStarter
