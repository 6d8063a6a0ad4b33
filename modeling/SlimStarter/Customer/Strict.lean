import SlimStarter.Customer.Model

/-!
# What a database takes

`TextRules` is what a database demands of the texts of a row: MySQL in strict mode refuses a text
that its character set does not have or that is too long for its column, SQLite takes anything.
`CustomerEnv.exec` executes the statements of the customer code on a database that takes every text,
and `CustomerEnv.execOn` on one with such demands: there a statement that writes a row it does not
take fails and writes nothing.
-/

namespace SlimStarter

/-- What a database demands of a text: `encoded` says whether its character set has it, `enforced`
whether the length of the column is. -/
structure TextRules where
  encoded : Bytes → Bool
  enforced : Bool

namespace TextRules

/-- SQLite checks nothing. -/
def sqlite : TextRules := ⟨fun _ => true, false⟩

/-- The columns of a limited number of characters, as the migrations declare them. -/
def stringColumns (d : CustomerData) : List (Option Bytes × ℕ) :=
  [(some d.name, 255), (d.email, 190), (d.phone, 40), (d.company, 150), (some d.status, 20)]

/-- The columns of type `text`, which hold 65535 bytes. -/
def textColumns (d : CustomerData) : List (Option Bytes) := [d.address, d.notes]

/-- The texts of a row. -/
def texts (d : CustomerData) : List Bytes :=
  d.name :: d.status :: [d.email, d.phone, d.company, d.address, d.notes].filterMap id

variable (D : TextRules)

/-- The character set has every text of the row. -/
def encodes (d : CustomerData) : Bool := (texts d).all D.encoded

/-- The content of the row does not make its insert fail. -/
def accepts (d : CustomerData) : Bool :=
  D.encodes d && (!D.enforced
    || ((stringColumns d).all fun (value, max) => value.all (mbStrlen · ≤ max))
      && (textColumns d).all fun value => value.all (·.length ≤ 65535))

/-- The database takes the texts of the row. -/
def Fits (d : CustomerData) : Prop := D.accepts d = true

@[simp] theorem accepts_sqlite (d : CustomerData) : sqlite.accepts d = true := by
  simp [accepts, encodes, sqlite]

end TextRules

/-- The data that a statement writes into rows. The path of an avatar is the code's own and fits. -/
def CustomerStmt.written (t : Table CustomerRow) : CustomerStmt → List CustomerData
  | create data => [data]
  | createMany rows => rows.map (·.toCustomerData)
  | update id (.data d) => if 0 < t.affected (·.id = id) then [d] else []
  | _ => []

/-- Execute one statement on a database with these demands. -/
def CustomerEnv.execOn (E : CustomerEnv) (D : TextRules) :
    Prog.Handler CustomerStmt CustomerStmt.Res Int Failure CustomerDb :=
  fun op i db =>
    if (op.written db.customer).all D.accepts then E.exec op i db else (.error .database, db)

section ExecOn

variable {E : CustomerEnv} {D : TextRules} {op : CustomerStmt} {i : Int} {db : CustomerDb}

theorem execOn_of_accepts (h : (op.written db.customer).all D.accepts = true) :
    E.execOn D op i db = E.exec op i db := by
  rw [CustomerEnv.execOn, if_pos h]

theorem execOn_of_not_accepts (h : (op.written db.customer).all D.accepts = false) :
    E.execOn D op i db = (.error .database, db) := by
  rw [CustomerEnv.execOn, if_neg (by simp [h])]

/-- A statement that writes no data is executed by every database alike. -/
theorem execOn_of_unwritten (h : op.written db.customer = []) :
    E.execOn D op i db = E.exec op i db :=
  execOn_of_accepts (by rw [h]; rfl)

open CustomerModel

@[simp] theorem execOn_findById {id : ℕ} :
    E.execOn D (.findById id) i db = (.ok (findById db.customer id), db) := rfl

@[simp] theorem execOn_exists {id : ℕ} :
    E.execOn D (.exists id) i db = (.ok («exists» db.customer id), db) := rfl

@[simp] theorem execOn_existsByName {name : Bytes} {exceptId : Option ℕ} :
    E.execOn D (.existsByName name exceptId) i db =
      (.ok (existsByName E db.customer name exceptId), db) := rfl

@[simp] theorem execOn_existsByEmail {email : Bytes} {exceptId : Option ℕ} :
    E.execOn D (.existsByEmail email exceptId) i db =
      (.ok (existsByEmail E db.customer email exceptId), db) := rfl

/-- A database that takes every text has no demands. -/
theorem execOn_sqlite : E.execOn .sqlite = E.exec := by
  funext op i db
  exact execOn_of_accepts (by simp)

end ExecOn

end SlimStarter
