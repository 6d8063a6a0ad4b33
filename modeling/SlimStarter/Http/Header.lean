import SlimStarter.Customer.Feed
import SlimStarter.Http.App

/-!
# The header of an import

`assertImportHeader` looks at the header when the file is uploaded, and `headerMap` when the job
runs. The map has each column of the header under its normalised name, at the index where the name
stands first (`lookup_headerMap`), so that the check lets a file pass exactly if the map has a name
column (`header_check_agrees`).
-/

namespace SlimStarter

open CustomerTransferService

namespace CustomerImportJob

variable {name column : Bytes} {map : List (Bytes × ℕ)}

theorem headerMap_eq (r : Csv.Record) : headerMap r =
    (r.map normalizeColumnName).zipIdx.foldl (fun map (name, index) =>
      if name ≠ [] ∧ (map.lookup name).isNone then map ++ [(name, index)] else map) [] := by
  rw [List.zipIdx_map, List.foldl_map]
  rfl

theorem lookup_add (index : ℕ) :
    (if column ≠ [] ∧ (map.lookup column).isNone then map ++ [(column, index)] else map).lookup name
      = (map.lookup name).or (if name ≠ [] ∧ column = name then some index else none) := by
  by_cases hadd : column ≠ [] ∧ (map.lookup column).isNone
  · rw [if_pos hadd, List.lookup_append]
    by_cases hname : column = name
    · simp [← hname, hadd.1]
    · have hother : (name == column) = false := by simpa using Ne.symm hname
      simp [hname, hother, List.lookup_cons]
  · rw [if_neg hadd]
    by_cases hname : column = name
    · subst hname
      cases hlookup : map.lookup column with
      | some index' => rfl
      | none =>
        have hblank : column = [] := by simpa [hlookup] using hadd
        simp [hblank]
    · simp [hname]

/-- The columns of these names, of which the first has the index `start`, in the map. -/
theorem lookup_foldl (names : List Bytes) (start : ℕ) :
    ((names.zipIdx start).foldl (fun map (name, index) =>
      if name ≠ [] ∧ (map.lookup name).isNone then map ++ [(name, index)] else map) map).lookup name
      = (map.lookup name).or
          (if name = [] then none else (names.idxOf? name).map (· + start)) := by
  induction names generalizing start map with
  | nil => simp
  | cons column names ih =>
    rw [List.zipIdx_cons, List.foldl_cons, ih, lookup_add, Option.or_assoc]
    congr 1
    by_cases hname : name = []
    · simp [hname]
    · by_cases hcolumn : column = name
      · simp [hname, hcolumn, List.idxOf?_cons]
      · simp [hname, hcolumn, List.idxOf?_cons, Function.comp_def, Nat.add_assoc, Nat.add_comm 1]

/-- The map has each name that is not empty, at the index where the header has it first. -/
theorem lookup_headerMap (name : Bytes) (r : Csv.Record) :
    (headerMap r).lookup name =
      if name = [] then none else (r.map normalizeColumnName).idxOf? name := by
  rw [headerMap_eq, lookup_foldl]
  simp

/-- The columns of a header are those that it names. -/
theorem isSome_lookup_headerMap {name : Bytes} (hne : name ≠ []) (r : Csv.Record) :
    ((headerMap r).lookup name).isSome = true ↔ name ∈ r.map normalizeColumnName := by
  rw [lookup_headerMap, if_neg hne, List.isSome_idxOf?]

theorem run_handle_ne_missing_name {E : CustomerEnv} {i : Int} {db : CustomerDb}
    {file contents : Bytes} {progress : Bool}
    (hfile : db.files (customerImportFile E (basename file)) = some contents)
    (hname : HasName contents) :
    ((handle E file progress).run E.exec i db).1 ≠
      .error (.runtime "Import CSV is missing a name column.") := by
  by_cases hne : basename file = []
  · have hmissing : (isMissing E (basename file)).run E.exec i db = (.ok true, db) := by
      simp [run_isMissing, hne]
    unfold handle
    rw [Prog.run_bind, hmissing]
    simp
  · rw [run_handle hne hfile hname]
    simp

end CustomerImportJob

/-! ## The check and the map -/

variable {header : Csv.Record}

/-- The file passes the check if its first record names the column. -/
theorem isOk_assertImportHeader {E : AppEnv} {i : Int} {db : AppDb} {path contents : Bytes}
    (hfile : db.customer.files path = some contents)
    (hheader : (Csv.records contents).head? = some header) :
    ((assertImportHeader path).run E.exec i db).1.isOk = true ↔
      ascii "name" ∈ normalizeHeader header := by
  have hread : E.exec (.customer (.readFile path)) i db = (.ok (some contents), db) := by
    rw [← hfile]
    rfl
  unfold assertImportHeader
  rw [Prog.stmt_bind, Prog.run_call, hread]
  by_cases hname : ascii "name" ∈ normalizeHeader header
  · simp [hheader, hname, Except.isOk, Except.toBool]
  · simp [hheader, hname, Except.isOk, Except.toBool]

open CustomerImportJob in
/-- The check of the upload accepts a header exactly if the map of the job has the name column, and
the map has each column that is named, where it is named first, and no other. So an import that was
queued does not fail for its header. -/
theorem header_check_agrees (header : Csv.Record) :
    (∀ name, (headerMap header).lookup name =
        if name = [] then none else (normalizeHeader header).idxOf? name)
      ∧ (ascii "name" ∈ normalizeHeader header ↔
        ((headerMap header).lookup (ascii "name")).isSome = true)
      ∧ ∀ (E : AppEnv) (i : Int) (db : AppDb) (file contents : Bytes),
        let path := customerImportFile E.customer (basename file)
        db.customer.files path = some contents → (Csv.records contents).head? = some header →
        (((assertImportHeader path).run E.exec i db).1.isOk = true ↔
          ((headerMap header).lookup (ascii "name")).isSome = true)
        ∧ (((assertImportHeader path).run E.exec i db).1.isOk = true →
          ∀ (j : Int) (db' : CustomerDb) (progress : Bool), db'.files path = some contents →
            ((handle E.customer file progress).run E.customer.exec j db').1 ≠
              .error (.runtime "Import CSV is missing a name column.")) := by
  have hnames : ascii "name" ∈ normalizeHeader header ↔
      ((headerMap header).lookup (ascii "name")).isSome = true :=
    (isSome_lookup_headerMap (by decide) header).symm
  refine ⟨fun name => lookup_headerMap name header, hnames, ?_⟩
  intro E i db file contents path hfile hheader
  have hcheck := (isOk_assertImportHeader (E := E) (i := i) hfile hheader).trans hnames
  refine ⟨hcheck, fun hok j db' progress hfile' => ?_⟩
  refine run_handle_ne_missing_name hfile' ?_
  unfold HasName fileHeader
  rw [hheader]
  exact hcheck.mp hok

end SlimStarter
