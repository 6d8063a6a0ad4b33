import SlimStarter.Customer.Chunks

/-!
# Importing a file again

A second import of a file accepts nothing exactly where the table already knows every valid record
(`accepted_eq_nil_iff`). After a first import it knows the accepted records, the records it knew
before, and those whose email is in the file already; a record refused because of its name may stay
unknown, since the file compares names by `mb_strtolower` and the database by its own equality
(`reimport_changes_nothing_iff`).
-/

namespace SlimStarter

namespace CustomerImportJob

variable {E : CustomerEnv} {now : LocalTime} {chunk : ℕ} {header : List (Bytes × ℕ)}
variable {x : Loop} {line : Csv.Record} {lines : List Csv.Record} {t : Table CustomerRow}

/-- The record has the fields of a customer. -/
def Valid (E : CustomerEnv) (header : List (Bytes × ℕ)) (line : Csv.Record) : Prop :=
  isEmptyRow line = false ∧ rowError E (parseRow line header) = none

instance : Decidable (Valid E header line) := by
  unfold Valid
  infer_instance

/-- The records that the import refuses with `Duplicate customer in file.`. -/
def nameDuplicates (E : CustomerEnv) (now : LocalTime) (chunk : ℕ) (header : List (Bytes × ℕ))
    (x : Loop) : List Csv.Record → List CustomerData
  | [] => []
  | line :: lines =>
    (if Valid E header line ∧ E.mbStrtolower (parseRow line header).name ∈ x.st.seenNames then
      [parseRow line header] else [])
      ++ nameDuplicates E now chunk header (feed E now chunk header x line) lines

/-- A valid record has a name or an email that the file had, or one that the table knows, or it is
accepted. -/
theorem Valid.cases (h : Valid E header line) :
    E.mbStrtolower (parseRow line header).name ∈ x.st.seenNames
    ∨ (∃ email ∈ (parseRow line header).email, email ∈ x.st.seenEmails)
    ∨ known E x.table (parseRow line header) = true
    ∨ verdict E header x line = .accepted (parseRow line header) := by
  obtain ⟨hempty, herror⟩ := h
  by_cases hname : E.mbStrtolower (parseRow line header).name ∈ x.st.seenNames
  · exact .inl hname
  · by_cases hemail : (parseRow line header).email.any (· ∈ x.st.seenEmails) = true
    · exact .inr (.inl (by simpa [Option.any_eq_true] using hemail))
    · refine .inr (.inr ?_)
      by_cases hknown : known E x.table (parseRow line header) = true
      · exact .inl hknown
      · refine .inr ?_
        simp [verdict, hempty, validateRow, herror, hname, hemail, hknown]

theorem valid_of_accepted {parsed : CustomerData} (h : verdict E header x line = .accepted parsed) :
    Valid E header line := by
  obtain ⟨hempty, rfl, hvalid, -⟩ := of_accepted h
  refine ⟨hempty, ?_⟩
  unfold validateRow at hvalid
  cases herror : rowError E (parseRow line header) with
  | none => rfl
  | some error => simp [herror] at hvalid

/-- Where nothing of the file has been seen, nothing is accepted exactly where the table knows every
valid record. -/
theorem accepted_eq_nil_iff (hnames : x.st.seenNames = []) (hemails : x.st.seenEmails = []) :
    accepted E now chunk header x lines = [] ↔
      ∀ line ∈ lines, Valid E header line → known E x.table (parseRow line header) = true := by
  induction lines generalizing x with
  | nil => simp [accepted]
  | cons line lines ih =>
    rw [List.forall_mem_cons]
    by_cases hacc : ∃ parsed, verdict E header x line = .accepted parsed
    · obtain ⟨parsed, hv⟩ := hacc
      obtain ⟨-, rfl, -, hknown⟩ := of_accepted hv
      constructor
      · intro h
        simp [accepted, hv, Verdict.batched] at h
      · intro h
        rw [h.1 (valid_of_accepted hv)] at hknown
        cases hknown
    · have hnot : ∀ parsed, verdict E header x line ≠ .accepted parsed :=
        fun parsed hv => hacc ⟨parsed, hv⟩
      obtain ⟨htable, -, hn, he⟩ := feed_of_not_accepted now chunk hnot
      have hhead : Valid E header line → known E x.table (parseRow line header) = true := by
        intro hvalid
        rcases hvalid.cases (x := x) with h | ⟨email, -, h⟩ | h | h
        · simp [hnames] at h
        · simp [hemails] at h
        · exact h
        · exact absurd h (hnot _)
      have hnil : (verdict E header x line).batched = [] := by
        cases hv : verdict E header x line with
        | accepted parsed => exact absurd hv (hnot parsed)
        | _ => rfl
      simp only [accepted, hnil, List.nil_append]
      rw [ih (hn.trans hnames) (he.trans hemails), htable]
      exact ⟨fun h => ⟨hhead, h⟩, fun h => h.2⟩

/-! ## After a first import -/

theorem known_of_valid {T : Table CustomerRow}
    (hT : T = insertAll now x.table (x.st.batch ++ accepted E now chunk header x lines))
    (hseen : ∀ email ∈ x.st.seenEmails, ∀ d : CustomerData, d.email = some email →
      known E T d = true)
    (hdup : ∀ d ∈ nameDuplicates E now chunk header x lines, known E T d = true) :
    ∀ line ∈ lines, Valid E header line → known E T (parseRow line header) = true := by
  induction lines generalizing x with
  | nil => simp
  | cons line lines ih =>
    have hgiven : ∀ d ∈ x.st.batch ++ accepted E now chunk header x (line :: lines),
        ∀ d', ¬ d.Apart E d' → known E T d' = true := by
      intro d hd d' hnot
      rw [hT]
      exact known_insertAll.mpr (.inr ⟨d, hd, hnot⟩)
    have haccepted : verdict E header x line = .accepted (parseRow line header) →
        parseRow line header ∈ x.st.batch ++ accepted E now chunk header x (line :: lines) := by
      intro hv
      exact List.mem_append_right _ (List.mem_append_left _ (by simp [hv, Verdict.batched]))
    rw [List.forall_mem_cons]
    constructor
    · intro hvalid
      rcases hvalid.cases (x := x) with hname | ⟨email, hmem, hemail⟩ | hknown | hv
      · exact hdup _ (List.mem_append_left _ (by simp [hvalid, hname]))
      · exact hseen email hemail _ hmem
      · rw [hT]
        exact known_insertAll_of_known hknown
      · exact hgiven _ (haccepted hv) _ (not_apart_self _)
    · refine ih (x := feed E now chunk header x line) ?_ ?_
        fun d hd => hdup d (List.mem_append_right _ hd)
      · rw [hT, insertAll_accepted_cons]
      · intro email hemail d hd
        by_cases hacc : ∃ parsed, verdict E header x line = .accepted parsed
        · obtain ⟨parsed, hv⟩ := hacc
          obtain ⟨-, rfl, -, -⟩ := of_accepted hv
          have hmem : email ∈ (parseRow line header).email.toList ++ x.st.seenEmails := by
            rw [feed_of_accepted hv] at hemail
            simp only [flushed] at hemail
            split_ifs at hemail <;> exact hemail
          rcases List.mem_append.mp hmem with hmem | hmem
          · refine hgiven _ (haccepted hv) d fun hapart => ?_
            have hdiff := hapart.2 email (by simpa using hmem) email hd
            simp [CustomerModel.sqlEq] at hdiff
          · exact hseen email hmem d hd
        · have hnot : ∀ parsed, verdict E header x line ≠ .accepted parsed :=
            fun parsed hv => hacc ⟨parsed, hv⟩
          rw [(feed_of_not_accepted now chunk hnot).2.2.2] at hemail
          exact hseen email hemail d hd

theorem exists_of_nameDuplicates {d : CustomerData}
    (h : d ∈ nameDuplicates E now chunk header x lines) :
    ∃ line ∈ lines, Valid E header line ∧ d = parseRow line header := by
  induction lines generalizing x with
  | nil => simp [nameDuplicates] at h
  | cons line lines ih =>
    rcases List.mem_append.mp h with h | h
    · split_ifs at h with hvalid
      · exact ⟨line, List.mem_cons_self, hvalid.1, List.mem_singleton.mp h⟩
      · simp at h
    · obtain ⟨line', hline', hrest⟩ := ih h
      exact ⟨line', List.mem_cons_of_mem _ hline', hrest⟩

/-- After a first import a second one accepts nothing exactly where the records refused because of a
name are known all the same. -/
theorem accepted_again_iff (now' : LocalTime) :
    accepted E now' chunk header ⟨(imported E now chunk header t lines).table, ImportState.initial⟩
        lines = [] ↔
      ∀ d ∈ nameDuplicates E now chunk header ⟨t, ImportState.initial⟩ lines, known E t d = true
        ∨ ∃ e ∈ accepted E now chunk header ⟨t, ImportState.initial⟩ lines, ¬ e.Apart E d := by
  have hT := @imported_table E now chunk header lines t
  simp only [← @known_insertAll E now, ← hT]
  rw [accepted_eq_nil_iff rfl rfl]
  constructor
  · intro h d hd
    obtain ⟨line, hline, hvalid, rfl⟩ := exists_of_nameDuplicates hd
    exact h line hline hvalid
  · intro h
    exact known_of_valid (x := ⟨t, ImportState.initial⟩) hT (by simp [ImportState.initial]) h

variable {db : CustomerDb} {i i' : Int} {progress : Bool} {file contents : Bytes}

/-- A second import of a file changes nothing, exactly where every record that the first one refused
because of a name in the file is one that the database takes for a customer of the table or for an
accepted record. -/
theorem reimport_changes_nothing_iff (hne : basename file ≠ [])
    (hfile : db.files (customerImportFile E (basename file)) = some contents)
    (hname : HasName contents) :
    let first := ((handle E file progress).run E.exec i db).2
    let again := (handle E file progress).run E.exec i'
      (first.withFile (customerImportFile E (basename file)) (some contents))
    (again.2.customer = first.customer ∧ ∃ r, again.1 = .ok r ∧ r.imported = 0) ↔
      ∀ d ∈ nameDuplicates E (E.zone.date i) chunkSize (fileHeader contents)
          ⟨db.customer, ImportState.initial⟩ (dataRecords contents),
        known E db.customer d = true
          ∨ ∃ e ∈ accepted E (E.zone.date i) chunkSize (fileHeader contents)
              ⟨db.customer, ImportState.initial⟩ (dataRecords contents), ¬ e.Apart E d := by
  intro first again
  have hfirst : first.customer = (imported E (E.zone.date i) chunkSize (fileHeader contents)
      db.customer (dataRecords contents)).table := by
    simp only [first, run_handle hne hfile hname]
    rfl
  have hagain : again = _ := run_handle hne (by simp [CustomerDb.withFile]) hname
  rw [← accepted_again_iff (E.zone.date i'), ← hfirst]
  have htable : again.2.customer = insertAll (E.zone.date i') first.customer
      (accepted E (E.zone.date i') chunkSize (fileHeader contents)
        ⟨first.customer, ImportState.initial⟩ (dataRecords contents)) := by
    rw [hagain, ← imported_table]
    rfl
  constructor
  · rintro ⟨hsame, -⟩
    rw [htable] at hsame
    exact insertAll_injective (hsame.trans insertAll_nil.symm)
  · intro hnil
    rw [htable, hnil]
    refine ⟨rfl, _, congrArg Prod.fst hagain, ?_⟩
    have hcount := @imported_count E (E.zone.date i') chunkSize (fileHeader contents)
      (dataRecords contents) first.customer
    rw [hnil] at hcount
    exact hcount

end CustomerImportJob

/-! ## Sample files -/

open CustomerImportJob CustomerSample

theorem reimport_changes_nothing_sample :
    let first := ((handle env importFile false).run env.exec 1000
      (withImport (twoNames (ascii "Ada") (ascii "Bob")))).2
    let again := (handle env importFile false).run env.exec 2000
      (first.withFile importFile (some (twoNames (ascii "Ada") (ascii "Bob"))))
    again.2.customer = first.customer ∧ ∃ r, again.1 = .ok r ∧ r.imported = 0 :=
  (@reimport_changes_nothing_iff env (withImport (twoNames (ascii "Ada") (ascii "Bob"))) 1000 2000
    false importFile (twoNames (ascii "Ada") (ascii "Bob")) (by decide +kernel) (by decide +kernel)
    (by decide +kernel)).mpr (by decide +kernel)

/-- On SQLite a name refused because of another spelling is inserted the second time. -/
theorem reimport_inserts :
    let first := ((handle env importFile false).run env.exec 1000
      (withImport (twoNames (ascii "ABC") (ascii "abc")))).2
    let again := (handle env importFile false).run env.exec 2000
      (first.withFile importFile (some (twoNames (ascii "ABC") (ascii "abc"))))
    again.2.customer ≠ first.customer := by
  decide +kernel

end SlimStarter
