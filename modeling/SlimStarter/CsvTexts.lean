import SlimStarter.CsvRoundTrip

/-!
# The text of a record

A record of a CSV file takes one line, or several where a field has line feeds inside quotes.
`recordLines` are the lines that each record takes, so that `withoutRecord` is the file without the
text of one of its records. Parsing a file without a record gives the other records
(`records_withoutRecord`): past the end of a record the parser remembers nothing of it. A file has
as many records as lines where each record but the last takes one line (`length_recordsFrom_iff`).
-/

namespace SlimStarter

namespace Csv

/-- Read a line: the record that ends with it, or the one in progress after it. -/
def readLine : Option Scan → Bytes → Record ⊕ Scan
  | none, s =>
    if withoutLineEnd s = [] then .inl [none]
    else
      match Scan.empty.line s with
      | .inr fields => .inl (fields.map some)
      | .inl c => if lineEnd s = [] then .inl [none] else .inr c
  | some c, s =>
    match c.line s with
    | .inr fields => .inl (fields.map some)
    | .inl c => .inr c

/-- Put a line before the other lines of the first record. -/
def joinFirst (s : Bytes) : List (List Bytes) → List (List Bytes)
  | [] => [[s]]
  | group :: groups => (s :: group) :: groups

/-- The lines that each record takes; the first of them may go on in a record in progress. -/
def recordLines : Option Scan → List Bytes → List (List Bytes)
  | none, [] => []
  | some _, [] => [[]]
  | o, s :: rest =>
    match readLine o s with
    | .inl _ => [s] :: recordLines none rest
    | .inr c => joinFirst s (recordLines (some c) rest)

/-- The text of each record of a file. -/
def recordTexts (contents : Bytes) : List Bytes :=
  (recordLines none (lines contents)).map List.flatten

/-- The file without the text of its record `j`. -/
def withoutRecord (contents : Bytes) (j : ℕ) : Bytes := ((recordTexts contents).eraseIdx j).flatten

variable {contents s : Bytes} {ls rest : List Bytes} {c : Scan} {j : ℕ}

/-- A line with its line feed. -/
def Terminated (s : Bytes) : Prop := ∃ u, 10 ∉ u ∧ s = u ++ [10]

/-- Lines of a file, of which the last alone may lack its line feed. -/
structure AreLines (ls : List Bytes) : Prop where
  terminated : ls.Pairwise fun s _ => Terminated s
  last : ∀ s ∈ ls, Terminated s ∨ (s ≠ [] ∧ 10 ∉ s)

theorem AreLines.sublist {ls' : List Bytes} (h : AreLines ls) (hsub : ls'.Sublist ls) :
    AreLines ls' :=
  ⟨h.terminated.sublist hsub, fun s hs => h.last s (hsub.subset hs)⟩

theorem lines_of_notMem (hne : s ≠ []) (h : 10 ∉ s) : lines s = [s] := by
  induction s with
  | nil => exact absurd rfl hne
  | cons b s ih =>
    simp only [List.mem_cons, not_or] at h
    unfold lines
    rw [if_neg (Ne.symm h.1)]
    rcases s with _ | ⟨b', s⟩
    · rfl
    · rw [ih (by simp) h.2]

/-- Lines written one after the other are the lines of the text. -/
theorem AreLines.lines_flatten (h : AreLines ls) : lines ls.flatten = ls := by
  induction ls with
  | nil => rfl
  | cons s ls ih =>
    have hrest := ih (h.sublist (List.sublist_cons_self s ls))
    have hterminated : Terminated s → lines (s :: ls).flatten = s :: ls := by
      rintro ⟨u, hu, rfl⟩
      rw [List.flatten_cons, List.append_assoc, List.singleton_append, lines_append hu, hrest]
    rcases h.last s List.mem_cons_self with hs | ⟨hne, hs⟩
    · exact hterminated hs
    · rcases ls with _ | ⟨s', ls⟩
      · rw [List.flatten_cons, List.flatten_nil, List.append_nil, lines_of_notMem hne hs]
      · exact hterminated ((List.pairwise_cons.mp h.terminated).1 s' List.mem_cons_self)

theorem flatten_lines (contents : Bytes) : (lines contents).flatten = contents := by
  induction contents with
  | nil => rfl
  | cons b s ih =>
    unfold lines
    split_ifs with hb
    · rw [List.flatten_cons, ih, hb]
      rfl
    · cases hlines : lines s with
      | nil =>
        rw [hlines] at ih
        rw [← ih]
        rfl
      | cons line rest =>
        rw [hlines] at ih
        rw [← ih]
        rfl

theorem areLines_lines (contents : Bytes) : AreLines (lines contents) := by
  induction contents with
  | nil => exact ⟨.nil, by simp [lines]⟩
  | cons b s ih =>
    unfold lines
    split_ifs with hb
    · subst hb
      have hline : Terminated [10] := ⟨[], by simp, rfl⟩
      exact ⟨List.pairwise_cons.mpr ⟨fun _ _ => hline, ih.terminated⟩,
        List.forall_mem_cons.mpr ⟨.inl hline, ih.last⟩⟩
    · cases hlines : lines s with
      | nil =>
        refine ⟨List.pairwise_singleton _ _, List.forall_mem_singleton.mpr (.inr ⟨by simp, ?_⟩)⟩
        simpa using Ne.symm hb
      | cons line rest =>
        rw [hlines] at ih
        have hcons : Terminated line → Terminated (b :: line) := by
          rintro ⟨u, hu, rfl⟩
          exact ⟨b :: u, by simp [hu, Ne.symm hb], rfl⟩
        obtain ⟨hfirst, hrest⟩ := List.pairwise_cons.mp ih.terminated
        obtain ⟨hline, hlast⟩ := List.forall_mem_cons.mp ih.last
        refine ⟨List.pairwise_cons.mpr ⟨fun s' hs' => hcons (hfirst s' hs'), hrest⟩,
          List.forall_mem_cons.mpr ⟨hline.imp hcons ?_, hlast⟩⟩
        rintro ⟨-, hline⟩
        exact ⟨by simp, by simp [hline, Ne.symm hb]⟩

/-! ## Records -/

theorem recordsFrom_cons (o : Option Scan) (s : Bytes) (rest : List Bytes) :
    recordsFrom o (s :: rest) =
      match readLine o s with
      | .inl record => record :: recordsFrom none rest
      | .inr c => recordsFrom (some c) rest := by
  cases o with
  | none =>
    by_cases hblank : withoutLineEnd s = []
    · simp only [recordsFrom, readLine, hblank, if_true]
    · simp only [recordsFrom, readLine, hblank, if_false]
      cases Scan.empty.line s with
      | inr fields => rfl
      | inl c => by_cases hend : lineEnd s = [] <;> simp only [hend, if_true, if_false]
  | some c =>
    simp only [recordsFrom, readLine]
    cases c.line s <;> rfl

theorem recordLines_cons (o : Option Scan) (s : Bytes) (rest : List Bytes) :
    recordLines o (s :: rest) =
      match readLine o s with
      | .inl _ => [s] :: recordLines none rest
      | .inr c => joinFirst s (recordLines (some c) rest) := by
  cases o <;> rfl

theorem joinFirst_ne_nil {groups : List (List Bytes)} : joinFirst s groups ≠ [] := by
  cases groups <;> simp [joinFirst]

theorem joinFirst_eq (s : Bytes) {groups : List (List Bytes)} (h : groups ≠ []) :
    joinFirst s groups = (s :: groups.head h) :: groups.tail := by
  cases groups with
  | nil => exact absurd rfl h
  | cons group groups => rfl

theorem recordLines_some_ne_nil : recordLines (some c) ls ≠ [] := by
  cases ls with
  | nil => simp [recordLines]
  | cons s rest =>
    rw [recordLines_cons]
    cases readLine (some c) s with
    | inl record => simp
    | inr c => exact joinFirst_ne_nil

theorem flatten_joinFirst (s : Bytes) (groups : List (List Bytes)) :
    (joinFirst s groups).flatten = s :: groups.flatten := by
  cases groups <;> rfl

theorem flatten_recordLines (o : Option Scan) : (recordLines o ls).flatten = ls := by
  induction ls generalizing o with
  | nil => cases o <;> rfl
  | cons s rest ih =>
    rw [recordLines_cons]
    cases readLine o s with
    | inl record => rw [List.flatten_cons, ih, List.singleton_append]
    | inr c => rw [flatten_joinFirst, ih]

/-- The lines past a record in progress hold the records past it. -/
theorem recordsFrom_tail :
    recordsFrom none (recordLines (some c) ls).tail.flatten = (recordsFrom (some c) ls).tail := by
  induction ls generalizing c with
  | nil => rfl
  | cons s rest ih =>
    rw [recordLines_cons, recordsFrom_cons]
    cases readLine (some c) s with
    | inl record => rw [List.tail_cons, flatten_recordLines, List.tail_cons]
    | inr c' =>
      simp only
      rw [joinFirst_eq s recordLines_some_ne_nil, List.tail_cons, ih]

/-- Without the lines of a record that is not in progress, the parser reads the other records. -/
theorem recordsFrom_eraseIdx (o : Option Scan) (h : o = none ∨ 0 < j) :
    recordsFrom o ((recordLines o ls).eraseIdx j).flatten = (recordsFrom o ls).eraseIdx j := by
  induction ls generalizing o j with
  | nil =>
    cases o with
    | none => rfl
    | some c =>
      obtain ⟨j, rfl⟩ := Nat.exists_eq_succ_of_ne_zero (h.resolve_left (by simp)).ne'
      rfl
  | cons s rest ih =>
    rw [recordLines_cons, recordsFrom_cons]
    cases hread : readLine o s with
    | inl record =>
      cases j with
      | zero =>
        obtain rfl : o = none := h.resolve_right (lt_irrefl 0)
        simp only [List.eraseIdx_cons_zero, flatten_recordLines]
      | succ j =>
        simp only [List.eraseIdx_cons_succ, List.flatten_cons, List.singleton_append]
        rw [recordsFrom_cons, hread]
        simp only
        rw [ih none (.inl rfl)]
    | inr c =>
      simp only
      cases j with
      | zero =>
        obtain rfl : o = none := h.resolve_right (lt_irrefl 0)
        rw [joinFirst_eq s recordLines_some_ne_nil, List.eraseIdx_cons_zero, recordsFrom_tail,
          List.eraseIdx_zero]
      | succ j =>
        have hrest := ih (some c) (.inr j.succ_pos)
        rw [← List.cons_head_tail (@recordLines_some_ne_nil rest c),
          List.eraseIdx_cons_succ, List.flatten_cons] at hrest
        rw [joinFirst_eq s recordLines_some_ne_nil, List.eraseIdx_cons_succ, List.flatten_cons,
          List.cons_append, recordsFrom_cons, hread, ← hrest]

/-- The records of a file without one of its records are the other records. -/
theorem records_withoutRecord (contents : Bytes) (j : ℕ) :
    records (withoutRecord contents j) = (records contents).eraseIdx j := by
  have hgroups : withoutRecord contents j =
      ((recordLines none (lines contents)).eraseIdx j).flatten.flatten := by
    rw [withoutRecord, recordTexts, List.eraseIdx_map, List.flatten_flatten]
  have hsub :
      ((recordLines none (lines contents)).eraseIdx j).flatten.Sublist (lines contents) := by
    have hflatten := (List.eraseIdx_sublist (recordLines none (lines contents)) j).flatten
    rwa [flatten_recordLines] at hflatten
  rw [hgroups, records, ((areLines_lines contents).sublist hsub).lines_flatten,
    recordsFrom_eraseIdx none (.inl rfl)]
  rfl

/-! ## Records of one line -/

/-- A record that starts with this line ends with it: no field goes on past it inside quotes. -/
def OneLine (s : Bytes) : Prop := (readLine none s).isLeft = true

instance (s : Bytes) : Decidable (OneLine s) := inferInstanceAs (Decidable (_ = _))

/-- A record in progress takes a line, unless the file has ended. -/
theorem length_recordsFrom_le (o : Option Scan) (ls : List Bytes) :
    (recordsFrom o ls).length ≤ max 1 ls.length := by
  induction ls generalizing o with
  | nil => cases o <;> simp [recordsFrom]
  | cons s rest ih =>
    rw [recordsFrom_cons]
    cases readLine o s with
    | inl record =>
      cases rest with
      | nil => simp [recordsFrom]
      | cons s' rest =>
        have hrest := ih none
        simp only [List.length_cons] at hrest ⊢
        omega
    | inr c =>
      have hrest := ih (some c)
      simp only [List.length_cons]
      omega

/-- There are as many records as lines exactly if each record but the last takes one line. -/
theorem length_recordsFrom_iff (ls : List Bytes) :
    (recordsFrom none ls).length = ls.length ↔ ∀ s ∈ ls.dropLast, OneLine s := by
  induction ls with
  | nil => simp [recordsFrom]
  | cons s rest ih =>
    rw [recordsFrom_cons]
    cases rest with
    | nil => cases readLine none s <;> simp [recordsFrom]
    | cons s' rest =>
      rw [List.dropLast_cons_cons, List.forall_mem_cons, ← ih]
      cases hread : readLine none s with
      | inl record => simp [OneLine, hread]
      | inr c =>
        have hle := length_recordsFrom_le (some c) (s' :: rest)
        simp only [OneLine, hread, Sum.isLeft_inr, Bool.false_eq_true, false_and, iff_false]
        simp only [List.length_cons] at hle ⊢
        omega

end Csv

end SlimStarter
