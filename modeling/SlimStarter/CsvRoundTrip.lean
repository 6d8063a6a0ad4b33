import SlimStarter.Csv

/-!
# Writing CSV files and reading them back

`fputcsv($handle, $fields, escape: '')`, and that `fgetcsv` reads back what it writes: whatever the
bytes of the fields, the records of a file of such rows are the rows (`records_fputcsv`), where each
has two fields or more.

A row ends where its last field does: `Holds` says that a scan has read a field to its end, and
`Encloses` that it was inside quotes wherever the text has a line feed, so that the lines of the
row are read on (`recordsFrom_line`).
-/

namespace SlimStarter

namespace Csv

/-- Whether `fputcsv` encloses the field. -/
def isEnclosed (s : Bytes) : Bool :=
  s.any fun b => b = 44 || b = 34 || b = 10 || b = 13 || b = 9 || b = 32

/-- The field with its quotes doubled. -/
def escape (s : Bytes) : Bytes := s.flatMap fun b => if b = 34 then [34, 34] else [b]

/-- A field as `fputcsv` writes it. -/
def putField (s : Bytes) : Bytes := if isEnclosed s then 34 :: escape s ++ [34] else s

/-- The line that `fputcsv` writes, without its line feed. -/
def putFields (fields : List Bytes) : Bytes := implode [44] (fields.map putField)

def fputcsv (fields : List Bytes) : Bytes := putFields fields ++ [10]

theorem lines_append {u : Bytes} (h : 10 ∉ u) (v : Bytes) :
    lines (u ++ 10 :: v) = (u ++ [10]) :: lines v := by
  induction u with
  | nil => simp [lines]
  | cons b u ih =>
    simp only [List.mem_cons, not_or] at h
    simp only [List.cons_append, lines, ih h.2, if_neg (Ne.symm h.1)]

theorem lineEnd_isSuffix (s : Bytes) : lineEnd s <:+ s := by
  unfold lineEnd
  split_ifs with h₁ h₂ h₃
  · exact h₁
  · exact h₂
  · exact h₃
  · exact List.nil_suffix

theorem mem_lineEnd {s : Bytes} {b : UInt8} (h : b ∈ lineEnd s) : b = 10 ∨ b = 13 := by
  unfold lineEnd at h
  split_ifs at h <;> simp at h <;> tauto

theorem withoutLineEnd_append_lineEnd (s : Bytes) : withoutLineEnd s ++ lineEnd s = s :=
  (List.suffix_iff_eq_append.mp (lineEnd_isSuffix s))

theorem withoutLineEnd_ne_nil {b : UInt8} {s : Bytes} (h₁ : b ≠ 10) (h₂ : b ≠ 13) :
    withoutLineEnd (b :: s) ≠ [] := by
  intro hnil
  have hall := withoutLineEnd_append_lineEnd (b :: s)
  rw [hnil, List.nil_append] at hall
  have hmem : b ∈ lineEnd (b :: s) := by
    rw [hall]
    exact List.mem_cons_self
  rcases mem_lineEnd hmem with h | h
  · exact h₁ h
  · exact h₂ h

theorem lineEnd_append_lf (s : Bytes) :
    lineEnd (s ++ [10]) = if [13] <:+ s then [13, 10] else [10] := by
  have hcrlf : [13, 10] <:+ s ++ [10] ↔ [13] <:+ s := by
    rw [List.suffix_concat_iff]
    constructor
    · rintro (h | ⟨t, ht, hs⟩)
      · cases h
      · rwa [List.append_cancel_right (show [13] ++ [10] = t ++ [10] from ht)]
    · exact fun h => .inr ⟨[13], rfl, h⟩
  simp only [lineEnd, hcrlf, if_pos (List.suffix_append s [10])]

theorem lineEnd_eq_nil {s : Bytes} (h : ∀ b ∈ s, b ≠ 10 ∧ b ≠ 13) : lineEnd s = [] := by
  refine List.eq_nil_iff_forall_not_mem.mpr fun b hb => ?_
  have hs := h b ((lineEnd_isSuffix s).subset hb)
  rcases mem_lineEnd hb with hb | hb
  · exact hs.1 hb
  · exact hs.2 hb

theorem withoutLineEnd_eq_self {s : Bytes} (h : ∀ b ∈ s, b ≠ 10 ∧ b ≠ 13) :
    withoutLineEnd s = s := by
  simp [withoutLineEnd, lineEnd_eq_nil h]

namespace Scan

variable {c : Scan} {s t u f : Bytes} {fs r : List Bytes}

/-- The scan after a text. -/
def scan (c : Scan) (s : Bytes) : Scan := s.foldl step c

@[simp] theorem scan_nil : c.scan [] = c := rfl

@[simp] theorem scan_cons (b : UInt8) : c.scan (b :: s) = (c.step b).scan s := rfl

@[simp] theorem scan_append : c.scan (s ++ t) = (c.scan s).scan t := List.foldl_append

/-- The scan is inside quotes wherever the text goes on with a byte of a line end. -/
def Encloses (c : Scan) : Bytes → Prop
  | [] => True
  | b :: s => (b = 10 ∨ b = 13 → ∃ f, c.field = .quoted f) ∧ Encloses (c.step b) s

theorem encloses_append : c.Encloses (s ++ t) ↔ c.Encloses s ∧ (c.scan s).Encloses t := by
  induction s generalizing c with
  | nil => simp [Encloses]
  | cons b s ih => simp only [List.cons_append, Encloses, ih, scan_cons, and_assoc]

theorem encloses_of_forall (h : ∀ b ∈ s, b ≠ 10 ∧ b ≠ 13) : c.Encloses s := by
  induction s generalizing c with
  | nil => trivial
  | cons b s ih =>
    obtain ⟨hb, hs⟩ := List.forall_mem_cons.mp h
    exact ⟨fun hor => hor.elim (fun he => absurd he hb.1) fun he => absurd he hb.2, ih hs⟩

/-- The record that a line end completes here, if it does not go on inside quotes. -/
def Ends (c : Scan) (r : List Bytes) : Prop :=
  match c.field with
  | .start f | .plain f => c.fields ++ [withoutLineEnd f] = r
  | .closing f | .after f => c.fields ++ [f] = r
  | .quoted _ => False

/-- The scan has read the field `s` to its end, after the fields `fs`. -/
def Holds (c : Scan) (fs : List Bytes) (s : Bytes) : Prop :=
  c.fields = fs ∧ (c.field = .closing s
    ∨ (c.field = .start s ∨ c.field = .plain s) ∧ withoutLineEnd s = s)

theorem Holds.ends (h : c.Holds fs s) : c.Ends (fs ++ [s]) := by
  obtain ⟨rfl, hf | ⟨hf | hf, hs⟩⟩ := h
  · simp [Ends, hf]
  · simp [Ends, hf, hs]
  · simp [Ends, hf, hs]

theorem Holds.comma (h : c.Holds fs s) : c.step 44 = ⟨fs ++ [s], .start []⟩ := by
  obtain ⟨rfl, hf | ⟨hf | hf, hs⟩⟩ := h
  · simp [step, hf, next]
  · simp [step, hf, next, hs]
  · simp [step, hf, next, hs]

/-! ## Fields -/

theorem scan_quoted (hc : c.field = .quoted f) (h : ∀ b ∈ s, b ≠ 34) :
    c.scan s = { c with field := .quoted (f ++ s) } := by
  induction s generalizing c f with
  | nil =>
    rw [scan_nil, List.append_nil, ← hc]
  | cons b s ih =>
    obtain ⟨hb, hs⟩ := List.forall_mem_cons.mp h
    have hstep : c.step b = { c with field := .quoted (f ++ [b]) } := by simp [step, hc, hb]
    rw [scan_cons, ih (by rw [hstep]) hs, hstep, List.append_assoc]
    rfl

/-- Inside quotes a field is read as it was before its quotes were doubled. -/
theorem scan_escape (hc : c.field = .quoted f) :
    c.Encloses (escape s) ∧ c.scan (escape s) = { c with field := .quoted (f ++ s) } := by
  induction s generalizing c f with
  | nil =>
    refine ⟨trivial, ?_⟩
    rw [show escape [] = [] from rfl, scan_nil, List.append_nil, ← hc]
  | cons b s ih =>
    have hescape : escape (b :: s) = (if b = 34 then [34, 34] else [b]) ++ escape s := rfl
    rw [hescape, encloses_append, scan_append]
    have hb : c.Encloses (if b = 34 then [34, 34] else [b])
        ∧ c.scan (if b = 34 then [34, 34] else [b]) = { c with field := .quoted (f ++ [b]) } := by
      by_cases h : b = 34
      · subst h
        refine ⟨encloses_of_forall (by simp), ?_⟩
        simp [step, hc]
      · rw [if_neg h]
        exact ⟨⟨fun _ => ⟨f, hc⟩, trivial⟩, by simp [step, hc, h]⟩
    obtain ⟨henc, hscan⟩ := ih (c := { c with field := .quoted (f ++ [b]) }) rfl
    rw [hb.2]
    refine ⟨⟨hb.1, henc⟩, ?_⟩
    rw [hscan, List.append_assoc]
    rfl

/-- Outside quotes a field is read byte by byte. -/
theorem scan_plain (hc : c.field = .start f ∨ c.field = .plain f) (h : ∀ b ∈ s, b ≠ 44 ∧ b ≠ 34) :
    (c.scan s).fields = c.fields
      ∧ ((c.scan s).field = .start (f ++ s) ∨ (c.scan s).field = .plain (f ++ s)) := by
  induction s generalizing c f with
  | nil => simpa using hc
  | cons b s ih =>
    obtain ⟨hb, hs⟩ := List.forall_mem_cons.mp h
    have hstep : (c.step b).fields = c.fields
        ∧ ((c.step b).field = .start (f ++ [b]) ∨ (c.step b).field = .plain (f ++ [b])) := by
      rcases hc with hc | hc
      · by_cases hspace : isSpace b = true
        · simp [step, hc, hb, hspace]
        · simp [step, hc, hb, hspace]
      · simp [step, hc, hb]
    obtain ⟨hfields, hfield⟩ := ih hstep.2 hs
    rw [scan_cons]
    exact ⟨hfields.trans hstep.1, by simpa using hfield⟩

theorem holds_putField (hc : c.field = .start []) :
    c.Encloses (putField s) ∧ (c.scan (putField s)).Holds c.fields s := by
  unfold putField
  by_cases h : isEnclosed s = true
  · rw [if_pos h]
    have hopen : c.step 34 = { c with field := .quoted [] } := by simp [step, hc]
    obtain ⟨henc, hscan⟩ := scan_escape (c := { c with field := .quoted [] }) (s := s) rfl
    rw [List.cons_append, scan_cons, scan_append, hopen, hscan]
    refine ⟨⟨by simp, ?_⟩, rfl, .inl ?_⟩
    · rw [hopen, encloses_append]
      exact ⟨henc, encloses_of_forall (by simp)⟩
    · simp [step]
  · rw [if_neg h]
    have hplain : ∀ b ∈ s, b ≠ 44 ∧ b ≠ 34 ∧ b ≠ 10 ∧ b ≠ 13 := by
      intro b hb
      simp only [isEnclosed, List.any_eq_true, not_exists, not_and, Bool.or_eq_true,
        decide_eq_true_eq, not_or] at h
      exact ⟨(h b hb).1.1.1.1.1, (h b hb).1.1.1.1.2, (h b hb).1.1.1.2, (h b hb).1.1.2⟩
    have hends : ∀ b ∈ s, b ≠ 10 ∧ b ≠ 13 := fun b hb => (hplain b hb).2.2
    obtain ⟨hfields, hfield⟩ := scan_plain (c := c) (f := []) (s := s) (.inl hc)
      fun b hb => ⟨(hplain b hb).1, (hplain b hb).2.1⟩
    exact ⟨encloses_of_forall hends, hfields, .inr ⟨hfield, withoutLineEnd_eq_self hends⟩⟩

theorem putFields_cons {fields : List Bytes} (h : fields ≠ []) :
    putFields (s :: fields) = putField s ++ 44 :: putFields fields := by
  cases fields with
  | nil => exact absurd rfl h
  | cons t fields => simp [putFields, implode, List.intercalate]

/-- The fields of a row are read back from what `fputcsv` writes for it. -/
theorem ends_putFields (fs : List Bytes) {fields : List Bytes} (h : fields ≠ []) :
    (Scan.mk fs (.start [])).Encloses (putFields fields)
      ∧ ((Scan.mk fs (.start [])).scan (putFields fields)).Ends (fs ++ fields) := by
  induction fields generalizing fs with
  | nil => exact absurd rfl h
  | cons s fields ih =>
    obtain ⟨henc, hholds⟩ := holds_putField (c := ⟨fs, .start []⟩) (s := s) rfl
    by_cases hrest : fields = []
    · subst hrest
      have hone : putFields [s] = putField s := by simp [putFields, implode, List.intercalate]
      rw [hone]
      exact ⟨henc, hholds.ends⟩
    · obtain ⟨henc', hends⟩ := ih (fs ++ [s]) hrest
      rw [putFields_cons hrest, encloses_append, scan_append, scan_cons, hholds.comma]
      refine ⟨⟨henc, by simp, ?_⟩, by simpa using hends⟩
      rwa [hholds.comma]

/-- A line that stops inside quotes is read with its line end. -/
theorem line_of_quoted (h : (c.scan (withoutLineEnd s)).field = .quoted f) :
    c.line s = .inl (c.scan s) := by
  have hend : ∀ b ∈ lineEnd s, b ≠ 34 := by
    intro b hb
    rcases mem_lineEnd hb with rfl | rfl <;> decide
  have hscan : c.scan s =
      { c.scan (withoutLineEnd s) with field := .quoted (f ++ lineEnd s) } := by
    rw [← scan_quoted h hend, ← scan_append, withoutLineEnd_append_lineEnd]
  unfold line
  simp only [show (withoutLineEnd s).foldl step c = c.scan (withoutLineEnd s) from rfl, h, hscan]

/-- Before a line end inside quotes the scan is inside quotes without it, too. -/
theorem quoted_withoutLineEnd (h : c.Encloses (u ++ [10])) :
    ∃ f, (c.scan (withoutLineEnd (u ++ [10]))).field = .quoted f := by
  have hsplit := withoutLineEnd_append_lineEnd (u ++ [10])
  rw [lineEnd_append_lf] at hsplit
  rw [← hsplit, encloses_append] at h
  split_ifs at h
  · exact h.2.1 (.inr rfl)
  · exact h.2.1 (.inl rfl)

theorem line_of_ends (henc : c.Encloses u) (h : (c.scan u).Ends r) :
    c.line (u ++ [10]) = .inr r := by
  have hnot : ¬ [13] <:+ u := by
    rintro ⟨v, rfl⟩
    rw [encloses_append] at henc
    obtain ⟨f, hf⟩ := henc.2.1 (.inr rfl)
    rw [scan_append, scan_quoted hf (by simp)] at h
    exact h
  have hwithout : withoutLineEnd (u ++ [10]) = u := by
    have hsplit := withoutLineEnd_append_lineEnd (u ++ [10])
    rw [lineEnd_append_lf, if_neg hnot] at hsplit
    exact List.append_cancel_right hsplit
  unfold line
  simp only [hwithout, show u.foldl step c = c.scan u from rfl]
  unfold Ends at h
  cases hf : (c.scan u).field with
  | quoted f => simp [hf] at h
  | _ => simpa [hf] using h

/-- A record in progress goes on to its end, over as many lines as it takes. -/
theorem recordsFrom_line (henc : c.Encloses t) (h : (c.scan t).Ends r) (rest : Bytes) :
    recordsFrom (some c) (lines (t ++ 10 :: rest)) =
      r.map some :: recordsFrom none (lines rest) := by
  induction hn : t.length using Nat.strong_induction_on generalizing c t with
  | _ n ih =>
    by_cases hmem : (10 : UInt8) ∈ t
    · obtain ⟨u, v, rfl, hu⟩ := List.eq_append_cons_of_mem hmem
      have hline : u ++ 10 :: v = (u ++ [10]) ++ v := by simp
      rw [hline, encloses_append] at henc
      rw [hline, scan_append] at h
      obtain ⟨f, hf⟩ := quoted_withoutLineEnd henc.1
      rw [List.append_assoc, List.cons_append, lines_append hu]
      simp only [recordsFrom, line_of_quoted hf]
      refine ih v.length ?_ henc.2 h rfl
      subst hn
      simp only [List.length_append, List.length_cons]
      omega
    · rw [lines_append hmem]
      simp only [recordsFrom, line_of_ends henc h]

end Scan

/-! ## Files -/

theorem putFields_head {fields : List Bytes} (h : 2 ≤ fields.length) :
    ∃ b s, putFields fields = b :: s ∧ b ≠ 10 ∧ b ≠ 13 := by
  rcases fields with _ | ⟨s, _ | ⟨t, fields⟩⟩
  · simp at h
  · simp at h
  · rw [Scan.putFields_cons (by simp)]
    unfold putField
    by_cases hs : isEnclosed s = true
    · rw [if_pos hs]
      exact ⟨34, _, rfl, by decide, by decide⟩
    · rw [if_neg hs]
      rcases s with _ | ⟨b, s⟩
      · exact ⟨44, _, rfl, by decide, by decide⟩
      · refine ⟨b, _, rfl, ?_⟩
        simp only [isEnclosed, List.any_cons, Bool.or_eq_true, decide_eq_true_eq, not_or] at hs
        exact ⟨hs.1.1.1.1.2, hs.1.1.1.2⟩

/-- A record that does not start with a line end starts like one in progress. -/
theorem recordsFrom_none {s : Bytes} {rest : List Bytes} (h : withoutLineEnd s ≠ [])
    (hend : lineEnd s ≠ []) :
    recordsFrom none (s :: rest) = recordsFrom (some Scan.empty) (s :: rest) := by
  simp only [recordsFrom, if_neg h, if_neg hend]

theorem records_fputcsv_cons {fields : List Bytes} (h : 2 ≤ fields.length) (rest : Bytes) :
    records (fputcsv fields ++ rest) = fields.map some :: records rest := by
  have hne : fields ≠ [] := by
    rintro rfl
    simp at h
  obtain ⟨henc, hends⟩ := Scan.ends_putFields [] hne
  obtain ⟨b, s, hhead, h₁, h₂⟩ := putFields_head h
  have hread := Scan.recordsFrom_line henc hends rest
  have hfile : fputcsv fields ++ rest = putFields fields ++ 10 :: rest := by simp [fputcsv]
  rw [List.nil_append] at hread
  unfold records
  rw [hfile, ← hread, hhead]
  -- The first line is not blank, and it has a line end.
  have hfirst : ∃ u ls, lines (b :: s ++ 10 :: rest) = (b :: u) :: ls ∧ lineEnd (b :: u) ≠ [] := by
    obtain ⟨u, v, huv, hu⟩ := List.eq_append_cons_of_mem
      (show (10 : UInt8) ∈ b :: s ++ 10 :: rest by simp)
    rw [huv, lines_append hu]
    rcases u with _ | ⟨b', u⟩
    · exact absurd (List.cons.inj huv).1 h₁
    · obtain ⟨rfl, -⟩ := List.cons.inj huv
      refine ⟨u ++ [10], lines v, rfl, ?_⟩
      rw [← List.cons_append, lineEnd_append_lf]
      split_ifs <;> simp
  obtain ⟨u, ls, hlines, hlf⟩ := hfirst
  rw [hlines]
  exact recordsFrom_none (withoutLineEnd_ne_nil h₁ h₂) hlf

/-- What `fputcsv` writes, `fgetcsv` reads back. -/
theorem records_fputcsv {rows : List (List Bytes)} (h : ∀ fields ∈ rows, 2 ≤ fields.length) :
    records (rows.flatMap fputcsv) = rows.map fun fields => fields.map some := by
  induction rows with
  | nil => rfl
  | cons fields rows ih =>
    obtain ⟨hfields, hrows⟩ := List.forall_mem_cons.mp h
    rw [List.flatMap_cons, records_fputcsv_cons hfields, ih hrows]
    rfl

end Csv

end SlimStarter
