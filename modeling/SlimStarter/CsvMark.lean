import SlimStarter.CsvTexts

/-!
# A byte order mark in front of a CSV file

`fgetcsv` does not know the mark: it reads it as the start of the first field, which a quote can no
longer open then. `Marked` relates a scan to that of the same text behind a mark. Where the first
field is not quoted, every byte keeps the two so (`Marked.step`), and the records of the two files
are the same but for the mark in the first field of the first record (`records_bom`).
-/

namespace SlimStarter

namespace Csv

/-- The UTF-8 byte order mark. -/
def bom : Bytes := [0xEF, 0xBB, 0xBF]

/-- The blanks that may stand before an opening quote, on one line. -/
def isBlank (b : UInt8) : Bool := isSpace b && b ≠ 10

/-- The first field of the file is quoted. -/
def QuoteFirst (s : Bytes) : Prop := (s.dropWhile isBlank).head? = some 34

instance (s : Bytes) : Decidable (QuoteFirst s) := inferInstanceAs (Decidable (_ = _))

/-- A scan, with `u` of the text left, and the scan of the text behind a mark. -/
inductive Marked (text : Bytes) : Bytes → Scan → Scan → Prop where
  | start {w u : Bytes} (h : w ++ u = text) :
      Marked text u ⟨[], .start w⟩ ⟨[], .plain (bom ++ w)⟩
  | plain {w u : Bytes} (h : w ++ u = text) :
      Marked text u ⟨[], .plain w⟩ ⟨[], .plain (bom ++ w)⟩
  | later {u f : Bytes} {fs : List Bytes} {field : Field} (h : f <+: text) :
      Marked text u ⟨f :: fs, field⟩ ⟨(bom ++ f) :: fs, field⟩

/-- A record, and the one with a mark before its first field. -/
inductive MarkedRecord (text : Bytes) : Record → Record → Prop where
  | void : MarkedRecord text [none] [none]
  | blank : MarkedRecord text [none] [some bom]
  | field {f : Bytes} {fs : Record} (h : f <+: text) :
      MarkedRecord text (some f :: fs) (some (bom ++ f) :: fs)

variable {text s u w : Bytes} {c c' : Scan} {ls : List Bytes} {b : UInt8}

theorem suffix_bom_append {e : Bytes} (h : ∀ b ∈ e, b ∉ bom) (w : Bytes) :
    e <:+ bom ++ w ↔ e <:+ w := by
  refine ⟨fun he => ?_, fun he => he.trans (List.suffix_append _ _)⟩
  by_cases hlength : e.length ≤ w.length
  · exact List.suffix_of_suffix_length_le he (List.suffix_append _ _) hlength
  · obtain ⟨t, rfl⟩ := List.suffix_of_suffix_length_le (List.suffix_append bom w) he (by omega)
    obtain ⟨r, hr⟩ := he
    have hbom : r ++ t = bom := by
      rw [← List.append_assoc] at hr
      exact List.append_cancel_right hr
    -- What of `e` lies before `w` is part of the mark.
    have ht : t = [] := List.eq_nil_iff_forall_not_mem.mpr fun b hb =>
      h b (List.mem_append_left w hb) (hbom ▸ List.mem_append_right r hb)
    simp [ht] at hlength

theorem lineEnd_bom (w : Bytes) : lineEnd (bom ++ w) = lineEnd w := by
  have hcr : (13 : UInt8) ∉ bom := by simp [bom]
  have hlf : (10 : UInt8) ∉ bom := by simp [bom]
  have hcrlf : ∀ b ∈ [13, 10], b ∉ bom := by simp [hcr, hlf]
  have hend : ∀ c : UInt8, c ∉ bom → ∀ b ∈ [c], b ∉ bom := by simp
  simp only [lineEnd, suffix_bom_append hcrlf, suffix_bom_append (hend 10 hlf),
    suffix_bom_append (hend 13 hcr)]

theorem withoutLineEnd_bom (w : Bytes) : withoutLineEnd (bom ++ w) = bom ++ withoutLineEnd w := by
  have hlength : (lineEnd w).length ≤ w.length := (lineEnd_isSuffix w).length_le
  unfold withoutLineEnd
  rw [lineEnd_bom, List.length_append, Nat.add_sub_assoc hlength, List.take_length_add_append]

theorem withoutLineEnd_initial (w : Bytes) : withoutLineEnd w <+: w := List.take_prefix _ _

theorem withoutLineEnd_begins {w v text : Bytes} (h : w ++ v = text) :
    withoutLineEnd w <+: text := (withoutLineEnd_initial w).trans ⟨v, h⟩

theorem Marked.step (h : Marked text (b :: u) c c')
    (hquote : ∀ w, c = ⟨[], .start w⟩ → b ≠ 34) : Marked text u (c.step b) (c'.step b) := by
  cases h with
  | start h =>
    rename_i w
    have hb := hquote w rfl
    have htext : (w ++ [b]) ++ u = text := by simp [← h]
    by_cases hcomma : b = 44
    · subst hcomma
      simp only [Scan.step, Scan.next, if_true, List.nil_append, withoutLineEnd_bom]
      exact .later (withoutLineEnd_begins h)
    · by_cases hspace : isSpace b = true
      · simp only [Scan.step, if_neg hcomma, if_neg hb, if_pos hspace, List.append_assoc]
        exact .start htext
      · simp only [Scan.step, if_neg hcomma, if_neg hb, if_neg hspace, List.append_assoc]
        exact .plain htext
  | plain h =>
    rename_i w
    by_cases hcomma : b = 44
    · subst hcomma
      simp only [Scan.step, Scan.next, if_true, List.nil_append, withoutLineEnd_bom]
      exact .later (withoutLineEnd_begins h)
    · have htext : (w ++ [b]) ++ u = text := by simp [← h]
      simp only [Scan.step, if_neg hcomma, List.append_assoc]
      exact .plain htext
  | later h =>
    rename_i f fs field
    have hstep : ∀ f, ∃ fs' field', Scan.step ⟨f :: fs, field⟩ b = ⟨f :: (fs ++ fs'), field'⟩
        ∧ Scan.step ⟨(bom ++ f) :: fs, field⟩ b = ⟨(bom ++ f) :: (fs ++ fs'), field'⟩ := by
      intro f
      cases field <;> simp only [Scan.step, Scan.next] <;> split_ifs <;> simp
    obtain ⟨fs', field', h₁, h₂⟩ := hstep f
    rw [h₁, h₂]
    exact .later h

/-- The rest of the text keeps the two scans together. -/
theorem Marked.scan (h : Marked text u c c')
    (hquote : ∀ w, c = ⟨[], .start w⟩ → (u.dropWhile isSpace).head? ≠ some 34) :
    Marked text [] (c.scan u) (c'.scan u) := by
  induction u generalizing c c' with
  | nil => exact h
  | cons b u ih =>
    have hb : ∀ w, c = ⟨[], .start w⟩ → b ≠ 34 := by
      rintro w hc rfl
      exact hquote w hc rfl
    refine ih (h.step hb) fun w hstart => ?_
    -- Only blanks lead from the blanks before the field to blanks.
    have hspace : ∃ w', c = ⟨[], .start w'⟩ ∧ isSpace b = true := by
      cases h with
      | start h =>
        rename_i w'
        refine ⟨w', rfl, ?_⟩
        by_contra hspace
        simp only [Scan.step, Scan.next, if_neg hspace] at hstart
        split_ifs at hstart <;> simp at hstart
      | plain h =>
        simp only [Scan.step, Scan.next] at hstart
        split_ifs at hstart <;> simp at hstart
      | later h =>
        rename_i f fs field
        cases field <;> simp only [Scan.step, Scan.next] at hstart <;>
          split_ifs at hstart <;> simp at hstart
    obtain ⟨w', hc, hspace⟩ := hspace
    have hdrop := hquote w' hc
    rwa [List.dropWhile_cons_of_pos hspace] at hdrop

/-- The end of a line, after its bytes. -/
def Scan.endLine (e : Bytes) (c : Scan) : Scan ⊕ List Bytes :=
  match c.field with
  | .start f => .inr (c.fields ++ [withoutLineEnd f])
  | .plain f => .inr (c.fields ++ [withoutLineEnd f])
  | .quoted f => .inl { c with field := .quoted (f ++ e) }
  | .closing f => .inr (c.fields ++ [f])
  | .after f => .inr (c.fields ++ [f])

theorem Scan.line_eq (c : Scan) (s : Bytes) :
    c.line s = (c.scan (withoutLineEnd s)).endLine (lineEnd s) := rfl

/-- Two scans end their lines alike: both records end, or both go on inside quotes. -/
theorem Marked.endLine (h : Marked text [] c c') (e : Bytes) :
    (∃ fields fields', c.endLine e = .inr fields ∧ c'.endLine e = .inr fields'
      ∧ MarkedRecord text (fields.map some) (fields'.map some))
    ∨ ∃ f fs field, f <+: text ∧ c.endLine e = .inl ⟨f :: fs, field⟩
      ∧ c'.endLine e = .inl ⟨(bom ++ f) :: fs, field⟩ := by
  cases h with
  | start h =>
    rename_i w
    refine .inl ⟨[withoutLineEnd w], [withoutLineEnd (bom ++ w)], rfl, rfl, ?_⟩
    rw [withoutLineEnd_bom]
    exact .field (withoutLineEnd_begins h)
  | plain h =>
    rename_i w
    refine .inl ⟨[withoutLineEnd w], [withoutLineEnd (bom ++ w)], rfl, rfl, ?_⟩
    rw [withoutLineEnd_bom]
    exact .field (withoutLineEnd_begins h)
  | later h =>
    rename_i f fs field
    cases field with
    | quoted g => exact .inr ⟨f, fs, .quoted (g ++ e), h, rfl, rfl⟩
    | _ => exact .inl ⟨_, _, rfl, rfl, .field h⟩

/-! ## Records -/

theorem recordsFrom_marked {f : Bytes} {fs : List Bytes} {field : Field} (h : f <+: text)
    (ls : List Bytes) : ∃ r r' rest, recordsFrom (some ⟨f :: fs, field⟩) ls = r :: rest
      ∧ recordsFrom (some ⟨(bom ++ f) :: fs, field⟩) ls = r' :: rest ∧ MarkedRecord text r r' := by
  induction ls generalizing f fs field with
  | nil =>
    cases field <;> exact ⟨_, _, _, rfl, rfl, .field h⟩
  | cons s ls ih =>
    have hscan : Marked text [] (Scan.scan ⟨f :: fs, field⟩ (withoutLineEnd s))
        (Scan.scan ⟨(bom ++ f) :: fs, field⟩ (withoutLineEnd s)) :=
      Marked.scan (.later h) (by simp)
    rw [recordsFrom_cons, recordsFrom_cons]
    simp only [readLine, Scan.line_eq]
    obtain ⟨fields, fields', h₁, h₂, hr⟩ | ⟨g, gs, field', hg, h₁, h₂⟩ :=
      hscan.endLine (lineEnd s)
    · rw [h₁, h₂]
      exact ⟨_, _, _, rfl, rfl, hr⟩
    · rw [h₁, h₂]
      exact ih hg

theorem lines_bom (s : Bytes) :
    lines (bom ++ s) = (bom ++ (lines s).head?.getD []) :: (lines s).tail := by
  have hcons : ∀ (b : UInt8) (s : Bytes), b ≠ 10 →
      lines (b :: s) = (b :: (lines s).head?.getD []) :: (lines s).tail := by
    intro b s hb
    rw [lines, if_neg hb]
    cases lines s <;> rfl
  show lines (0xEF :: 0xBB :: 0xBF :: s) = _
  rw [hcons _ _ (by decide), hcons _ _ (by decide), hcons _ _ (by decide)]
  rfl

theorem withoutLineEnd_prefix_of_lines {l : Bytes} {rest : List Bytes}
    (hl : lines s = l :: rest) : withoutLineEnd l <+: s := by
  have hs := flatten_lines s
  rw [hl, List.flatten_cons] at hs
  exact withoutLineEnd_begins hs

theorem lf_notMem_withoutLineEnd {l : Bytes} (h : l ∈ lines s) : 10 ∉ withoutLineEnd l := by
  rcases (areLines_lines s).last l h with ⟨u, hu, rfl⟩ | ⟨-, hl⟩
  · intro hmem
    have hsub : withoutLineEnd (u ++ [10]) <+: u := by
      refine List.prefix_of_prefix_length_le (withoutLineEnd_initial _) (List.prefix_append u _) ?_
      unfold withoutLineEnd
      rw [lineEnd_append_lf]
      split_ifs <;> simp
    exact hu (hsub.subset hmem)
  · exact fun hmem => hl ((withoutLineEnd_initial l).subset hmem)

theorem dropWhile_isBlank (h : 10 ∉ u) : u.dropWhile isBlank = u.dropWhile isSpace := by
  induction u with
  | nil => rfl
  | cons b u ih =>
    simp only [List.mem_cons, not_or] at h
    have hb : isBlank b = isSpace b := by simp [isBlank, Ne.symm h.1]
    by_cases hspace : isSpace b = true
    · rw [List.dropWhile_cons_of_pos hspace, List.dropWhile_cons_of_pos (hb.trans hspace), ih h.2]
    · rw [List.dropWhile_cons_of_neg hspace, List.dropWhile_cons_of_neg (hb ▸ hspace)]

/-- The first line has no quote before other bytes than blanks, if the file has not. -/
theorem quoteFirst_of_line {l : Bytes} {rest : List Bytes} (hl : lines s = l :: rest)
    (h : ((withoutLineEnd l).dropWhile isSpace).head? = some 34) : QuoteFirst s := by
  obtain ⟨t, ht⟩ := withoutLineEnd_prefix_of_lines hl
  have hlf := lf_notMem_withoutLineEnd (hl ▸ List.mem_cons_self : l ∈ lines s)
  rw [← dropWhile_isBlank hlf] at h
  have hne : ((withoutLineEnd l).dropWhile isBlank).isEmpty = false := by
    cases hdrop : (withoutLineEnd l).dropWhile isBlank with
    | nil => simp [hdrop] at h
    | cons b u => rfl
  unfold QuoteFirst
  rw [← ht, List.dropWhile_append, hne, if_neg (by simp), List.head?_append, h]
  rfl

theorem MarkedRecord.mono {text' : Bytes} {r r' : Record} (h : MarkedRecord text r r')
    (htext : text <+: text') : MarkedRecord text' r r' := by
  cases h with
  | void => exact .void
  | blank => exact .blank
  | field hf => exact .field (hf.trans htext)

theorem records_bom (hne : s ≠ []) (hquote : ¬ QuoteFirst s) :
    ∃ r r' rest, records s = r :: rest ∧ records (bom ++ s) = r' :: rest ∧ MarkedRecord s r r' := by
  obtain ⟨l, rest, hl⟩ : ∃ l rest, lines s = l :: rest := by
    refine List.exists_cons_of_ne_nil fun hnil => hne ?_
    rw [← flatten_lines s, hnil]
    rfl
  have hmarked : lines (bom ++ s) = (bom ++ l) :: rest := by
    rw [lines_bom, hl]
    rfl
  have hprefix := withoutLineEnd_prefix_of_lines hl
  have hbom : bom ++ withoutLineEnd l ≠ [] := by simp [bom]
  rw [records, records, hl, hmarked, recordsFrom_cons, recordsFrom_cons]
  simp only [readLine, Scan.line_eq, withoutLineEnd_bom, lineEnd_bom, Scan.scan_append,
    if_neg hbom]
  by_cases hblank : withoutLineEnd l = []
  · rw [if_pos hblank, hblank]
    exact ⟨_, _, _, rfl, rfl, .blank⟩
  · have hscan : Marked (withoutLineEnd l) [] (Scan.empty.scan (withoutLineEnd l))
        ((Scan.empty.scan bom).scan (withoutLineEnd l)) :=
      Marked.scan (.start rfl) fun _ _ h => hquote (quoteFirst_of_line hl h)
    rw [if_neg hblank]
    obtain ⟨fields, fields', h₁, h₂, hr⟩ | ⟨f, fs, field, hf, h₁, h₂⟩ := hscan.endLine (lineEnd l)
    · rw [h₁, h₂]
      exact ⟨_, _, _, rfl, rfl, hr.mono hprefix⟩
    · rw [h₁, h₂]
      by_cases hend : lineEnd l = []
      · simp only [if_pos hend]
        exact ⟨_, _, _, rfl, rfl, .void⟩
      · simp only [if_neg hend]
        exact recordsFrom_marked (hf.trans hprefix) rest

/-! ## Quoted first fields -/

/-- The blanks that a file begins with, and the byte after them. -/
def lead (s : Bytes) : Bytes := s.takeWhile isBlank ++ (s.dropWhile isBlank).head?.toList

/-- A file of one quoted column behind these blanks, and one row. -/
def quotedName (w : Bytes) : Bytes := w ++ ascii "\"name\"" ++ 10 :: ascii "Ada\n"

theorem dropWhile_lead (s : Bytes) :
    (lead s).dropWhile isBlank = (s.dropWhile isBlank).head?.toList := by
  unfold lead
  rw [List.dropWhile_append_of_pos fun b hb => List.mem_takeWhile_imp hb]
  cases hdrop : s.dropWhile isBlank with
  | nil => rfl
  | cons b u =>
    have hb := List.head?_dropWhile_not isBlank s
    rw [hdrop] at hb
    exact List.dropWhile_cons_of_neg (by simpa using hb)

theorem quoteFirst_lead (s : Bytes) : QuoteFirst (lead s) ↔ QuoteFirst s := by
  unfold QuoteFirst
  rw [dropWhile_lead]
  cases (s.dropWhile isBlank).head? <;> simp

section Quoted

variable (hw : ∀ b ∈ w, isBlank b = true)
include hw

theorem lead_quotedName : lead (quotedName w) = w ++ [34] := by
  have hquote : isBlank 34 = false := by decide
  have htext : quotedName w = w ++ 34 :: (ascii "name\"" ++ 10 :: ascii "Ada\n") := by
    rw [quotedName, List.append_assoc]
    rfl
  unfold lead
  rw [htext, List.takeWhile_append_of_pos hw, List.dropWhile_append_of_pos hw]
  simp [hquote]

theorem not_bom_quotedName : ¬ bom <+: quotedName w := by
  intro h
  cases w with
  | nil => exact absurd h (by decide)
  | cons b w =>
    obtain ⟨hb, -⟩ := List.cons_prefix_cons.mp h
    subst hb
    exact absurd (hw _ List.mem_cons_self) (by decide)

theorem lines_quotedName :
    lines (quotedName w) = (w ++ ascii "\"name\"" ++ [10]) :: lines (ascii "Ada\n") := by
  refine lines_append (fun hmem => ?_) _
  rcases List.mem_append.mp hmem with hmem | hmem
  · exact absurd (hw 10 hmem) (by decide)
  · exact absurd hmem (by decide)

omit hw in
theorem not_suffix_quoted {e : Bytes} (hne : e ≠ []) (he : e.getLast? ≠ some 34) (w : Bytes) :
    ¬ e <:+ w ++ ascii "\"name\"" := by
  rintro ⟨t, ht⟩
  have hlast := congrArg List.getLast? ht
  rw [List.getLast?_append_of_ne_nil _ hne, List.getLast?_append_of_ne_nil _ (by decide)] at hlast
  exact he hlast

omit hw in
theorem lineEnd_quotedName (w : Bytes) : lineEnd (w ++ ascii "\"name\"" ++ [10]) = [10] := by
  rw [lineEnd_append_lf, if_neg (not_suffix_quoted (by decide) (by decide) w)]

omit hw in
theorem withoutLineEnd_quotedName (w : Bytes) :
    withoutLineEnd (w ++ ascii "\"name\"" ++ [10]) = w ++ ascii "\"name\"" := by
  rw [withoutLineEnd, lineEnd_quotedName]
  exact List.take_left' (by simp)

theorem scan_blanks (p : Bytes) : Scan.scan ⟨[], .start p⟩ w = ⟨[], .start (p ++ w)⟩ := by
  induction w generalizing p with
  | nil => simp
  | cons b w ih =>
    obtain ⟨hb, hrest⟩ := List.forall_mem_cons.mp hw
    have hstep : Scan.step ⟨[], .start p⟩ b = ⟨[], .start (p ++ [b])⟩ := by
      have hspace : isSpace b = true := by simp only [isBlank, Bool.and_eq_true] at hb; exact hb.1
      have hcomma : b ≠ 44 := by rintro rfl; exact absurd hb (by decide)
      have hquote : b ≠ 34 := by rintro rfl; exact absurd hb (by decide)
      simp only [Scan.step, if_neg hcomma, if_neg hquote, if_pos hspace]
    rw [Scan.scan_cons, hstep, ih hrest, List.append_assoc]
    rfl

theorem head?_records_quotedName :
    (records (quotedName w)).head? = some [some (ascii "name")] := by
  have hline : readLine none (w ++ ascii "\"name\"" ++ [10]) = .inl [some (ascii "name")] := by
    have hne : w ++ ascii "\"name\"" ≠ [] := List.append_ne_nil_of_right_ne_nil _ (by decide)
    simp only [readLine, Scan.line_eq, withoutLineEnd_quotedName, lineEnd_quotedName, if_neg hne,
      Scan.scan_append]
    rw [show Scan.empty.scan w = ⟨[], .start w⟩ from scan_blanks hw []]
    rfl
  rw [records, lines_quotedName hw, recordsFrom_cons, hline]
  rfl

end Quoted

theorem scan_plain {fs : List Bytes} (h : 44 ∉ u) (p : Bytes) :
    Scan.scan ⟨fs, .plain p⟩ u = ⟨fs, .plain (p ++ u)⟩ := by
  induction u generalizing p with
  | nil => simp
  | cons b u ih =>
    simp only [List.mem_cons, not_or] at h
    have hstep : Scan.step ⟨fs, .plain p⟩ b = ⟨fs, .plain (p ++ [b])⟩ := by
      simp only [Scan.step, if_neg (Ne.symm h.1)]
    rw [Scan.scan_cons, hstep, ih h.2, List.append_assoc]
    rfl

/-- Behind a mark the field keeps its quotes. -/
theorem head?_records_bom_quotedName (hw : ∀ b ∈ w, isBlank b = true) :
    (records (bom ++ quotedName w)).head? = some [some (bom ++ (w ++ ascii "\"name\""))] := by
  have hcomma : 44 ∉ w ++ ascii "\"name\"" := by
    intro hmem
    rcases List.mem_append.mp hmem with hmem | hmem
    · exact absurd (hw 44 hmem) (by decide)
    · exact absurd hmem (by decide)
  have hline : readLine none (bom ++ (w ++ ascii "\"name\"" ++ [10])) =
      .inl [some (bom ++ (w ++ ascii "\"name\""))] := by
    have hne : bom ++ (w ++ ascii "\"name\"") ≠ [] := by simp [bom]
    simp only [readLine, Scan.line_eq, withoutLineEnd_bom, lineEnd_bom, withoutLineEnd_quotedName,
      lineEnd_quotedName, if_neg hne]
    rw [Scan.scan_append, show Scan.empty.scan bom = ⟨[], .plain bom⟩ from rfl, scan_plain hcomma]
    have hend : lineEnd (w ++ ascii "\"name\"") = [] := by
      simp only [lineEnd, if_neg (@not_suffix_quoted [13, 10] (by decide) (by decide) w),
        if_neg (@not_suffix_quoted [10] (by decide) (by decide) w),
        if_neg (@not_suffix_quoted [13] (by decide) (by decide) w)]
    have hwhole : withoutLineEnd (w ++ ascii "\"name\"") = w ++ ascii "\"name\"" := by
      simp [withoutLineEnd, hend]
    simp only [Scan.endLine, withoutLineEnd_bom, hwhole]
    rfl
  rw [records, lines_bom, lines_quotedName hw, recordsFrom_cons, List.head?_cons,
    Option.getD_some, hline]
  rfl

end Csv

end SlimStarter
