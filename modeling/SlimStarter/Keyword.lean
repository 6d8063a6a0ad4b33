import SlimStarter.Lib.Like
import SlimStarter.Lib.Utf8
import SlimStarter.Search

/-!
# What a keyword search finds

`LOWER` and `LIKE` as SQLite has them, and what the conditions that `applyKeywordSearch` adds mean
to it: the text of a group is read back into predicates, and each is evaluated on a row, with `NULL`
where the column is. `LIKE` refuses a pattern of more than `likeLimit` bytes; it reads its texts as
C strings, up to a NUL, and compares the characters of a lenient reading of UTF-8.

The escaped keyword reads as its own literals between two `%`, of which a NUL cuts off the second,
so that a predicate holds of a value that has the characters of the keyword, up to ASCII case
(`like_pattern`). The search finds the rows that contain the keyword exactly where their characters
tell what their bytes do (`search_is_literal_iff`).
-/

namespace SlimStarter

open Sql (Token lex)
open BaseModel

namespace Sqlite

/-- `%` and `_`. -/
def wildcards : Like.Wildcards ℕ := ⟨37, 95⟩

/-- Only ASCII letters are folded, by `LOWER` as by `LIKE`. -/
def fold (c : ℕ) : ℕ := if 65 ≤ c ∧ c ≤ 90 then c + 32 else c

def lower (s : Bytes) : Bytes := strtolower s

/-- What is read of a text that ends at its first NUL. -/
def cString (s : Bytes) : Bytes := s.takeWhile (· ≠ 0)

/-- The characters of a text as `LIKE` compares them. -/
def chars (s : Bytes) : List ℕ := (Utf8.read (cString s)).map fold

/-- `SQLITE_LIMIT_LIKE_PATTERN_LENGTH`, in bytes. -/
def likeLimit : ℕ := 50000

/-- `value LIKE pattern ESCAPE escape`, for a pattern within the limit. -/
def like (escape : UInt8) (value pattern : Bytes) : Bool :=
  match wildcards.parse escape.toNat (Utf8.read (cString pattern)) with
  | some items => Like.matches fold List.tail? items (Utf8.read (cString value))
  | none => false

/-- An error that ends the statement. -/
structure SqlError where
  message : Bytes
deriving DecidableEq, Repr

/-- `OR`, where `NULL` is `none`. -/
def or : Option Bool → Option Bool → Option Bool
  | some true, _ => some true
  | _, some true => some true
  | some false, some false => some false
  | _, _ => none

/-- `LOWER(column) LIKE ? ESCAPE` and the escape character. -/
structure LikePredicate where
  column : Bytes
  escape : UInt8
deriving DecidableEq, Repr

/-- The predicates of a text after its opening parenthesis, with `OR` between them. -/
def readPredicates : List Token → Option (List LikePredicate)
  | .word lower :: .symbol l :: .word column :: .symbol r :: .word like :: .symbol placeholder
      :: .word escape :: .literal [e] :: rest =>
    if lower = ascii "LOWER" ∧ l = 40 ∧ r = 41 ∧ like = ascii "LIKE" ∧ placeholder = 63
        ∧ escape = ascii "ESCAPE" then
      match rest with
      | [.symbol close] => if close = 41 then some [⟨column, e⟩] else none
      | .word or :: rest =>
        if or = ascii "OR" then (readPredicates rest).map (⟨column, e⟩ :: ·) else none
      | _ => none
    else none
  | _ => none

def readGroup : List Token → Option (List LikePredicate)
  | .symbol l :: rest => if l = 40 then readPredicates rest else none
  | _ => none

/-- The columns of a row, by their qualified names. -/
abbrev Columns := Bytes → Option Bytes

/-- The value of a predicate: `NULL` where the column is. -/
def LikePredicate.eval (row : Columns) (p : LikePredicate) (pattern : Bytes) :
    Except SqlError (Option Bool) :=
  if likeLimit < pattern.length then .error ⟨ascii "LIKE or GLOB pattern too complex"⟩
  else .ok ((row p.column).map fun value => like p.escape (lower value) pattern)

/-- `OR` of predicates, up to the first that is true. -/
def anyTrue : List (Except SqlError (Option Bool)) → Except SqlError (Option Bool)
  | [] => .ok (some false)
  | value :: values => do
    let value ← value
    if value = some true then pure value else or value <$> anyTrue values

/-- A row passes where the condition is true, neither false nor `NULL`. -/
def passes (group : ConditionGroup) (row : Columns) : Except SqlError Bool :=
  match (lex .sqlite group.sql).bind readGroup with
  | some predicates =>
    (anyTrue (List.zipWith (LikePredicate.eval row) predicates group.bindings)).map
      fun value => decide (value = some true)
  | none => .error ⟨ascii "syntax error"⟩

/-- Whether the groups of a query let a row through. -/
def selects (query : QueryBuilder) (row : Columns) : Except SqlError Bool :=
  query.wheres.allM fun group => passes group row

variable {column : Bytes} {columns : List Bytes} {query : QueryBuilder} {row : Columns}

theorem readPredicates_last :
    readPredicates (predicateTokens column ++ [.symbol 41]) = some [⟨column, 92⟩] := by
  simp [predicateTokens, readPredicates]

theorem readPredicates_or (rest : List Token) :
    readPredicates (predicateTokens column ++ .word (ascii "OR") :: rest) =
      (readPredicates rest).map (⟨column, 92⟩ :: ·) := by
  simp [predicateTokens, readPredicates]

theorem readPredicates_intercalate (hne : columns ≠ []) :
    readPredicates ([Token.word (ascii "OR")].intercalate (columns.map predicateTokens)
      ++ [.symbol 41]) = some (columns.map (⟨·, 92⟩)) := by
  induction columns with
  | nil => exact absurd rfl hne
  | cons column columns ih =>
    rcases columns with _ | ⟨column', columns⟩
    · simpa using readPredicates_last
    · rw [List.map_cons, List.map_cons, List.intercalate_cons_cons, List.append_assoc,
        List.append_assoc, List.singleton_append, readPredicates_or, ← List.map_cons,
        ih (by simp)]
      rfl

/-- The tokens that a search is meant to have are one predicate for each column. -/
theorem readGroup_searchTokens (hne : columns ≠ []) :
    readGroup (searchTokens columns) = some (columns.map (⟨·, 92⟩)) := by
  simp only [searchTokens, List.cons_append, readGroup, if_true]
  exact readPredicates_intercalate hne

theorem anyTrue_ok (values : List (Option Bool)) :
    (anyTrue (values.map .ok)).map (fun value => decide (value = some true)) =
      .ok (decide (some true ∈ values)) := by
  have hor : ∀ value rest : Option Bool, value ≠ some true →
      (or value rest = some true ↔ rest = some true) := by
    rintro (_ | _ | _) (_ | _ | _) <;> simp [or]
  induction values with
  | nil => rfl
  | cons value values ih =>
    by_cases hvalue : value = some true
    · simp [anyTrue, hvalue, pure, Except.pure, bind, Except.bind, Except.map]
    · rw [List.map_cons, anyTrue]
      cases hrest : anyTrue (values.map .ok) with
      | error e =>
        rw [hrest] at ih
        cases ih
      | ok rest =>
        rw [hrest] at ih
        have hih : rest = some true ↔ some true ∈ values := by simpa [Except.map] using ih
        simp [bind, Except.bind, Functor.map, Except.map, hvalue, hor value rest hvalue, hih,
          Ne.symm hvalue]

/-! ## The pattern -/

/-- The text that is searched for. -/
def pattern (keyword : Bytes) : Bytes :=
  [37] ++ strtolower (CustomerModel.escapeLikeKeyword keyword) ++ [37]

/-- `LIKE` finds the keyword in a value, which it should end with if a NUL cuts off the pattern. -/
def Finds (keyword value : Bytes) : Prop :=
  if 0 ∈ keyword then chars keyword <:+ chars value else chars keyword <:+: chars value

instance (keyword value : Bytes) : Decidable (Finds keyword value) := by
  unfold Finds
  infer_instance

theorem fold_fold (c : ℕ) : fold (fold c) = fold c := by
  unfold fold
  split_ifs <;> omega

theorem cString_eq_self {s : Bytes} (h : 0 ∉ s) : cString s = s :=
  List.takeWhile_eq_self_iff.mpr fun b hb => by
    simp only [decide_eq_true_eq]
    rintro rfl
    exact h hb

theorem zero_notMem_cString (s : Bytes) : 0 ∉ cString s := by
  intro h
  simpa using List.mem_takeWhile_imp h

theorem cString_append_cons {s : Bytes} (h : 0 ∉ s) (t : Bytes) : cString (s ++ 0 :: t) = s := by
  have hs : ∀ b ∈ s, decide (b ≠ 0) = true := by
    intro b hb
    simp only [decide_eq_true_eq]
    rintro rfl
    exact h hb
  rw [cString, List.takeWhile_append_of_pos hs]
  simp

/-- What a keyword becomes in the pattern, byte for byte. -/
def escaped (b : UInt8) : Bytes := strtolower (if b = 37 ∨ b = 95 ∨ b = 92 then [92, b] else [b])

theorem pattern_eq (keyword : Bytes) :
    pattern keyword = 37 :: (keyword.flatMap escaped ++ [37]) := by
  simp only [pattern, CustomerModel.escapeLikeKeyword, strtolower, List.map_flatMap]
  rfl

theorem escaped_facts : ∀ b : UInt8, (b < 0x80 → escaped b ≠ []
      ∧ (escaped b).all (· < 0x80) = true ∧ (escaped b).map UInt8.toNat =
        if fold b.toNat = 37 ∨ fold b.toNat = 95 ∨ fold b.toNat = 92 then [92, fold b.toNat]
        else [fold b.toNat])
    ∧ (0x80 ≤ b → escaped b = [b]) ∧ (0 ∈ escaped b ↔ b = 0) :=
  forall_byte (by decide +kernel)

theorem fold_of_ge {c : ℕ} (h : 0x80 ≤ c) : fold c = c := by
  unfold fold
  split_ifs <;> omega

theorem read_escaped (s : Bytes) : Utf8.read (s.flatMap escaped) =
    wildcards.escape 92 ((Utf8.read s).map fold) := by
  have hread := @Utf8.readFrom_flatMap none s escaped (fun b hb => ((escaped_facts b).1 hb).1)
    (fun b hb => by simpa using ((escaped_facts b).1 hb).2.1) fun b hb => (escaped_facts b).2.1 hb
  refine hread.trans ?_
  simp only [Like.Wildcards.escape, List.flatMap_map]
  refine List.flatMap_congr fun c _ => ?_
  simp only [wildcards]
  by_cases hc : c < 0x80
  · have hbyte : UInt8.ofNat c < 0x80 := by
      rw [UInt8.lt_iff_toNat_lt, UInt8.toNat_ofNat', Nat.mod_eq_of_lt (by omega)]
      exact hc
    rw [if_pos hc, ((escaped_facts _).1 hbyte).2.2, UInt8.toNat_ofNat', Nat.mod_eq_of_lt (by omega)]
    congr
  · have hfold := fold_of_ge (not_lt.mp hc)
    have hplain : ¬ (c = 37 ∨ c = 95 ∨ c = 92) := by omega
    simp [hc, hfold, hplain]

theorem lower_facts : ∀ b : UInt8, (b < 0x80 → lower [b] ≠ []
      ∧ (lower [b]).all (· < 0x80) = true ∧ (lower [b]).map UInt8.toNat = [fold b.toNat])
    ∧ (0x80 ≤ b → lower [b] = [b]) ∧ (0 ∈ lower [b] ↔ b = 0) :=
  forall_byte (by decide +kernel)

theorem lower_eq_flatMap (s : Bytes) : lower s = s.flatMap fun b => lower [b] := by
  induction s with
  | nil => rfl
  | cons b s ih => exact congrArg (_ :: ·) ih

theorem read_lower (s : Bytes) : Utf8.read (lower s) = (Utf8.read s).map fold := by
  have hread := @Utf8.readFrom_flatMap none s (fun b => lower [b])
    (fun b hb => ((lower_facts b).1 hb).1) (fun b hb => by simpa using ((lower_facts b).1 hb).2.1)
    fun b hb => (lower_facts b).2.1 hb
  rw [← lower_eq_flatMap] at hread
  refine hread.trans ?_
  rw [List.map_eq_flatMap]
  refine List.flatMap_congr fun c _ => ?_
  by_cases hc : c < 0x80
  · have hbyte : UInt8.ofNat c < 0x80 := by
      rw [UInt8.lt_iff_toNat_lt, UInt8.toNat_ofNat', Nat.mod_eq_of_lt (by omega)]
      exact hc
    rw [if_pos hc, ((lower_facts _).1 hbyte).2.2, UInt8.toNat_ofNat', Nat.mod_eq_of_lt (by omega)]
  · rw [if_neg hc, fold_of_ge (not_lt.mp hc)]

theorem cString_lower (s : Bytes) : cString (lower s) = lower (cString s) := by
  have hzero : ∀ b : UInt8, ((if 65 ≤ b ∧ b ≤ 90 then b + 32 else b) ≠ 0) = (b ≠ 0) :=
    forall_byte (by decide +kernel)
  simp only [cString, lower, strtolower, List.takeWhile_map, Function.comp_def, hzero]

theorem chars_lower (s : Bytes) : Utf8.read (cString (lower s)) = chars s := by
  rw [cString_lower, read_lower, chars]

theorem fold_chars (s : Bytes) : (chars s).map fold = chars s := by
  simp [chars, Function.comp_def, fold_fold]

/-- Whatever bytes the keyword has, the predicate holds of the values it finds the keyword in. -/
theorem like_pattern (keyword value : Bytes) :
    like 92 (lower value) (pattern keyword) = true ↔ Finds keyword value := by
  have hpercent : (37 : ℕ) ≠ 92 := by decide
  have hitem : wildcards.item 37 = .any := by decide
  have hmem : ∀ s : Bytes, 0 ∉ s → 0 ∉ s.flatMap escaped := by
    intro s hs h
    obtain ⟨b, hb, hzero⟩ := List.mem_flatMap.mp h
    rw [(escaped_facts b).2.2.mp hzero] at hb
    exact hs hb
  have hread : ∀ t : Bytes, (∀ b ∈ t.head?, Utf8.isContinuation b = false) → ∀ s : Bytes,
      Utf8.read (37 :: (s.flatMap escaped ++ t)) =
        37 :: (wildcards.escape 92 ((Utf8.read s).map fold) ++ Utf8.read t) := by
    intro t ht s
    rw [Utf8.read, Utf8.readFrom_of_lt none (by decide), Utf8.read, Utf8.readFrom_append ht]
    exact congrArg (fun l => 37 :: (l ++ _)) (read_escaped s)
  unfold like Finds
  rw [chars_lower, show (92 : UInt8).toNat = 92 from rfl]
  by_cases hnul : 0 ∈ keyword
  · obtain ⟨s, t, hkeyword, hs⟩ := List.eq_append_cons_of_mem hnul
    have hcut : cString (pattern keyword) = 37 :: s.flatMap escaped := by
      have hzero : escaped 0 = [0] := by decide +kernel
      have hpattern : pattern keyword =
          (37 :: s.flatMap escaped) ++ 0 :: (t.flatMap escaped ++ [37]) := by
        rw [pattern_eq, hkeyword]
        simp [hzero]
      rw [hpattern, cString_append_cons]
      simpa using hmem s hs
    have hchars : chars keyword = (Utf8.read s).map fold := by
      rw [chars, hkeyword, cString_append_cons hs]
    have hall := hread [] (by simp) s
    rw [List.append_nil, show Utf8.read [] = [] from rfl] at hall
    rw [hcut, hall, Like.Wildcards.parse_plain hpercent, Like.Wildcards.parse_escape, hitem,
      if_pos hnul, hchars]
    show Like.matches fold List.tail?
      (.any :: (((Utf8.read s).map fold).map .char ++ [])) _ = true ↔ _
    rw [List.append_nil, Like.matches_ends, fold_chars]
    simp [Function.comp_def, fold_fold]
  · have hcut : cString (pattern keyword) = 37 :: (keyword.flatMap escaped ++ [37]) := by
      rw [pattern_eq, cString_eq_self]
      simpa using hmem keyword hnul
    have hlast : wildcards.parse 92 (Utf8.read [37]) = some [.any] := by decide +kernel
    have hchars : chars keyword = (Utf8.read keyword).map fold := by
      rw [chars, cString_eq_self hnul]
    rw [hcut, hread [37] (by simp [Utf8.isContinuation]) keyword,
      Like.Wildcards.parse_plain hpercent, Like.Wildcards.parse_escape, hlast, hitem, if_neg hnul,
      hchars]
    show Like.matches fold List.tail?
      (.any :: ((Utf8.read keyword).map fold).map .char ++ [.any]) _ = true ↔ _
    rw [Like.matches_contains, fold_chars]
    simp [Function.comp_def, fold_fold]

/-- A wildcard in the keyword finds itself only. -/
example : like 92 (ascii "ada_l") (pattern (ascii "A_")) = true
    ∧ like 92 (ascii "adal") (pattern (ascii "A_")) = false := by
  decide +kernel

/-- A group finds what one of its predicates does, for a pattern that is not too long. -/
theorem passes_searchGroup (hne : columns ≠ [])
    (h : ∀ column ∈ columns, isIdentifier column = true) (keyword : Bytes) :
    passes (searchGroup columns keyword) row =
      if likeLimit < (pattern keyword).length then
        .error ⟨ascii "LIKE or GLOB pattern too complex"⟩
      else .ok (columns.any fun column => (row column).any fun value => Finds keyword value) := by
  have hzip : List.zipWith (LikePredicate.eval row) (columns.map (⟨·, 92⟩))
      (columns.map fun _ => pattern keyword) =
        columns.map fun column => LikePredicate.eval row ⟨column, 92⟩ (pattern keyword) := by
    rw [List.zipWith_map, List.zipWith_self]
  unfold passes
  rw [lex_sqlite hne h, Option.bind_some, readGroup_searchTokens hne]
  simp only [searchGroup_bindings]
  change Except.map _ (anyTrue (List.zipWith _ _ (columns.map fun _ => pattern keyword))) = _
  rw [hzip]
  by_cases hlong : likeLimit < (pattern keyword).length
  · obtain ⟨column, columns, rfl⟩ := List.exists_cons_of_ne_nil hne
    simp [LikePredicate.eval, hlong, anyTrue, bind, Except.bind, Except.map]
  · have heval : (columns.map fun column => LikePredicate.eval row ⟨column, 92⟩ (pattern keyword)) =
        (columns.map fun column => (row column).map fun value =>
          like 92 (lower value) (pattern keyword)).map .ok := by
      simp [LikePredicate.eval, hlong, Function.comp_def]
    rw [heval, anyTrue_ok, if_neg hlong]
    refine congrArg Except.ok (Bool.eq_iff_iff.mpr ?_)
    simp only [decide_eq_true_eq, List.mem_map, Option.map_eq_some_iff, like_pattern,
      List.any_eq_true, Option.any_eq_true]

/-- What a search adds to a query, and the rows that it lets through. -/
theorem applyKeywordSearch_selects (hne : columns ≠ [])
    (h : ∀ column ∈ columns, isIdentifier column = true) (keywords : Bytes) :
    ∃ added, applyKeywordSearch query columns (some keywords) = .ok ⟨query.wheres ++ added⟩
      ∧ ∀ row, selects ⟨added⟩ row =
        if trim keywords = [] then .ok true
        else if likeLimit < (pattern (trim keywords)).length then
          .error ⟨ascii "LIKE or GLOB pattern too complex"⟩
        else .ok (columns.any fun column =>
          (row column).any fun value => Finds (trim keywords) value) := by
  by_cases hkeywords : trim keywords = []
  · refine ⟨[], ?_, fun row => ?_⟩
    · simp only [applyKeywordSearch, Option.getD_some, hkeywords, true_or, if_true,
        List.append_nil]
      rfl
    · simp [hkeywords, selects, pure, Except.pure]
  · refine ⟨[searchGroup columns (trim keywords)], applyKeywordSearch_eq hne h hkeywords,
      fun row => ?_⟩
    have hone : selects ⟨[searchGroup columns (trim keywords)]⟩ row =
        passes (searchGroup columns (trim keywords)) row := by
      simp only [selects, List.allM]
      rcases passes (searchGroup columns (trim keywords)) row with _ | _ | _ <;> rfl
    rw [hone, passes_searchGroup hne h, if_neg hkeywords]

/-- A text that is written as UTF-8 should be, without a NUL. -/
def Written (s : Bytes) : Prop :=
  0 ∉ s ∧ ∃ cs : List ℕ, (∀ c ∈ cs, Utf8.Readable c) ∧ s = cs.flatMap Utf8.encode

variable {keyword value : Bytes}

theorem readable_fold {c : ℕ} (h : Utf8.Readable c) : Utf8.Readable (fold c) := by
  unfold Utf8.Readable fold at *
  split_ifs <;> omega

theorem lower_encode {c : ℕ} (h : Utf8.Readable c) :
    lower (Utf8.encode c) = Utf8.encode (fold c) := by
  by_cases hc : c < 0x80
  · have hall : ∀ c < 0x80, lower (Utf8.encode c) = Utf8.encode (fold c) := by decide +kernel
    exact hall c hc
  · rw [fold_of_ge (not_lt.mp hc), lower_eq_flatMap]
    have hself : ∀ b ∈ Utf8.encode c, lower [b] = [b] :=
      fun b hb => (lower_facts b).2.1 (Utf8.encode_ge h (not_lt.mp hc) hb)
    rw [List.flatMap_congr hself, List.flatMap_singleton']

/-- A written text in small letters, as bytes and as characters. -/
theorem Written.chars (h : Written value) : ∃ cs : List ℕ, (∀ c ∈ cs, Utf8.Readable c)
    ∧ Sqlite.chars value = cs ∧ strtolower value = cs.flatMap Utf8.encode := by
  obtain ⟨hnul, cs, hcs, rfl⟩ := h
  refine ⟨cs.map fold, ?_, ?_, ?_⟩
  · intro c hc
    obtain ⟨d, hd, rfl⟩ := List.mem_map.mp hc
    exact readable_fold (hcs d hd)
  · rw [Sqlite.chars, cString_eq_self hnul, Utf8.read_encoded hcs]
  · change lower _ = _
    rw [lower_eq_flatMap, List.flatMap_assoc, List.flatMap_map]
    refine List.flatMap_congr fun c hc => ?_
    rw [← lower_eq_flatMap]
    exact lower_encode (hcs c hc)

theorem finds_of_written (hkeyword : Written keyword) (hvalue : Written value) :
    Finds keyword value ↔ strtolower keyword <:+: strtolower value := by
  obtain ⟨cs, hcs, hchars, hlower⟩ := hkeyword.chars
  obtain ⟨ds, hds, hchars', hlower'⟩ := hvalue.chars
  rw [Finds, if_neg hkeyword.1, hchars, hchars', hlower, hlower',
    Utf8.infix_encoded_iff hcs hds]

theorem chars_of_notMem {s : Bytes} (h : 0 ∉ s) : chars s = Utf8.read (lower s) := by
  rw [read_lower, chars, cString_eq_self h]

theorem mem_lower {s : Bytes} {b : UInt8} : b ∈ lower s ↔ ∃ a ∈ s, b ∈ lower [a] := by
  rw [lower_eq_flatMap, List.mem_flatMap]

theorem finds_of_ascii (hne : keyword ≠ []) (hkeyword : ∀ b ∈ keyword, 0 < b ∧ b < 0x80)
    (hvalue : 0 ∉ value) :
    Finds keyword value ↔ strtolower keyword <:+: strtolower value := by
  have hnul : 0 ∉ keyword := fun h => absurd (hkeyword 0 h).1 (by decide)
  have hascii : ∀ b ∈ lower keyword, b < 0x80 := by
    intro b hb
    obtain ⟨a, ha, hb⟩ := mem_lower.mp hb
    simpa using List.all_eq_true.mp ((lower_facts a).1 (hkeyword a ha).2).2.1 b hb
  have hplain := Utf8.read_plain (s := []) fun b hb => UInt8.lt_trans (hascii b hb) (by decide)
  rw [List.append_nil, show Utf8.read [] = [] from rfl, List.append_nil] at hplain
  have hne' : lower keyword ≠ [] := by
    simpa [lower, strtolower] using hne
  rw [Finds, if_neg hnul, chars_of_notMem hnul, chars_of_notMem hvalue, hplain]
  exact Utf8.infix_read_iff hne' hascii

/-- Other keywords are found in a text that does not contain them, or not found in one that does. -/
theorem exists_misfound (h : ∃ b ∈ keyword, ¬ (0 < b ∧ b < 0x80)) : ∃ value : Bytes, 0 ∉ value
    ∧ ¬ (Finds keyword value ↔ strtolower keyword <:+: strtolower value) := by
  have hzero : ∀ {s : Bytes}, 0 ∈ lower s ↔ 0 ∈ s := by
    intro s
    rw [mem_lower]
    constructor
    · rintro ⟨a, ha, h⟩
      exact (lower_facts a).2.2.mp h ▸ ha
    · exact fun h => ⟨0, h, (lower_facts 0).2.2.mpr rfl⟩
  by_cases hnul : 0 ∈ keyword
  · refine ⟨cString keyword, zero_notMem_cString keyword, fun hiff => ?_⟩
    have hfinds : Finds keyword (cString keyword) := by
      rw [Finds, if_pos hnul, chars, chars, cString_eq_self (zero_notMem_cString keyword)]
    have hmem := (hiff.mp hfinds).subset (hzero.mpr hnul)
    exact zero_notMem_cString keyword (hzero.mp hmem)
  · obtain ⟨b, hb, hnot⟩ := h
    have hge : 0x80 ≤ b := by
      refine UInt8.not_lt.mp fun hlt => hnot ⟨UInt8.pos_iff_ne_zero.mpr ?_, hlt⟩
      rintro rfl
      exact hnul hb
    have hlower : b ∈ lower keyword := mem_lower.mpr ⟨b, hb, by simp [(lower_facts b).2.1 hge]⟩
    obtain ⟨value, hvalue, hmisread⟩ := Utf8.exists_misread ⟨b, hlower, hge⟩
    have hvalue0 : 0 ∉ value := by
      intro h0
      rcases hvalue 0 h0 with h0 | h0
      · exact hnul (hzero.mp h0)
      · exact absurd h0 (by decide)
    have hself : lower value = value := by
      have hidem : ∀ a : UInt8, lower (lower [a]) = lower [a] := forall_byte (by decide +kernel)
      have hbyte : ∀ b ∈ value, lower [b] = [b] := by
        intro b hb
        rcases hvalue b hb with hb | hb
        · obtain ⟨a, -, hb⟩ := mem_lower.mp hb
          obtain rfl := List.mem_singleton.mp hb
          exact hidem a
        · exact (lower_facts b).2.1 hb
      rw [lower_eq_flatMap, List.flatMap_congr hbyte, List.flatMap_singleton']
    refine ⟨value, hvalue0, fun hiff => hmisread ?_⟩
    rw [Finds, if_neg hnul, chars_of_notMem hnul, chars_of_notMem hvalue0, hself] at hiff
    rw [hiff]
    change lower keyword <:+: lower value ↔ _
    rw [hself]

end Sqlite

/-! ## Customers -/

/-- The columns that `applyFilters` searches. -/
def searchedColumns : List Bytes :=
  [ascii "customer.name", ascii "customer.email", ascii "customer.company"]

namespace CustomerRow

open Sqlite

/-- A row under the names that a search gives its columns. -/
def column (r : CustomerRow) (name : Bytes) : Option Bytes :=
  if name = ascii "customer.name" then some r.name
  else if name = ascii "customer.email" then r.email
  else if name = ascii "customer.company" then r.company
  else none

/-- The texts that a search looks through. -/
def searched (r : CustomerRow) : List Bytes := r.name :: (r.email.toList ++ r.company.toList)

/-- The row contains the trimmed keyword, up to ASCII case. -/
def Contains (r : CustomerRow) (keywords : Bytes) : Prop :=
  trim keywords = [] ∨ ∃ value ∈ r.searched, strtolower (trim keywords) <:+: strtolower value

instance (r : CustomerRow) (keywords : Bytes) : Decidable (r.Contains keywords) := by
  unfold Contains
  infer_instance

/-- The characters of the row tell whether the keyword is there as its bytes do. -/
def ReadsAsWritten (r : CustomerRow) (keywords : Bytes) : Prop :=
  trim keywords = [] ∨ (pattern (trim keywords)).length ≤ likeLimit
    ∧ ((∃ value ∈ r.searched, Finds (trim keywords) value) ↔
      ∃ value ∈ r.searched, strtolower (trim keywords) <:+: strtolower value)

/-- A row that has a name and nothing else. -/
def named (name : Bytes) : CustomerRow where
  name
  email := none
  phone := none
  company := none
  status := CustomerStatus.default
  address := none
  notes := none
  id := 0
  avatarPath := none
  createdAt := ⟨0⟩
  updatedAt := none
  deletedAt := none

theorem searched_named (name : Bytes) : (named name).searched = [name] := rfl

theorem any_searchedColumns (r : CustomerRow) (p : Bytes → Bool) :
    (searchedColumns.any fun column => (r.column column).any p) = r.searched.any p := by
  have hname : r.column (ascii "customer.name") = some r.name := by simp [column]
  have hemail : r.column (ascii "customer.email") = r.email := by
    rw [column, if_neg (by decide +kernel), if_pos rfl]
  have hcompany : r.column (ascii "customer.company") = r.company := by
    rw [column, if_neg (by decide +kernel), if_neg (by decide +kernel), if_pos rfl]
  simp only [searchedColumns, List.any_cons, List.any_nil, hname, hemail, hcompany, searched,
    List.any_append, Bool.or_false, Option.any_some]
  cases r.email <;> cases r.company <;> simp

end CustomerRow

namespace CustomerEnv

/-- The setting where the database is SQLite. -/
def onSqlite (E : CustomerEnv) : CustomerEnv :=
  { E with weight := id, lower := Sqlite.lower, like := Sqlite.like 92 }

end CustomerEnv

namespace CustomerModel

open Sqlite

/-- The condition by which the model selects rows is the one that the search builds. -/
theorem matchesKeyword_onSqlite (E : CustomerEnv) (keywords : Bytes) (r : CustomerRow) :
    matchesKeyword E.onSqlite keywords r = true ↔
      trim keywords = [] ∨ ∃ value ∈ r.searched, Finds (trim keywords) value := by
  have hpattern : [37] ++ strtolower (escapeLikeKeyword (trim keywords)) ++ [37] =
      pattern (trim keywords) := rfl
  simp only [matchesKeyword, CustomerEnv.onSqlite, Bool.or_eq_true, decide_eq_true_eq,
    List.any_eq_true, Option.any_eq_true, hpattern, like_pattern]
  refine or_congr_right ?_
  constructor
  · rintro ⟨column, hcolumn, value, rfl, hvalue⟩
    refine ⟨value, ?_, hvalue⟩
    simpa [CustomerRow.searched, eq_comm] using hcolumn
  · rintro ⟨value, hmem, hvalue⟩
    refine ⟨some value, ?_, value, rfl, hvalue⟩
    simpa [CustomerRow.searched, eq_comm] using hmem

/-- A keyword search is a search for a literal substring in name, email and company exactly where
the characters of the row tell what its bytes do. They do in well-formed texts, and in whatever
texts without a NUL where the keyword is one of ASCII; every other keyword is misread somewhere. -/
theorem search_is_literal_iff (query : QueryBuilder) (keywords : Bytes) :
    ∃ added, applyKeywordSearch query searchedColumns (some keywords) =
        .ok ⟨query.wheres ++ added⟩
      ∧ (∀ r : CustomerRow, selects ⟨added⟩ r.column = .ok (decide (r.Contains keywords)) ↔
        r.ReadsAsWritten keywords)
      ∧ (Written (trim keywords) → (pattern (trim keywords)).length ≤ likeLimit →
        ∀ r : CustomerRow, (∀ value ∈ r.searched, Written value) → r.ReadsAsWritten keywords)
      ∧ ((∀ r : CustomerRow, (∀ value ∈ r.searched, 0 ∉ value) → r.ReadsAsWritten keywords) ↔
        trim keywords = [] ∨ (pattern (trim keywords)).length ≤ likeLimit
          ∧ ∀ b ∈ trim keywords, 0 < b ∧ b < 0x80) := by
  obtain ⟨added, hadded, hselects⟩ := @applyKeywordSearch_selects searchedColumns query
    (by simp [searchedColumns]) (by decide +kernel) keywords
  refine ⟨added, hadded, fun r => ?_, fun hwritten hlength r hr => ?_, fun h => ?_, ?_⟩
  · rw [hselects, r.any_searchedColumns]
    by_cases hempty : trim keywords = []
    · simp [hempty, CustomerRow.Contains, CustomerRow.ReadsAsWritten]
    · by_cases hlong : likeLimit < (pattern (trim keywords)).length
      · simp [hempty, hlong, CustomerRow.ReadsAsWritten, Nat.not_le.mpr hlong]
      · rw [if_neg hempty, if_neg hlong, Except.ok.injEq, Bool.eq_iff_iff]
        simp only [List.any_eq_true, decide_eq_true_eq, CustomerRow.Contains,
          CustomerRow.ReadsAsWritten, hempty, false_or, Nat.not_lt.mp hlong, true_and]
  · exact .inr ⟨hlength, exists_congr fun value =>
      and_congr_right fun hvalue => finds_of_written hwritten (hr value hvalue)⟩
  · by_contra hnot
    rw [not_or] at hnot
    obtain ⟨hne, hnot⟩ := hnot
    -- A row of one text, which the search misreads.
    have hone : ∀ value : Bytes, 0 ∉ value → (pattern (trim keywords)).length ≤ likeLimit
        ∧ (Finds (trim keywords) value ↔ strtolower (trim keywords) <:+: strtolower value) := by
      intro value hvalue
      have hrow := (h (CustomerRow.named value)
        (by simpa [CustomerRow.searched_named] using hvalue)).resolve_left hne
      simpa [CustomerRow.searched_named] using hrow
    refine hnot ⟨(hone [] (by simp)).1, ?_⟩
    by_contra hbytes
    simp only [not_forall] at hbytes
    obtain ⟨b, hb, hbyte⟩ := hbytes
    obtain ⟨value, hvalue, hmisfound⟩ := exists_misfound ⟨b, hb, hbyte⟩
    exact hmisfound (hone value hvalue).2
  · rintro (hempty | ⟨hlength, hascii⟩) r hr
    · exact .inl hempty
    · by_cases hempty : trim keywords = []
      · exact .inl hempty
      · exact .inr ⟨hlength, exists_congr fun value =>
          and_congr_right fun hvalue => finds_of_ascii hempty hascii (hr value hvalue)⟩

/-- A name that a client may send as `"x\u0000ada"` is not found by its last three letters. -/
theorem nul_hides_name :
    (applyKeywordSearch ⟨[]⟩ searchedColumns (some (ascii "ada"))).map
        (fun query => selects query (CustomerRow.named ([120, 0] ++ ascii "ada")).column) =
      .ok (.ok false)
    ∧ (CustomerRow.named ([120, 0] ++ ascii "ada")).Contains (ascii "ada") := by
  decide +kernel

end CustomerModel

end SlimStarter
