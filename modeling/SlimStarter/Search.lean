import SlimStarter.Customer.Model
import SlimStarter.Sql

/-!
# The keyword search of `BaseModel`

`applyKeywordSearch` adds one group of `LIKE` predicates to a query, one for each column. On SQLite
its text is these predicates (`lex_sqlite`). On MySQL and MariaDB the backslash of `ESCAPE '\'`
escapes the quote that should close the literal, so that the text ends inside a literal
(`lex_of_backslashEscapes`): the search reads as it was written on SQLite only
(`search_reads_alike_iff`).
-/

namespace SlimStarter

/-- `InvalidArgumentException`. -/
structure InvalidArgument where
  message : Bytes
deriving DecidableEq, Repr

structure RawExpression where
  sql : Bytes
  bindings : List Bytes
deriving DecidableEq, Repr

/-- The conditions of a `where(function (ConditionGroup $group) ...)`: the first, and those that
`orWhere` added. -/
structure ConditionGroup where
  conditions : List RawExpression
deriving DecidableEq, Repr

namespace ConditionGroup

/-- The text of the group, in which the raw fragments stand unchanged. -/
def sql (group : ConditionGroup) : Bytes :=
  ascii "(" ++ implode (ascii " OR ") (group.conditions.map (·.sql)) ++ ascii ")"

def bindings (group : ConditionGroup) : List Bytes := group.conditions.flatMap (·.bindings)

end ConditionGroup

/-- The groups that were added to a query. -/
structure QueryBuilder where
  wheres : List ConditionGroup
deriving DecidableEq, Repr

namespace BaseModel

open Sql (Token Lexer Scan isLetter isWordByte lex backslashEscapes)

def strtoupper (s : Bytes) : Bytes := s.map fun b => if 97 ≤ b ∧ b ≤ 122 then b - 32 else b

/-- A name of the pattern `[A-Za-z_][A-Za-z0-9_]*`. -/
def isName : Bytes → Bool
  | [] => false
  | b :: s => isLetter b && s.all fun b => isLetter b || isDigit b

/-- The pattern of `columnExpression`: names, with dots between them. -/
def isIdentifier (column : Bytes) : Bool := (explode 46 column).all isName

def columnExpression (function column : Bytes) : Except InvalidArgument RawExpression :=
  let normalizedFunction := strtoupper function
  if normalizedFunction ∉ [ascii "DATE", ascii "LOWER", ascii "MONTH", ascii "YEAR"] then
    .error ⟨ascii "Unsupported SQL column function: " ++ function⟩
  else if ¬ isIdentifier column then
    .error ⟨ascii "Invalid SQL column identifier: " ++ column⟩
  else .ok ⟨normalizedFunction ++ ascii "(" ++ column ++ ascii ")", []⟩

/-- The predicate of one column. -/
def predicate (pattern column : Bytes) : Except InvalidArgument RawExpression := do
  let expression ← columnExpression (ascii "LOWER") column
  pure ⟨expression.sql ++ ascii " LIKE ? ESCAPE '\\'", [pattern]⟩

def applyKeywordSearch (query : QueryBuilder) (columns : List Bytes) (keywords : Option Bytes) :
    Except InvalidArgument QueryBuilder := do
  let keywords := trim (keywords.getD [])
  if keywords = [] ∨ columns = [] then pure query
  else do
    let pattern := [37] ++ strtolower (CustomerModel.escapeLikeKeyword keywords) ++ [37]
    let conditions ← columns.mapM (predicate pattern)
    pure ⟨query.wheres ++ [⟨conditions⟩]⟩

/-- `LOWER(column) LIKE ? ESCAPE` and a literal of one backslash. -/
def predicateTokens (column : Bytes) : List Token :=
  [.word (ascii "LOWER"), .symbol 40, .word column, .symbol 41, .word (ascii "LIKE"), .symbol 63,
    .word (ascii "ESCAPE"), .literal [92]]

/-- One predicate for each column, with `OR` between them, in parentheses. -/
def searchTokens (columns : List Bytes) : List Token :=
  [.symbol 40] ++ [Token.word (ascii "OR")].intercalate (columns.map predicateTokens)
    ++ [.symbol 41]

variable {d : Driver} {column pattern : Bytes} {columns : List Bytes} {tokens : List Token}
variable {query : QueryBuilder} {keywords : Option Bytes}

theorem mem_implode {separator : Bytes} {pieces : List Bytes} {b : UInt8}
    (h : b ∈ implode separator pieces) : b ∈ separator ∨ ∃ piece ∈ pieces, b ∈ piece := by
  induction pieces with
  | nil => simp [implode] at h
  | cons piece pieces ih =>
    rcases pieces with _ | ⟨piece', pieces⟩
    · exact .inr ⟨piece, by simp, by simpa [implode] using h⟩
    · simp only [implode, List.intercalate_cons_cons, List.mem_append] at h
      rcases h with (h | h) | h
      · exact .inr ⟨piece, by simp, h⟩
      · exact .inl h
      · rcases ih h with h | ⟨p, hp, h⟩
        · exact .inl h
        · exact .inr ⟨p, List.mem_cons_of_mem _ hp, h⟩

theorem isWordByte_of_isIdentifier (h : isIdentifier column = true) :
    column ≠ [] ∧ ∀ b ∈ column, isWordByte b = true := by
  constructor
  · rintro rfl
    exact absurd h (by decide)
  · intro b hb
    have hjoin : implode [46] (explode 46 column) = column := List.intercalate_splitOn 46
    rw [← hjoin] at hb
    rcases mem_implode hb with hb | ⟨piece, hpiece, hb⟩
    · simp [isWordByte, List.mem_singleton.mp hb]
    · have hname := List.all_eq_true.mp h piece hpiece
      rcases piece with _ | ⟨b', piece⟩
      · simp at hb
      · simp only [isName, Bool.and_eq_true, List.all_eq_true] at hname
        rcases List.mem_cons.mp hb with rfl | hb
        · simp [isWordByte, hname.1]
        · simp [isWordByte, hname.2 b hb]

/-- The text of one predicate. -/
def fragment (column : Bytes) : Bytes :=
  ascii "LOWER(" ++ column ++ ascii ") LIKE ? ESCAPE '\\'"

theorem predicate_eq (h : isIdentifier column = true) :
    predicate pattern column = .ok ⟨fragment column, [pattern]⟩ := by
  have hfunction : strtoupper (ascii "LOWER") ∈
      [ascii "DATE", ascii "LOWER", ascii "MONTH", ascii "YEAR"] := by decide +kernel
  have hopen : strtoupper (ascii "LOWER") ++ ascii "(" = ascii "LOWER(" := by decide +kernel
  have hclose : ascii ")" ++ ascii " LIKE ? ESCAPE '\\'" = ascii ") LIKE ? ESCAPE '\\'" := by
    decide +kernel
  have hexpression : columnExpression (ascii "LOWER") column =
      .ok ⟨strtoupper (ascii "LOWER") ++ ascii "(" ++ column ++ ascii ")", []⟩ := by
    simp only [columnExpression, not_not.mpr hfunction, h, if_false, not_true]
  have hjoin : fragment column =
      strtoupper (ascii "LOWER") ++ ascii "(" ++ column ++ ascii ")"
        ++ ascii " LIKE ? ESCAPE '\\'" := by
    rw [fragment, hopen, List.append_assoc _ (ascii ")"), hclose]
  unfold predicate
  rw [hexpression, hjoin]
  rfl

theorem mapM_predicate (h : ∀ column ∈ columns, isIdentifier column = true) :
    columns.mapM (predicate pattern) =
      .ok (columns.map fun column => ⟨fragment column, [pattern]⟩) := by
  induction columns with
  | nil => rfl
  | cons column columns ih =>
    obtain ⟨hcolumn, hcolumns⟩ := List.forall_mem_cons.mp h
    rw [List.mapM_cons, predicate_eq hcolumn, ih hcolumns]
    rfl

/-- The group that a search adds. -/
def searchGroup (columns : List Bytes) (keywords : Bytes) : ConditionGroup :=
  ⟨columns.map fun column =>
    ⟨fragment column, [[37] ++ strtolower (CustomerModel.escapeLikeKeyword keywords) ++ [37]]⟩⟩

theorem applyKeywordSearch_eq (hne : columns ≠ [])
    (h : ∀ column ∈ columns, isIdentifier column = true)
    (hkeywords : trim (keywords.getD []) ≠ []) :
    applyKeywordSearch query columns keywords =
      .ok ⟨query.wheres ++ [searchGroup columns (trim (keywords.getD []))]⟩ := by
  simp only [applyKeywordSearch, hkeywords, hne, or_self, if_false, mapM_predicate h]
  rfl

theorem searchGroup_sql (columns : List Bytes) (keywords : Bytes) :
    (searchGroup columns keywords).sql =
      ascii "(" ++ implode (ascii " OR ") (columns.map fragment) ++ ascii ")" := by
  simp only [ConditionGroup.sql, searchGroup, List.map_map]
  rfl

theorem searchGroup_bindings (columns : List Bytes) (keywords : Bytes) :
    (searchGroup columns keywords).bindings = columns.map fun _ =>
      [37] ++ strtolower (CustomerModel.escapeLikeKeyword keywords) ++ [37] := by
  induction columns with
  | nil => rfl
  | cons column columns ih =>
    rw [List.map_cons, ← ih]
    rfl

/-- What stands before the literal of a predicate. -/
def fragmentHead (column : Bytes) : Bytes := ascii "LOWER(" ++ column ++ ascii ") LIKE ? ESCAPE "

theorem fragment_eq : fragment column = fragmentHead column ++ [39, 92, 39] := by
  have hend : ascii ") LIKE ? ESCAPE '\\'" = ascii ") LIKE ? ESCAPE " ++ [39, 92, 39] := by
    decide +kernel
  simp only [fragment, fragmentHead, hend, List.append_assoc]

/-- Up to the literal the dialects agree. -/
theorem run_fragmentHead (d : Driver) (tokens : List Token) (h : isIdentifier column = true) :
    Lexer.run d ⟨tokens, .between⟩ (fragmentHead column) =
      ⟨tokens ++ (predicateTokens column).dropLast, .between⟩ := by
  obtain ⟨hne, hword⟩ := isWordByte_of_isIdentifier h
  have hopen : Lexer.run d ⟨[], .between⟩ (ascii "LOWER(") =
      ⟨[.word (ascii "LOWER"), .symbol 40], .between⟩ := by
    cases d <;> decide +kernel
  have hrest : Lexer.run d ⟨[], .between⟩ (ascii " LIKE ? ESCAPE ") =
      ⟨[.word (ascii "LIKE"), .symbol 63, .word (ascii "ESCAPE")], .between⟩ := by
    cases d <;> decide +kernel
  have hclose : ascii ") LIKE ? ESCAPE " = 41 :: ascii " LIKE ? ESCAPE " := by decide +kernel
  have hfirst : ∀ tokens, Lexer.step d ⟨tokens, .word column⟩ 41 =
      ⟨tokens ++ [.word column] ++ [.symbol 41], .between⟩ := fun _ => rfl
  have hlower : Lexer.run d ⟨tokens, .between⟩ (ascii "LOWER(") =
      ⟨tokens ++ [.word (ascii "LOWER"), .symbol 40], .between⟩ := by
    rw [Lexer.run_tokens, hopen]
  unfold fragmentHead
  rw [Lexer.run_append, Lexer.run_append, hlower, Lexer.run_name hne hword, hclose, Lexer.run_cons,
    hfirst, Lexer.run_tokens, hrest]
  simp [predicateTokens]

/-! ## On SQLite -/

theorem run_fragment_sqlite (h : isIdentifier column = true) :
    Lexer.run .sqlite ⟨tokens, .between⟩ (fragment column) =
      ⟨tokens ++ (predicateTokens column).dropLast, .closing [92]⟩ := by
  rw [fragment_eq, Lexer.run_append, run_fragmentHead .sqlite tokens h]
  rfl

theorem run_fragments_sqlite (tokens : List Token) (hne : columns ≠ [])
    (h : ∀ column ∈ columns, isIdentifier column = true) :
    ∃ read, Lexer.run .sqlite ⟨tokens, .between⟩
          (implode (ascii " OR ") (columns.map fragment)) = ⟨tokens ++ read, .closing [92]⟩
      ∧ read ++ [.literal [92]] =
        [Token.word (ascii "OR")].intercalate (columns.map predicateTokens) := by
  induction columns generalizing tokens with
  | nil => exact absurd rfl hne
  | cons column columns ih =>
    obtain ⟨hcolumn, hcolumns⟩ := List.forall_mem_cons.mp h
    rcases columns with _ | ⟨column', columns⟩
    · refine ⟨(predicateTokens column).dropLast, ?_, by simp [predicateTokens]⟩
      simpa [implode] using run_fragment_sqlite hcolumn
    · have hor : ∀ tokens, Lexer.run .sqlite ⟨tokens, .closing [92]⟩ (ascii " OR ") =
          ⟨tokens ++ [.literal [92], .word (ascii "OR")], .between⟩ := by
        intro tokens
        have hclosed : Lexer.run .sqlite ⟨[], .closing [92]⟩ (ascii " OR ") =
            ⟨[.literal [92], .word (ascii "OR")], .between⟩ := by decide +kernel
        rw [Lexer.run_tokens, hclosed]
      obtain ⟨read, hrun, hread⟩ := ih (tokens ++ (predicateTokens column).dropLast
        ++ [.literal [92], .word (ascii "OR")]) (by simp) hcolumns
      refine ⟨(predicateTokens column).dropLast ++ [.literal [92], .word (ascii "OR")] ++ read,
        ?_, ?_⟩
      · simp only [List.map_cons, implode, List.intercalate_cons_cons] at hrun ⊢
        rw [Lexer.run_append, Lexer.run_append, run_fragment_sqlite hcolumn, hor, hrun]
        simp only [List.append_assoc]
      · simp only [List.map_cons, List.intercalate_cons_cons] at hread ⊢
        rw [List.append_assoc, hread]
        simp [predicateTokens]

/-- On SQLite the text is one predicate for each column. -/
theorem lex_sqlite (hne : columns ≠ []) (h : ∀ column ∈ columns, isIdentifier column = true)
    (keywords : Bytes) :
    lex .sqlite (searchGroup columns keywords).sql = some (searchTokens columns) := by
  have hopen : Lexer.run .sqlite ⟨[], .between⟩ (ascii "(") = ⟨[.symbol 40], .between⟩ := by
    decide +kernel
  have hclose : ∀ tokens, Lexer.run .sqlite ⟨tokens, .closing [92]⟩ (ascii ")") =
      ⟨tokens ++ [.literal [92], .symbol 41], .between⟩ := by
    intro tokens
    have hclosed : Lexer.run .sqlite ⟨[], .closing [92]⟩ (ascii ")") =
        ⟨[.literal [92], .symbol 41], .between⟩ := by decide +kernel
    rw [Lexer.run_tokens, hclosed]
  obtain ⟨read, hrun, hread⟩ := run_fragments_sqlite [.symbol 40] hne h
  unfold lex searchTokens
  rw [searchGroup_sql, Lexer.run_append, Lexer.run_append, hopen, hrun, hclose, ← hread]
  simp [Lexer.finish]

/-! ## Where a backslash escapes -/

/-- The lexer stands inside a literal. -/
def Inside (c : Lexer) : Prop := ∃ tokens w, c = ⟨tokens, .literal w⟩

theorem inside_run {s : Bytes} {c : Lexer} (hs : ∀ b ∈ s, b ≠ 39 ∧ b ≠ 92) (h : Inside c) :
    Inside (Lexer.run d c s) := by
  obtain ⟨tokens, w, rfl⟩ := h
  exact ⟨tokens, _, Lexer.run_literal w hs⟩

theorem fragmentHead_plain (h : isIdentifier column = true) :
    ∀ b ∈ fragmentHead column, b ≠ 39 ∧ b ≠ 92 := by
  have hliteral : ∀ b ∈ ascii "LOWER(" ++ ascii ") LIKE ? ESCAPE ", b ≠ 39 ∧ b ≠ 92 := by
    decide +kernel
  intro b hb
  simp only [fragmentHead, List.mem_append] at hb hliteral
  rcases hb with (hb | hb) | hb
  · exact hliteral b (.inl hb)
  · exact Lexer.isWordByte_ne ((isWordByte_of_isIdentifier h).2 b hb)
  · exact hliteral b (.inr hb)

/-- A predicate that starts between two tokens, or inside a literal, leaves the lexer inside one. -/
theorem inside_fragment {c : Lexer} (hd : backslashEscapes d = true)
    (h : isIdentifier column = true) (hc : Inside c ∨ c.scan = .between) :
    Inside (Lexer.run d c (fragment column)) := by
  rw [fragment_eq, Lexer.run_append]
  rcases hc with hinside | hbetween
  · -- The quote closes the literal, the backslash is a symbol, and the last quote opens another.
    obtain ⟨tokens, w, hrun⟩ := inside_run (d := d) (fragmentHead_plain h) hinside
    rw [hrun]
    exact ⟨tokens ++ [.literal w] ++ [.symbol 92], [], rfl⟩
  · -- The backslash escapes the last quote.
    obtain ⟨tokens, scan⟩ := c
    obtain rfl : scan = .between := hbetween
    rw [run_fragmentHead d tokens h]
    refine ⟨tokens ++ (predicateTokens column).dropLast, [39], ?_⟩
    simp [Lexer.step, Lexer.start, hd, Sql.unescape]

theorem inside_fragments {c : Lexer} (hd : backslashEscapes d = true) (hne : columns ≠ [])
    (h : ∀ column ∈ columns, isIdentifier column = true) (hc : Inside c ∨ c.scan = .between) :
    Inside (Lexer.run d c (implode (ascii " OR ") (columns.map fragment))) := by
  induction columns generalizing c with
  | nil => exact absurd rfl hne
  | cons column columns ih =>
    obtain ⟨hcolumn, hcolumns⟩ := List.forall_mem_cons.mp h
    have hfirst := inside_fragment hd hcolumn hc
    rcases columns with _ | ⟨column', columns⟩
    · simpa [implode] using hfirst
    · have hor : Inside (Lexer.run d (Lexer.run d c (fragment column)) (ascii " OR ")) :=
        inside_run (by decide +kernel) hfirst
      have hrest := ih (by simp) hcolumns (.inl hor)
      simp only [List.map_cons, implode, List.intercalate_cons_cons] at hrest ⊢
      rwa [Lexer.run_append, Lexer.run_append]

/-- On MySQL and MariaDB the text ends inside a literal. -/
theorem lex_of_backslashEscapes (hd : backslashEscapes d = true) (hne : columns ≠ [])
    (h : ∀ column ∈ columns, isIdentifier column = true) (keywords : Bytes) :
    lex d (searchGroup columns keywords).sql = none := by
  have hopen : (Lexer.run d ⟨[], .between⟩ (ascii "(")).scan = .between := by
    cases d <;> decide +kernel
  have hinside := inside_fragments hd hne h (.inr hopen)
  have hclose : Inside (Lexer.run d _ (ascii ")")) := inside_run (by decide +kernel) hinside
  unfold lex
  rw [searchGroup_sql, Lexer.run_append, Lexer.run_append]
  obtain ⟨tokens, w, hrun⟩ := hclose
  rw [hrun]
  rfl

/-- The search adds a group whose text is one `LIKE` predicate for each column, with `OR` between
them and an escape character that is the backslash, exactly on SQLite. -/
theorem search_reads_alike_iff (hne : columns ≠ [])
    (h : ∀ column ∈ columns, isIdentifier column = true)
    (hkeywords : trim (keywords.getD []) ≠ []) :
    (∃ group, applyKeywordSearch query columns keywords = .ok ⟨query.wheres ++ [group]⟩
        ∧ group.bindings.length = columns.length ∧ lex d group.sql = some (searchTokens columns)) ↔
      d = .sqlite := by
  rw [applyKeywordSearch_eq hne h hkeywords]
  constructor
  · rintro ⟨group, hgroup, -, hlex⟩
    simp only [Except.ok.injEq, QueryBuilder.mk.injEq, List.append_cancel_left_eq, List.cons.injEq,
      and_true] at hgroup
    subst hgroup
    by_contra hd
    have hescapes : backslashEscapes d = true := by
      cases d
      · rfl
      · rfl
      · exact absurd rfl hd
    rw [lex_of_backslashEscapes hescapes hne h] at hlex
    cases hlex
  · rintro rfl
    refine ⟨_, rfl, ?_, lex_sqlite hne h _⟩
    rw [searchGroup_bindings, List.length_map]

end BaseModel

open BaseModel

theorem search_reads_alike_sample :
    ∃ group, applyKeywordSearch ⟨[]⟩ [ascii "customer.name", ascii "customer.email"]
          (some (ascii "ada")) = .ok ⟨[group]⟩
        ∧ group.bindings.length = 2
        ∧ Sql.lex .sqlite group.sql =
          some (searchTokens [ascii "customer.name", ascii "customer.email"]) :=
  (@search_reads_alike_iff .sqlite [ascii "customer.name", ascii "customer.email"] ⟨[]⟩
    (some (ascii "ada")) (by simp) (by decide +kernel) (by decide +kernel)).mpr rfl

/-- On MySQL the text of a search by name ends inside a literal. -/
theorem search_ends_inside_literal :
    (applyKeywordSearch ⟨[]⟩ [ascii "customer.name"] (some (ascii "ada"))).toOption.map
      (fun query => query.wheres.map fun group => Sql.lex .mySql group.sql) = some [none] := by
  decide +kernel

end SlimStarter
