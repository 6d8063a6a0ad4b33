import SlimStarter.Php

/-!
# SQL texts

How a database reads the text of a statement: `lex` splits it into words, symbols and string
literals, by the literals of its dialect. A doubled quote inside a literal stands for one in every
dialect; MySQL and MariaDB, in their default mode, also take a backslash inside a literal for an
escape of the next character, which to SQLite is a character like any other. A text that ends inside
a literal is no statement at all.
-/

namespace SlimStarter

/-- The drivers that `DB_DRIVER` can name. -/
inductive Driver where
  | mySql
  | mariaDb
  | sqlite
deriving DecidableEq, Repr

namespace Sql

/-- A backslash inside a literal escapes the next character. -/
def backslashEscapes : Driver → Bool
  | .mySql | .mariaDb => true
  | .sqlite => false

/-- What a backslash and this character stand for in a literal. -/
def unescape (b : UInt8) : Bytes :=
  if b = 48 then [0] else if b = 98 then [8] else if b = 110 then [10] else if b = 114 then [13]
  else if b = 116 then [9] else if b = 90 then [26]
  else if b = 37 ∨ b = 95 then [92, b]
  else [b]

/-- A word is a name, which dots may qualify, or a number. -/
inductive Token where
  | word (s : Bytes)
  | symbol (b : UInt8)
  | literal (s : Bytes)
deriving DecidableEq, Repr

def isSpace (b : UInt8) : Bool := b = 32 || (9 ≤ b && b ≤ 13)

def isLetter (b : UInt8) : Bool := (65 ≤ b && b ≤ 90) || (97 ≤ b && b ≤ 122) || b = 95

/-- A byte of a word: a letter, a digit, an underscore or a dot. -/
def isWordByte (b : UInt8) : Bool := isLetter b || isDigit b || b = 46

/-- Where the lexer stands, with what it has read of the token: between tokens, in a word, in a
literal, past a backslash in one, or past a quote that may close it. -/
inductive Scan where
  | between
  | word (s : Bytes)
  | literal (s : Bytes)
  | escape (s : Bytes)
  | closing (s : Bytes)
deriving DecidableEq, Repr

structure Lexer where
  tokens : List Token
  scan : Scan
deriving DecidableEq, Repr

namespace Lexer

/-- Read a byte that starts a token, or stands between two. -/
def start (tokens : List Token) (b : UInt8) : Lexer :=
  if b = 39 then ⟨tokens, .literal []⟩
  else if isWordByte b then ⟨tokens, .word [b]⟩
  else if isSpace b then ⟨tokens, .between⟩
  else ⟨tokens ++ [.symbol b], .between⟩

/-- Read one byte; 39 is the quote and 92 the backslash. -/
def step (d : Driver) (c : Lexer) (b : UInt8) : Lexer :=
  match c.scan with
  | .between => start c.tokens b
  | .word s =>
    if isWordByte b then ⟨c.tokens, .word (s ++ [b])⟩ else start (c.tokens ++ [.word s]) b
  | .literal s =>
    if b = 39 then ⟨c.tokens, .closing s⟩
    else if b = 92 ∧ backslashEscapes d then ⟨c.tokens, .escape s⟩
    else ⟨c.tokens, .literal (s ++ [b])⟩
  | .escape s => ⟨c.tokens, .literal (s ++ unescape b)⟩
  | .closing s =>
    if b = 39 then ⟨c.tokens, .literal (s ++ [39])⟩ else start (c.tokens ++ [.literal s]) b

/-- Read a text. -/
def run (d : Driver) (c : Lexer) (s : Bytes) : Lexer := s.foldl (step d) c

/-- The tokens, unless the text ended inside a literal. -/
def finish (c : Lexer) : Option (List Token) :=
  match c.scan with
  | .between => some c.tokens
  | .word s => some (c.tokens ++ [.word s])
  | .closing s => some (c.tokens ++ [.literal s])
  | .literal _ | .escape _ => none

end Lexer

/-- The tokens of a text. -/
def lex (d : Driver) (s : Bytes) : Option (List Token) := (Lexer.run d ⟨[], .between⟩ s).finish

/-! ## Reading one part after the other -/

namespace Lexer

variable {d : Driver} {c : Lexer} {s t : Bytes} {tokens : List Token}

@[simp] theorem run_nil : run d c [] = c := rfl

@[simp] theorem run_cons (b : UInt8) : run d c (b :: s) = run d (step d c b) s := rfl

theorem run_append : run d c (s ++ t) = run d (run d c s) t := List.foldl_append

theorem step_tokens (tokens : List Token) (scan : Scan) (b : UInt8) :
    step d ⟨tokens, scan⟩ b =
      ⟨tokens ++ (step d ⟨[], scan⟩ b).tokens, (step d ⟨[], scan⟩ b).scan⟩ := by
  have hstart : ∀ tokens tokens' : List Token, start (tokens ++ tokens') b =
      ⟨tokens ++ (start tokens' b).tokens, (start tokens' b).scan⟩ := by
    intro tokens tokens'
    unfold start
    split_ifs <;> simp
  cases scan with
  | between => simpa [step] using hstart tokens []
  | word w =>
    simp only [step]
    split_ifs
    · simp
    · exact hstart tokens _
  | literal w =>
    simp only [step]
    split_ifs <;> simp
  | escape w => simp [step]
  | closing w =>
    simp only [step]
    split_ifs
    · simp
    · exact hstart tokens _

/-- The tokens read so far do not matter to what follows. -/
theorem run_tokens (tokens : List Token) (scan : Scan) (s : Bytes) :
    run d ⟨tokens, scan⟩ s =
      ⟨tokens ++ (run d ⟨[], scan⟩ s).tokens, (run d ⟨[], scan⟩ s).scan⟩ := by
  induction s generalizing tokens scan with
  | nil => simp
  | cons b s ih =>
    rw [run_cons, run_cons, step_tokens, ih, ih (step d ⟨[], scan⟩ b).tokens]
    simp

theorem run_word (w : Bytes) (h : ∀ b ∈ s, isWordByte b = true) :
    run d ⟨tokens, .word w⟩ s = ⟨tokens, .word (w ++ s)⟩ := by
  induction s generalizing w with
  | nil => simp
  | cons b s ih =>
    obtain ⟨hb, hs⟩ := List.forall_mem_cons.mp h
    have hstep : step d ⟨tokens, .word w⟩ b = ⟨tokens, .word (w ++ [b])⟩ := by simp [step, hb]
    rw [run_cons, hstep, ih _ hs, List.append_assoc, List.singleton_append]

theorem isWordByte_ne {b : UInt8} (h : isWordByte b = true) : b ≠ 39 ∧ b ≠ 92 := by
  constructor <;> rintro rfl <;> exact absurd h (by decide)

theorem run_name (hne : s ≠ []) (h : ∀ b ∈ s, isWordByte b = true) :
    run d ⟨tokens, .between⟩ s = ⟨tokens, .word s⟩ := by
  obtain ⟨b, s, rfl⟩ := List.exists_cons_of_ne_nil hne
  obtain ⟨hb, hs⟩ := List.forall_mem_cons.mp h
  have hstep : step d ⟨tokens, .between⟩ b = ⟨tokens, .word [b]⟩ := by
    simp [step, start, hb, (isWordByte_ne hb).1]
  rw [run_cons, hstep, run_word _ hs]
  rfl

/-- Inside a literal, what is neither a quote nor a backslash belongs to it. -/
theorem run_literal (w : Bytes) (h : ∀ b ∈ s, b ≠ 39 ∧ b ≠ 92) :
    run d ⟨tokens, .literal w⟩ s = ⟨tokens, .literal (w ++ s)⟩ := by
  induction s generalizing w with
  | nil => simp
  | cons b s ih =>
    obtain ⟨hb, hs⟩ := List.forall_mem_cons.mp h
    have hstep : step d ⟨tokens, .literal w⟩ b = ⟨tokens, .literal (w ++ [b])⟩ := by
      simp [step, hb.1, hb.2]
    rw [run_cons, hstep, ih _ hs, List.append_assoc, List.singleton_append]

end Lexer

end Sql

end SlimStarter
