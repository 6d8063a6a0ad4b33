import SlimStarter.Php

/-!
# CSV files

`fgetcsv($handle, escape: '')` in a single-byte locale, called until the file ends, and the lines
that `fgets` counts. A line ends at a line feed. Blanks before an opening quote are dropped, a
doubled quote inside quotes stands for one, what follows a closing quote up to the delimiter belongs
to the field, and a field outside quotes loses a line end at its end. A blank line is a record of
one null field.
-/

namespace SlimStarter

namespace Csv

/-- The lines `fgets` reads, each with its line feed. -/
def lines : Bytes → List Bytes
  | [] => []
  | b :: s =>
    if b = 10 then [b] :: lines s
    else
      match lines s with
      | [] => [[b]]
      | line :: rest => (b :: line) :: rest

/-- The line end that a text ends in. -/
def lineEnd (s : Bytes) : Bytes :=
  if [13, 10] <:+ s then [13, 10] else if [10] <:+ s then [10] else if [13] <:+ s then [13] else []

def withoutLineEnd (s : Bytes) : Bytes := s.take (s.length - (lineEnd s).length)

def isSpace (b : UInt8) : Bool := b = 32 || (9 ≤ b && b ≤ 13)

/-- Where the scan of a field stands, with what the field holds so far: in the blanks before it,
in a field without quotes, inside quotes, past a quote that may close them, or past them. -/
inductive Field where
  | start (s : Bytes)
  | plain (s : Bytes)
  | quoted (s : Bytes)
  | closing (s : Bytes)
  | after (s : Bytes)
deriving DecidableEq, Repr

/-- A record in progress: its complete fields and the one being read. -/
structure Scan where
  fields : List Bytes
  field : Field
deriving DecidableEq, Repr

namespace Scan

/-- A record before its first field. -/
def empty : Scan := ⟨[], .start []⟩

/-- End the field at a delimiter. -/
def next (c : Scan) (field : Bytes) : Scan := ⟨c.fields ++ [field], .start []⟩

/-- Read one byte of a line; 44 is the delimiter and 34 the quote. -/
def step (c : Scan) (b : UInt8) : Scan :=
  match c.field with
  | .start s =>
    if b = 44 then c.next (withoutLineEnd s)
    else if b = 34 then { c with field := .quoted [] }
    else if isSpace b then { c with field := .start (s ++ [b]) }
    else { c with field := .plain (s ++ [b]) }
  | .plain s =>
    if b = 44 then c.next (withoutLineEnd s) else { c with field := .plain (s ++ [b]) }
  | .quoted s =>
    if b = 34 then { c with field := .closing s } else { c with field := .quoted (s ++ [b]) }
  | .closing s =>
    if b = 34 then { c with field := .quoted (s ++ [b]) }
    else if b = 44 then c.next s
    else { c with field := .after (s ++ [b]) }
  | .after s => if b = 44 then c.next s else { c with field := .after (s ++ [b]) }

/-- Read a line: the record that ends with it, or the one that goes on inside quotes. -/
def line (c : Scan) (s : Bytes) : Scan ⊕ List Bytes :=
  let c := (withoutLineEnd s).foldl step c
  match c.field with
  | .start f => .inr (c.fields ++ [withoutLineEnd f])
  | .plain f => .inr (c.fields ++ [withoutLineEnd f])
  | .quoted f => .inl { c with field := .quoted (f ++ lineEnd s) }
  | .closing f => .inr (c.fields ++ [f])
  | .after f => .inr (c.fields ++ [f])

/-- The record of a file that ends inside quotes. -/
def unterminated (c : Scan) : List Bytes :=
  match c.field with
  | .start f | .plain f | .quoted f | .closing f | .after f => c.fields ++ [f]

end Scan

/-- A record: fields, of which a blank line has one that is null. -/
abbrev Record := List (Option Bytes)

/-- The records of the lines, where the first of them may go on in a record in progress. -/
def recordsFrom : Option Scan → List Bytes → List Record
  | none, [] => []
  | some c, [] => [c.unterminated.map some]
  | none, s :: rest =>
    if withoutLineEnd s = [] then [none] :: recordsFrom none rest
    else
      match Scan.empty.line s with
      | .inr fields => fields.map some :: recordsFrom none rest
      | .inl c =>
        -- A quote left open on a last line without a line end voids the record.
        if lineEnd s = [] then [none] :: recordsFrom none rest else recordsFrom (some c) rest
  | some c, s :: rest =>
    match c.line s with
    | .inr fields => fields.map some :: recordsFrom none rest
    | .inl c => recordsFrom (some c) rest

/-- The records of a file. -/
def records (contents : Bytes) : List Record := recordsFrom none (lines contents)

end Csv

end SlimStarter
