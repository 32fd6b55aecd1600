import CodeAtlas.Text.Basic

set_option autoImplicit false

/-! # Dialects of separated tables

The engine that keeps a graph reads tables in any dialect: a delimiter between fields, a quote around
a field, and an escape before a quote inside one. A row ends at a line feed, at a carriage return, or
at both. A table is scanned character by character (`Scanner.step`), and a quote that is not closed,
or closed in the middle of a field, makes the whole table unreadable.

Quote and escape are not told but found out (`Dialect.detect`): every dialect of a list of candidates
is tried on the first rows, and among those that give the expected number of columns one that puts its
quote or escape to use comes before one that does not. A character that the chosen dialect does not
use is set to NUL.
-/

namespace CodeAtlas

structure Dialect where
  delimiter : Char
  quote : Char
  escape : Char
deriving DecidableEq

namespace Dialect

/-- The character that stands for none. -/
def unused : Char := Char.ofNat 0

def doublesQuotes (d : Dialect) : Bool := d.escape == unused || d.escape == d.quote

/-- Does a field in quotes end before this character? -/
def endsQuoted (d : Dialect) (c : Char) : Bool := c == d.delimiter || c == ']'

def endsLine (c : Char) : Bool := c == '\n' || c == '\r'

end Dialect

/-! ## Scanning -/

inductive ScanMode where
  /-- At the start of a field. -/
  | start
  /-- In a field without quotes. -/
  | bare
  /-- In a field in quotes. -/
  | quoted
  /-- After the quote that ends a field, or the first of two. -/
  | closed
  /-- After an escape. -/
  | escaped
  /-- After a carriage return that ended a row. -/
  | afterReturn
  /-- After the last row that is wanted. -/
  | stopped
deriving DecidableEq

structure Scanner where
  mode : ScanMode := .start
  /-- The field so far, last character first. -/
  field : Text := []
  /-- The row so far, last field first. -/
  fields : List Text := []
  /-- The rows, last one first. -/
  rows : List (List Text) := []
  /-- The number of rows that are not blank. -/
  filled : Nat := 0
  usesQuotes : Bool := false
  usesEscapes : Bool := false
deriving DecidableEq

namespace Scanner

def isBlankRow (row : List Text) : Bool := row == [[]]

def addRow (s : Scanner) (row : List Text) : Scanner :=
  { s with
    field := []
    fields := []
    rows := row :: s.rows
    filled := if isBlankRow row then s.filled else s.filled + 1 }

def endField (s : Scanner) : Scanner :=
  { s with mode := .start, field := [], fields := s.field.reverse :: s.fields }

/-- End a row at the character that ends its line; `limit` rows are enough. -/
def endRow (limit : Option Nat) (s : Scanner) (c : Char) : Scanner :=
  let s := s.addRow (s.field.reverse :: s.fields).reverse
  if limit.any (· ≤ s.filled) then { s with mode := .stopped }
  else { s with mode := if c == '\r' then .afterReturn else .start }

def push (s : Scanner) (mode : ScanMode) (c : Char) : Scanner :=
  { s with mode := mode, field := c :: s.field }

def stepBare (d : Dialect) (limit : Option Nat) (s : Scanner) (c : Char) : Scanner :=
  if c == d.delimiter then s.endField
  else if Dialect.endsLine c then s.endRow limit c
  else s.push .bare c

def stepStart (d : Dialect) (limit : Option Nat) (s : Scanner) (c : Char) : Scanner :=
  if c == d.quote then { s with mode := .quoted, usesQuotes := true } else s.stepBare d limit c

/-- Read a character; none if no table can go on so. -/
def step (d : Dialect) (limit : Option Nat) (s : Scanner) (c : Char) : Option Scanner :=
  match s.mode with
  | .stopped => some s
  | .start => some (s.stepStart d limit c)
  | .bare => some (s.stepBare d limit c)
  | .afterReturn =>
    if c == '\n' then some { s with mode := .start } else some (s.stepStart d limit c)
  | .quoted =>
    if c == d.quote then some { s with mode := .closed }
    else if c == d.escape then some { s with mode := .escaped, usesEscapes := true }
    else some (s.push .quoted c)
  | .escaped => if c == d.quote || c == d.escape then some (s.push .quoted c) else none
  | .closed =>
    if c == d.quote && d.doublesQuotes then some (s.push .quoted c)
    else if d.endsQuoted c then some s.endField
    else if Dialect.endsLine c then some (s.endRow limit c)
    else none

/-- Reach the end of the table. A delimiter right before it starts no field. -/
def finish (s : Scanner) : Option Scanner :=
  match s.mode with
  | .quoted | .escaped => none
  | .bare | .closed => some (s.addRow (s.field.reverse :: s.fields).reverse)
  | .start => if s.fields.isEmpty then some s else some (s.addRow s.fields.reverse)
  | .afterReturn | .stopped => some s

/-- A table without the mark of its encoding. -/
def dropMark : Text → Text
  | [] => []
  | c :: t => if c.toNat == 0xFEFF then t else c :: t

/-- Scan a table up to a number of rows; none if it cannot be read. -/
def scan (d : Dialect) (limit : Option Nat) (table : Text) : Option Scanner :=
  ((dropMark table).foldlM (step d limit) {}).bind finish

end Scanner

/-- The number of columns of a row that should have `columns`. One empty field too many is not
counted. -/
def columnCount (columns : Nat) (row : List Text) : Nat :=
  if row[columns]? == some [] then row.length - 1 else row.length

namespace Dialect

/-! ## Detection -/

structure Candidate where
  dialect : Dialect
  /-- The number of rows with the expected number of columns. -/
  rows : Nat
  usesQuotes : Bool
  usesEscapes : Bool

/-- The number of rows that are looked at. -/
def sampleSize : Nat := 256

/-- Try a dialect on a table; it fits if the first row has the expected number of columns. -/
def fit? (columns : Nat) (table : Text) (d : Dialect) : Option Candidate :=
  match Scanner.scan d (some sampleSize) table with
  | none => none
  | some s =>
    let counts := (s.rows.reverse.filter fun r => !Scanner.isBlankRow r).map (columnCount columns)
    if counts.head? == some columns then
      some ⟨d, counts.count columns, s.usesQuotes, s.usesEscapes⟩
    else none

/-- Does a candidate put to use what another one leaves unused? -/
def Candidate.usesMore (a b : Candidate) : Bool :=
  (a.usesQuotes && !b.usesQuotes) || (a.usesEscapes && !b.usesEscapes)

/-- Weigh a candidate against those kept so far. It takes their place if it fits no fewer rows, unless
the first of them uses more; and it is kept beside them if it fits several rows and none of them has
its quote. -/
def weigh (kept : List Candidate) (c : Candidate) : List Candidate :=
  match kept with
  | [] => [c]
  | first :: _ =>
    if first.usesMore c then kept
    else if first.rows ≤ c.rows then [c]
    else if 1 < c.rows && kept.all fun k => k.dialect.quote != c.dialect.quote then kept ++ [c]
    else kept

def candidates (delimiters : List Char) : List Dialect :=
  delimiters.flatMap fun delimiter =>
    ['"', '\''].flatMap fun quote =>
      ['"', '\\', '\''].map fun escape => ⟨delimiter, quote, escape⟩

/-- The dialect of a candidate without the characters that it does not use. -/
def Candidate.settled (c : Candidate) : Dialect :=
  { c.dialect with
    quote := if c.usesQuotes then c.dialect.quote else unused
    escape := if c.usesEscapes then c.dialect.escape else unused }

/-- The dialect of quoted tables with a given delimiter. -/
def quotedTable (delimiter : Char) : Dialect := ⟨delimiter, '"', '"'⟩

/-- The delimiters that a table may have whose delimiter is not told apart: a comma is what tables
have by themselves, so the others that are common are tried too. -/
def delimitersFor (delimiter : Char) : List Char :=
  if delimiter == ',' then [',', ';', '\t', '|'] else [delimiter]

/-- The dialect of a table that should have a number of columns. -/
def detect (columns : Nat) (delimiter : Char) (table : Text) : Dialect :=
  let kept := ((candidates (delimitersFor delimiter)).filterMap (fit? columns table)).foldl weigh []
  match (kept.find? (·.usesQuotes)).or kept.head? with
  | some c => c.settled
  | none => quotedTable delimiter

/-! ## Reading -/

/-- The fields of a row; none if it has too few or too many. -/
def fieldsOf (columns : Nat) (row : List Text) : Option (List Text) :=
  if columnCount columns row == columns then some (row.take columns) else none

/-- The rows after the header row. The header has the expected number of columns too, and blank lines
are passed over. -/
def read? (d : Dialect) (columns : Nat) (table : Text) : Option (List (List Text)) :=
  match (Scanner.scan d none table).map (·.rows.reverse) with
  | none | some [] => none
  | some (header :: rows) =>
    if columnCount columns header == columns then
      (rows.filter fun r => !Scanner.isBlankRow r).mapM (fieldsOf columns)
    else none

end Dialect

end CodeAtlas
