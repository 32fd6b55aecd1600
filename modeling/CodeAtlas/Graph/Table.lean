import CodeAtlas.Graph.Basic

set_option autoImplicit false

/-! # Tables

A graph is handed to the store as two tables of quoted, separated values with a header row. A field
that holds the delimiter, a quote or a line break stands in quotes, with the quotes inside it
doubled; otherwise a stretch of source text would shift every row after it. The reader at the end of
this module reads such tables back.
-/

namespace CodeAtlas.Table

/-! ## Writing -/

inductive Field where
  | absent
  | flag (b : Bool)
  | number (n : Int)
  | text (t : Text)

def Field.plain : Field → Text
  | absent => []
  | flag true => "true".toList
  | flag false => "false".toList
  | number n => Text.ofInt n
  | text t => t

/-- Does a text have to be quoted? The empty delimiter is in every text. -/
def needsQuotes (delimiter t : Text) : Bool :=
  Text.has delimiter t || t.contains '"' || t.contains '\n' || t.contains '\r'

def doubleQuotes (t : Text) : Text := t.flatMap fun c => if c == '"' then ['"', '"'] else [c]

def quote (delimiter t : Text) : Text :=
  if needsQuotes delimiter t then '"' :: doubleQuotes t ++ ['"'] else t

def Field.write (delimiter : Text) : Field → Text
  | absent => []
  | flag b => (flag b).plain
  | f => quote delimiter f.plain

def row (delimiter : Text) (fields : List Field) : Text :=
  delimiter.intercalate (fields.map (Field.write delimiter)) ++ ['\n']

def nodeColumns : List Text :=
  ["id".toList, "label".toList, "name".toList, "filePath".toList, "startLine".toList,
    "endLine".toList, "isExported".toList, "content".toList]

def edgeColumns : List Text := ["sourceId".toList, "targetId".toList, "type".toList]

def nodeFields (n : Node) : List Field :=
  [.text n.id, .text n.label.name, .text n.name, .text n.path, .number n.startLine,
    .number n.endLine, .flag n.isExported, n.content.elim .absent .text]

def edgeFields (r : Relationship) : List Field :=
  [.text r.source, .text r.target, .text r.kind.name]

def nodes (delimiter : Text) (g : Graph) : Text :=
  row delimiter (nodeColumns.map .text) ++ g.nodes.flatMap fun n => row delimiter (nodeFields n)

def edges (delimiter : Text) (g : Graph) : Text :=
  row delimiter (edgeColumns.map .text) ++
    g.relationships.flatMap fun r => row delimiter (edgeFields r)

/-- Does a table have more than its header row? -/
def hasRows (table : Text) : Bool :=
  !(Text.trim ((table.dropWhile (· != '\n')).drop 1)).isEmpty

/-! ## Reading -/

/-- Where the reader stands in a field. -/
inductive ReadMode where
  /-- At the start of a field. -/
  | fresh
  /-- In a field without quotes. -/
  | bare
  /-- In a field in quotes. -/
  | quoted
  /-- After a quote in a field in quotes: the end of the field, or half of a doubled quote. -/
  | afterQuote

/-- Read rows. The field so far is held last character first, and the row last field first. -/
def readFrom (delimiter : Char) : ReadMode → Text → List Text → Text → List (List Text)
  | .fresh, _, [], [] => []
  | _, field, fields, [] => [(field.reverse :: fields).reverse]
  | .quoted, field, fields, c :: rest =>
    if c == '"' then readFrom delimiter .afterQuote field fields rest
    else readFrom delimiter .quoted (c :: field) fields rest
  | mode, field, fields, c :: rest =>
    match mode, c == '"' with
    | .fresh, true => readFrom delimiter .quoted field fields rest
    | .afterQuote, true => readFrom delimiter .quoted ('"' :: field) fields rest
    | _, _ =>
      if c == delimiter then readFrom delimiter .fresh [] (field.reverse :: fields) rest
      else if c == '\n' then
        (field.reverse :: fields).reverse :: readFrom delimiter .fresh [] [] rest
      else readFrom delimiter .bare (c :: field) fields rest

/-- The rows of a table. A field that starts with a quote runs to its closing quote and reads a
doubled quote as one; any other field runs to the delimiter or to the end of the line. -/
def read (delimiter : Char) (table : Text) : List (List Text) :=
  readFrom delimiter .fresh [] [] table

end CodeAtlas.Table
