import CodeAtlas.Graph.Basic
import CodeAtlas.Store.Engine

set_option autoImplicit false

/-! # Reports in JSON

Reports are written over several lines with an indent of two spaces. Every character outside of
printable ASCII is escaped, those beyond the basic plane as two halves.
-/

namespace CodeAtlas

inductive Document where
  | absent
  | number (n : Int)
  | text (t : Text)
  | flag (b : Bool)
  | list (items : List Document)
  | object (fields : List (Text × Document))

namespace Document

/-! ## Texts -/

def escapeUnit (n : Nat) : Text :=
  let digits := Nat.toDigits 16 n
  '\\' :: 'u' :: List.replicate (4 - digits.length) '0' ++ digits

def escapeChar (c : Char) : Text :=
  let n := c.toNat
  if c == '"' || c == '\\' then ['\\', c]
  else if 0x20 ≤ n && n ≤ 0x7E then [c]
  else if c == '\n' then ['\\', 'n']
  else if c == '\r' then ['\\', 'r']
  else if c == '\t' then ['\\', 't']
  else if n == 8 then ['\\', 'b']
  else if n == 12 then ['\\', 'f']
  else if n < 0x10000 then escapeUnit n
  else
    escapeUnit (0xD800 + (n - 0x10000) / 1024) ++ escapeUnit (0xDC00 + (n - 0x10000) % 1024)

def quote (t : Text) : Text := '"' :: t.flatMap escapeChar ++ ['"']

/-! ## Values -/

def newline (level : Nat) : Text := '\n' :: List.replicate (2 * level) ' '

/-- Put items between brackets, one on a line; no items stay on the line. -/
def bracket (opener closer : Char) (level : Nat) (items : List Text) : Text :=
  if items.isEmpty then [opener, closer]
  else
    opener :: newline (level + 1) ++ (',' :: newline (level + 1)).intercalate items ++
      newline level ++ [closer]

mutual

def write (level : Nat) : Document → Text
  | absent => "null".toList
  | number n => Text.ofInt n
  | text t => quote t
  | flag true => "true".toList
  | flag false => "false".toList
  | list items => bracket '[' ']' level (writeItems (level + 1) items)
  | object fields => bracket '\x7b' '\x7d' level (writeFields (level + 1) fields)

def writeItems (level : Nat) : List Document → List Text
  | [] => []
  | v :: vs => write level v :: writeItems level vs

def writeFields (level : Nat) : List (Text × Document) → List Text
  | [] => []
  | (k, v) :: fs => (quote k ++ ": ".toList ++ write level v) :: writeFields level fs

end

def render (v : Document) : Text := write 0 v

/-! ## Reports -/

def ofValue : Database.Value → Document
  | .absent => .absent
  | .number n => .number n
  | .text t => .text t
  | .flag b => .flag b

def ofRows (rows : List Database.Row) : Document :=
  .list (rows.map fun r => .object (r.map fun c => (c.1, ofValue c.2)))

def ofCounts (m : Mapping Nat) : Document := .object (m.map fun p => (p.1, .number p.2))

def ofStats (s : Stats) : Document :=
  .object [("nodes".toList, ofCounts s.nodes), ("relationships".toList, ofCounts s.relationships)]

end Document

end CodeAtlas
