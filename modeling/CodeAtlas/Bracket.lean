import CodeAtlas.Text.Position

set_option autoImplicit false

/-! # Brackets

Bodies, parameter lists and clauses are found by counting brackets. A bracket that is never closed
reaches to the end of the text, so every function here answers on every text.
-/

namespace CodeAtlas.Bracket

/-! ## Blocks -/

/-- The position of the first closing bracket that brings the depth to zero. The position of the
head of the text is `i` and the depth before it is `depth`, which may be below zero. -/
def closing? (opener closer : Char) : Int → Nat → Text → Option Nat
  | _, _, [] => none
  | depth, i, c :: rest =>
    if c == opener then closing? opener closer (depth + 1) (i + 1) rest
    else if c == closer then
      if depth - 1 == 0 then some i else closing? opener closer (depth - 1) (i + 1) rest
    else closing? opener closer depth (i + 1) rest

/-- The bracket that closes the one at `index`, or else the last position of the text. -/
def blockEnd (opener closer : Char) (t : Text) (index : Nat) : Nat :=
  (closing? opener closer 0 index (t.drop index)).getD (t.length - 1)

/-- The end of a block whose start may be counted from the end of the text. A block that is never
closed ends at the last position, which is -1 in the empty text. -/
def blockEndFrom (opener closer : Char) (t : Text) (index : Int) : Except OutOfRange Int :=
  match walk? t index with
  | none => .error {}
  | some rest =>
    match closing? opener closer 0 0 rest with
    | some i => .ok (index + i)
    | none => .ok (t.length - 1)

def braceEnd (t : Text) (index : Nat) : Nat := blockEnd '\x7b' '\x7d' t index

def parenEnd (t : Text) (index : Nat) : Nat := blockEnd '(' ')' t index

/-- The number of braces opened and not closed between two positions. -/
def depthBetween (t : Text) (first last : Int) : Int :=
  let inner := slice t first last
  (inner.count '\x7b' : Int) - (inner.count '\x7d' : Int)

/-! ## Expressions -/

def opens (c : Char) : Bool := c == '(' || c == '[' || c == '\x7b'

def closes (c : Char) : Bool := c == ')' || c == ']' || c == '\x7d'

/-- The end of the expression that starts at `first`, read from position `i` at a given depth. -/
def expressionEndFrom (first : Nat) : Nat → Nat → Text → Option Nat
  | _, _, [] => none
  | depth, i, c :: rest =>
    if opens c then expressionEndFrom first (depth + 1) (i + 1) rest
    else if closes c then
      if depth == 0 then some (max first (i - 1))
      else expressionEndFrom first (depth - 1) (i + 1) rest
    else if depth == 0 && (c == ';' || c == ',' || c == '\n') then some i
    else expressionEndFrom first depth (i + 1) rest

/-- The end of an expression: the semicolon, comma or line feed after it, or the position before
the bracket that closes around it, or else the last position of the text. -/
def expressionEnd (t : Text) (first : Nat) : Nat :=
  (expressionEndFrom first 0 first (t.drop first)).getD (t.length - 1)

def expressionEndAfter (t : Text) (first : Int) : Except OutOfRange Int :=
  match walk? t first with
  | none => .error {}
  | some rest =>
    match expressionEndFrom 0 0 0 rest with
    | some i => .ok (first + i)
    | none => .ok (t.length - 1)

/-! ## Lists of clauses -/

/-- The depth after a character, with angle brackets counted too. It does not fall below zero. -/
def clauseDepth (depth : Nat) (c : Char) : Nat :=
  if opens c || c == '<' then depth + 1
  else if closes c || c == '>' then depth - 1
  else depth

def topLevelPieces (sep : Text) : Nat → Text → List Text
  | _, [] => [[]]
  | depth, c :: rest =>
    let depth' := clauseDepth depth c
    if [c] == sep && depth' == 0 then [] :: topLevelPieces sep depth' rest
    else match topLevelPieces sep depth' rest with
      | [] => [[c]]
      | p :: ps => (c :: p) :: ps

/-- Split at the separators outside of all brackets; the pieces are trimmed, and blank ones are left
out. -/
def splitTopLevel (sep t : Text) : List Text :=
  ((topLevelPieces sep 0 t).map Text.trim).filter fun p => !p.isEmpty

def stripAngles : Nat → Text → Text
  | _, [] => []
  | depth, c :: rest =>
    if c == '<' then stripAngles (depth + 1) rest
    else if c == '>' && depth != 0 then stripAngles (depth - 1) rest
    else if depth == 0 then c :: stripAngles depth rest
    else stripAngles depth rest

/-- Drop type arguments in angle brackets. A closing bracket that closes nothing stays. -/
def stripGenerics (t : Text) : Text := stripAngles 0 t

end CodeAtlas.Bracket
