import CodeAtlas.Text.Printable
import CodeAtlas.Text.Utf8

set_option autoImplicit false

/-! # Quoted texts in messages

A text is quoted in single quotes, or in double quotes if it holds a single quote and no double one.
The quote and the backslash are escaped by a backslash, and characters that do not print by their
code.
-/

namespace CodeAtlas.Text

def hexPadded (width n : Nat) : Text :=
  let digits := Nat.toDigits 16 n
  List.replicate (width - digits.length) '0' ++ digits

def quoteFor (t : Text) : Char := if t.contains '\'' && !t.contains '"' then '"' else '\''

/-- The escapes that quoted texts and quoted bytes share. -/
def escape? (q c : Char) : Option Text :=
  if c == q || c == '\\' then some ['\\', c]
  else if c == '\t' then some ['\\', 't']
  else if c == '\n' then some ['\\', 'n']
  else if c == '\r' then some ['\\', 'r']
  else if c.toNat < 0x20 || c.toNat == 0x7F then some ('\\' :: 'x' :: hexPadded 2 c.toNat)
  else none

def escapeCode (n : Nat) : Text :=
  if n < 0x100 then '\\' :: 'x' :: hexPadded 2 n
  else if n < 0x10000 then '\\' :: 'u' :: hexPadded 4 n
  else '\\' :: 'U' :: hexPadded 8 n

def quoteChar (q c : Char) : Text :=
  match escape? q c with
  | some t => t
  | none => if isPrintable c then [c] else escapeCode c.toNat

def quoted (t : Text) : Text :=
  let q := quoteFor t
  q :: t.flatMap (quoteChar q) ++ [q]

/-- Bytes in quotes, with a mark before them. -/
def quotedBytes (bytes : Bytes) : Text :=
  let t := bytes.map fun b => Char.ofNat b.toNat
  let q := quoteFor t
  let byteChar := fun c => match escape? q c with
    | some e => e
    | none => if c.toNat < 0x80 then [c] else '\\' :: 'x' :: hexPadded 2 c.toNat
  'b' :: q :: t.flatMap byteChar ++ [q]

end CodeAtlas.Text
