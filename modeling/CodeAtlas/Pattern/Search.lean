import CodeAtlas.Pattern.Basic

set_option autoImplicit false

/-! # Searching a text for a pattern

All matches of a pattern are found from left to right, and a match starts where the one before it
ends or later. The patterns of this library take at least one character, so a search ends with the
text.
-/

namespace CodeAtlas

/-- A match: where it starts and ends, and the groups it remembers. -/
structure Match where
  first : Cursor
  last : Cursor
  groups : List (Nat × Cursor × Cursor)

namespace Match

def start (m : Match) : Nat := m.first.pos

def stop (m : Match) : Nat := m.last.pos

def length (m : Match) : Nat := m.stop - m.start

/-- The cursors around a group, if the group took part in the match. -/
def span? (m : Match) (n : Nat) : Option (Cursor × Cursor) := m.groups.lookup n

def hasGroup (m : Match) (n : Nat) : Bool := (m.span? n).isSome

/-- The text of a group; empty if the group took no part. -/
def group (m : Match) (n : Nat) : Text :=
  match m.span? n with
  | some (a, b) => a.between b
  | none => []

/-- The position of a group; zero if the group took no part. -/
def groupStart (m : Match) (n : Nat) : Nat :=
  match m.span? n with
  | some (a, _) => a.pos
  | none => 0

end Match

namespace Pattern

def matchAt? (p : Pattern) (c : Cursor) : Option Match :=
  (p.run some ⟨c, []⟩).map fun s => ⟨c, s.cursor, s.groups⟩

/-- The matches from a position on, after passing over `skip` characters that belong to the match
before. -/
def scan (p : Pattern) : Nat → Text → Text → List Match
  | _, _, [] => []
  | skip + 1, before, c :: rest => scan p skip (c :: before) rest
  | 0, before, c :: rest =>
    match p.matchAt? ⟨before, c :: rest⟩ with
    | some m => m :: scan p (m.length - 1) (c :: before) rest
    | none => scan p 0 (c :: before) rest

def findAll (p : Pattern) (t : Text) : List Match := scan p 0 [] t

/-- All matches that lie between two positions of a text. -/
def findAllIn (p : Pattern) (t : Text) (index limit : Nat) : List Match :=
  let c := Cursor.window t index limit
  scan p 0 c.before c.rest

/-- The first match from a position on. -/
def searchFrom (p : Pattern) : Text → Text → Option Match
  | before, [] => p.matchAt? ⟨before, []⟩
  | before, c :: rest => (p.matchAt? ⟨before, c :: rest⟩).or (searchFrom p (c :: before) rest)

def search? (p : Pattern) (t : Text) : Option Match := searchFrom p [] t

end Pattern

end CodeAtlas
