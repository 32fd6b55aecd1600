import CodeAtlas.Text.Word

set_option autoImplicit false

/-! # Patterns

A pattern describes a stretch of text and what may stand around it. Matching is ordered: of two
alternatives the first is tried first, a repetition takes as many characters as it can (or, where
it says so, as few), and a choice is revised only when what follows it cannot match. The match at a
position is the first one in that order.

`Pattern.run` follows the pattern and hands the rest of the work to a continuation, so that
sequence is composition of continuations and a choice is revised exactly when the continuation of
the earlier choice fails.
-/

namespace CodeAtlas

/-- A position in a text: what stands before it, nearest character first, and what follows it. -/
structure Cursor where
  before : Text
  rest : Text

namespace Cursor

def pos (c : Cursor) : Nat := c.before.length

def start (t : Text) : Cursor := ⟨[], t⟩

/-- The cursor at `index` of a text that is cut at `limit`. What stands before the cursor is still
seen. -/
def window (t : Text) (index limit : Nat) : Cursor :=
  ⟨(t.take index).reverse, (t.take limit).drop index⟩

/-- The text between two cursors of one text. -/
def between (a b : Cursor) : Text := a.rest.take (b.pos - a.pos)

end Cursor

/-- What a pattern may ask for. A class is a predicate on characters. -/
inductive Pattern where
  /-- Nothing. -/
  | empty
  /-- One character of a class. -/
  | one (p : Char → Bool)
  /-- Characters of a class, as many as possible. -/
  | many (p : Char → Bool)
  /-- Characters of a class, as few as possible. -/
  | few (p : Char → Bool)
  /-- One pattern, then another. -/
  | seq (a b : Pattern)
  /-- The first pattern or else the second. -/
  | alt (a b : Pattern)
  /-- A pattern that takes at least one character, as often as possible. -/
  | star (a : Pattern)
  /-- A pattern whose text is remembered under a number. -/
  | group (n : Nat) (a : Pattern)
  /-- A word character on exactly one side. -/
  | boundary
  /-- A character of a class right before. -/
  | after (p : Char → Bool)
  /-- No character of a class right before. -/
  | notAfter (p : Char → Bool)
  /-- A pattern that would match from here on. -/
  | ahead (a : Pattern)
  /-- The end of the text, or a line feed that ends it. -/
  | finish

/-- How far a match has come and what it remembers: the latest group comes first. -/
structure MatchState where
  cursor : Cursor
  groups : List (Nat × Cursor × Cursor)

namespace Pattern

/-! ## Matching -/

/-- Take characters of a class as long as what follows matches, the longest stretch first. -/
def takeMany {α : Type} (p : Char → Bool) (k : Cursor → Option α) : Text → Text → Option α
  | before, [] => k ⟨before, []⟩
  | before, c :: rest =>
    if p c then (takeMany p k (c :: before) rest).or (k ⟨before, c :: rest⟩)
    else k ⟨before, c :: rest⟩

/-- Take characters of a class until what follows matches, the shortest stretch first. -/
def takeFew {α : Type} (p : Char → Bool) (k : Cursor → Option α) : Text → Text → Option α
  | before, [] => k ⟨before, []⟩
  | before, c :: rest =>
    (k ⟨before, c :: rest⟩).or (if p c then takeFew p k (c :: before) rest else none)

/-- Repeat a step up to `limit` times, the largest number of times first. -/
def takeStar {α : Type} (step : (MatchState → Option α) → MatchState → Option α)
    (k : MatchState → Option α) : Nat → MatchState → Option α
  | 0, s => k s
  | limit + 1, s => (step (takeStar step k limit) s).or (k s)

/-- Is there a word character on exactly one side? -/
def atBoundary (c : Cursor) : Bool :=
  (c.before.head?.any Text.isWord) != (c.rest.head?.any Text.isWord)

/-- Is this the end of the text, or does one last line feed follow? -/
def atFinish (c : Cursor) : Bool := c.rest == [] || c.rest == ['\n']

/-- Match a pattern and go on with `k`. A repetition runs at most once for each character left,
since each run takes one. -/
def run {α : Type} : Pattern → (MatchState → Option α) → MatchState → Option α
  | .empty, k, s => k s
  | .one p, k, s =>
    match s.cursor.rest with
    | [] => none
    | c :: rest => if p c then k { s with cursor := ⟨c :: s.cursor.before, rest⟩ } else none
  | .many p, k, s => takeMany p (fun c => k { s with cursor := c }) s.cursor.before s.cursor.rest
  | .few p, k, s => takeFew p (fun c => k { s with cursor := c }) s.cursor.before s.cursor.rest
  | .seq a b, k, s => run a (run b k) s
  | .alt a b, k, s => (run a k s).or (run b k s)
  | .star a, k, s => takeStar (run a) k s.cursor.rest.length s
  | .group n a, k, s =>
    run a (fun t => k { t with groups := (n, s.cursor, t.cursor) :: t.groups }) s
  | .boundary, k, s => if atBoundary s.cursor then k s else none
  | .after p, k, s => if s.cursor.before.head?.any p then k s else none
  | .notAfter p, k, s => if s.cursor.before.head?.any p then none else k s
  | .ahead a, k, s => if (run a (fun _ => some ()) s).isSome then k s else none
  | .finish, k, s => if atFinish s.cursor then k s else none

/-! ## Composed patterns -/

def all : List Pattern → Pattern
  | [] => .empty
  | [a] => a
  | a :: as => .seq a (all as)

def any : List Pattern → Pattern
  | [] => .one fun _ => false
  | [a] => a
  | a :: as => .alt a (any as)

def opt (a : Pattern) : Pattern := .alt a .empty

def char (c : Char) : Pattern := .one (· == c)

def lit (t : Text) : Pattern := all (t.map char)

def many1 (p : Char → Bool) : Pattern := .seq (.one p) (.many p)

def few1 (p : Char → Bool) : Pattern := .seq (.one p) (.few p)

def blanks : Pattern := .many Text.isBlank

def blanks1 : Pattern := many1 Text.isBlank

end Pattern

end CodeAtlas
