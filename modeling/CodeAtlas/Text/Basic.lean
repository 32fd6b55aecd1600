set_option autoImplicit false

/-! # Texts

A text is the list of its characters. Every position, length and cap counts characters, and a
line ends at a line feed and at nothing else. The functions here are the few operations on texts
that the scanners, the tables and the reports share.
-/

namespace CodeAtlas

/-- A text, character by character. -/
abbrev Text := List Char

namespace Text

/-! ## White space -/

/-- The white-space characters: the ASCII ones, the four information separators, and the
spaces and separators of Unicode. -/
def isBlank (c : Char) : Bool :=
  let n := c.toNat
  n == 0x20 || (0x09 ≤ n && n ≤ 0x0D) || (0x1C ≤ n && n ≤ 0x1F) || n == 0x85 || n == 0xA0 ||
    n == 0x1680 || (0x2000 ≤ n && n ≤ 0x200A) || n == 0x2028 || n == 0x2029 || n == 0x202F ||
    n == 0x205F || n == 0x3000

def dropRight (p : Char → Bool) (t : Text) : Text := (t.reverse.dropWhile p).reverse

def trim (t : Text) : Text := dropRight isBlank (t.dropWhile isBlank)

/-! ## Lines -/

/-- The lines of a text. There is always at least one. -/
def lines (t : Text) : List Text := t.splitOn '\n'

/-! ## Search -/

/-- The position of the first occurrence of `pat`. The empty text occurs at once. -/
def find? (pat : Text) : Text → Option Nat
  | [] => if pat.isEmpty then some 0 else none
  | c :: t => if pat.isPrefixOf (c :: t) then some 0 else (find? pat t).map (· + 1)

/-- What is found stands where it is found. -/
theorem find?_eq_some {pat t : Text} {j : Nat} (h : find? pat t = some j) :
    pat <+: t.drop j := by
  induction t generalizing j with
  | nil =>
      simp only [find?, Option.ite_none_right_eq_some] at h
      rw [List.isEmpty_iff.mp h.1]
      exact List.nil_prefix
  | cons c t ih =>
      by_cases hpat : pat.isPrefixOf (c :: t) = true
      · rw [find?, if_pos hpat, Option.some_inj] at h
        rw [← h]
        exact List.isPrefixOf_iff_prefix.mp hpat
      · rw [find?, if_neg hpat] at h
        obtain ⟨i, hi, rfl⟩ := Option.map_eq_some_iff.mp h
        exact ih hi

def has (pat t : Text) : Bool := (find? pat t).isSome

/-! ## Cutting -/

/-- The first `n` characters; a negative `n` leaves that many characters off at the end. -/
def cut (n : Int) (t : Text) : Text :=
  if 0 ≤ n then t.take n.toNat else t.take (t.length - (-n).toNat)

def padRight (width : Nat) (t : Text) : Text := t ++ List.replicate (width - t.length) ' '

def padLeft (width : Nat) (t : Text) : Text := List.replicate (width - t.length) ' ' ++ t

/-! ## Numbers -/

def ofNat (n : Nat) : Text := Nat.toDigits 10 n

def ofInt : Int → Text
  | .ofNat n => ofNat n
  | .negSucc n => '-' :: ofNat (n + 1)

def digit? (c : Char) : Option Nat :=
  if '0' ≤ c ∧ c ≤ '9' then some (c.toNat - '0'.toNat) else none

/-- Read decimal digits onto a value read so far. -/
def readDigits : Nat → Text → Option Nat
  | n, [] => some n
  | n, c :: t => (digit? c).bind fun d => readDigits (10 * n + d) t

/-- Read a natural number: at least one digit, and digits only. -/
def nat? : Text → Option Nat
  | [] => none
  | t => readDigits 0 t

def int? : Text → Option Int
  | '-' :: t => (nat? t).map fun n => -(n : Int)
  | '+' :: t => (nat? t).map fun n => (n : Int)
  | t => (nat? t).map fun n => (n : Int)

/-! ## Order -/

/-- Texts are ordered by the code points of their characters. -/
def le : Text → Text → Bool
  | [], _ => true
  | _ :: _, [] => false
  | a :: s, b :: t => if a.toNat < b.toNat then true else if a == b then le s t else false

end Text

/-! ## Sorting

Insertion keeps the order of elements that compare equal, so a list that is already in order is
returned as it is. -/

/-- Put `a` before the first element that may follow it. -/
def insertSorted {α : Type} (le : α → α → Bool) (a : α) : List α → List α
  | [] => [a]
  | b :: l => if le a b then a :: b :: l else b :: insertSorted le a l

def sortBy {α : Type} (le : α → α → Bool) (l : List α) : List α := l.foldr (insertSorted le) []

end CodeAtlas
