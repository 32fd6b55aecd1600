import CodeAtlas.Text.Basic

set_option autoImplicit false

/-! # Positions counted from the end

A position below zero counts from the end: the last element is at -1. A part of a list may reach
beyond both ends, where there is nothing. A walk that starts below zero goes through the elements at
the end first and then, from position zero on, through the whole list; it has to start at an element.
-/

namespace CodeAtlas

/-- The position, from zero to the length, that a position of a list of a given length stands for. -/
def place (length : Nat) (i : Int) : Nat :=
  if 0 ≤ i then min i.toNat length else ((length : Int) + i).toNat

/-- The elements from one position up to another. -/
def slice {α : Type} (l : List α) (first last : Int) : List α :=
  (l.take (place l.length last)).drop (place l.length first)

/-- What a walk from a position to the end of a list meets; none if it starts before the first
element. -/
def walk? {α : Type} (l : List α) (first : Int) : Option (List α) :=
  if 0 ≤ first then some (l.drop first.toNat)
  else if (-first).toNat ≤ l.length then some (l.drop (place l.length first) ++ l)
  else none

structure OutOfRange where
deriving DecidableEq

def OutOfRange.message (_ : OutOfRange) : Text := "string index out of range".toList

namespace Text

/-- Lines `first` up to `last`, joined again; the lines that do not exist are left out. -/
def excerpt (t : Text) (first last : Int) : Text := ['\n'].intercalate (slice (lines t) first (last + 1))

/-- The number of line feeds before `index`; the text may end earlier. -/
def lineOf (t : Text) (index : Int) : Nat := (t.take index.toNat).count '\n'

end Text

end CodeAtlas
