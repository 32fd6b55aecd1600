import CodeAtlas.Extraction.Scan
import Mathlib.Tactic

set_option autoImplicit false

/-! # Texts that are moved down

A text is moved down by `k` empty lines above it (`Text.below`). Every position of it is then greater by
`k`, and so is every line. The functions that look for a position in a text take it along: what they find
in the text that is moved down, starting `k` further on, is what they find in the text itself and `k`
further on. There is one such lemma for each of them.

What is not found is taken to be at the last position. The empty text has none, and its last position
counts as zero; there the lemmas do not hold, and they ask for a text with a character.
-/

namespace CodeAtlas

namespace Text

/-- The text with `k` empty lines above it. -/
def below (k : Nat) (t : Text) : Text := List.replicate k '\n' ++ t

/-- Empty lines in front of what has been read, where the nearest character comes first. -/
def above (k : Nat) (before : Text) : Text := before ++ List.replicate k '\n'

variable {k : Nat} {t : Text}

@[simp] theorem length_below (k : Nat) (t : Text) : (below k t).length = t.length + k := by
  rw [below, List.length_append, List.length_replicate, Nat.add_comm]

@[simp] theorem drop_below (k : Nat) (t : Text) (i : Nat) : (below k t).drop (i + k) = t.drop i := by
  calc (below k t).drop (i + k)
      = (List.replicate k '\n' ++ t).drop ((List.replicate k '\n').length + i) := by
        rw [List.length_replicate, Nat.add_comm k i, below]
    _ = t.drop i := List.drop_length_add_append i

@[simp] theorem take_below (k : Nat) (t : Text) (i : Nat) :
    (below k t).take (i + k) = below k (t.take i) := by
  calc (below k t).take (i + k)
      = (List.replicate k '\n' ++ t).take ((List.replicate k '\n').length + i) := by
        rw [List.length_replicate, Nat.add_comm k i, below]
    _ = below k (t.take i) := List.take_length_add_append i

theorem reverse_below (k : Nat) (t : Text) : (below k t).reverse = above k t.reverse := by
  rw [below, List.reverse_append, List.reverse_replicate, above]

@[simp] theorem length_above (k : Nat) (before : Text) : (above k before).length = before.length + k := by
  rw [above, List.length_append, List.length_replicate]

/-- The start of a line is the start of the text for who does not ask for the line feed. -/
theorem head?_above_any {p : Char → Bool} (hp : p '\n' = false) (before : Text) :
    (above k before).head?.any p = before.head?.any p := by
  cases before with
  | cons c before => rfl
  | nil =>
      cases k with
      | zero => rfl
      | succ k => exact hp

theorem last_below (ht : t ≠ []) (k : Nat) : (below k t).length - 1 = t.length - 1 + k := by
  have hpos := List.length_pos_of_ne_nil ht
  rw [length_below]
  omega

/-- Every line is further down by the lines above the text. -/
theorem lineOf_below (k : Nat) (t : Text) {i : Int} (hi : 0 ≤ i) :
    lineOf (below k t) (i + k) = lineOf t i + k := by
  have hplace : (i + k).toNat = i.toNat + k := by omega
  rw [lineOf, hplace, take_below, below, List.count_append, List.count_replicate_self, Nat.add_comm]
  rfl

end Text

section Positions

open Text

variable {k : Nat} {t : Text}

/-! ## Parts of a text -/

theorem place_add {length : Nat} {i : Int} (hi : 0 ≤ i) (k : Nat) :
    place (length + k) (i + k) = place length i + k := by
  rw [place, place, if_pos (by omega), if_pos hi]
  omega

theorem slice_below {first last : Int} (hfirst : 0 ≤ first) (hlast : 0 ≤ last) :
    slice (below k t) (first + k) (last + k) = slice t first last := by
  rw [slice, length_below, place_add hfirst, place_add hlast, take_below, drop_below]
  rfl

theorem depthBetween_below {first last : Int} (hfirst : 0 ≤ first) (hlast : 0 ≤ last) :
    Bracket.depthBetween (below k t) (first + k) (last + k) = Bracket.depthBetween t first last := by
  rw [Bracket.depthBetween, slice_below hfirst hlast]
  rfl

/-! ## Brackets -/

namespace Bracket

theorem closing?_add (opener closer : Char) (depth : Int) (i k : Nat) (t : Text) :
    closing? opener closer depth (i + k) t = (closing? opener closer depth i t).map (· + k) := by
  induction t generalizing depth i with
  | nil => rfl
  | cons c t ih =>
      have hnext : i + k + 1 = i + 1 + k := by omega
      rw [closing?, closing?, hnext, ih, ih, ih]
      split_ifs <;> rfl

theorem blockEnd_below (opener closer : Char) (ht : t ≠ []) (k i : Nat) :
    blockEnd opener closer (below k t) (i + k) = blockEnd opener closer t i + k := by
  rw [blockEnd, drop_below, closing?_add, last_below ht, blockEnd]
  cases closing? opener closer 0 i (t.drop i) with
  | none => rfl
  | some j => rfl

theorem braceEnd_below (ht : t ≠ []) (k i : Nat) : braceEnd (below k t) (i + k) = braceEnd t i + k :=
  blockEnd_below _ _ ht k i

theorem parenEnd_below (ht : t ≠ []) (k i : Nat) : parenEnd (below k t) (i + k) = parenEnd t i + k :=
  blockEnd_below _ _ ht k i

theorem expressionEndFrom_add (first depth i k : Nat) (t : Text) :
    expressionEndFrom (first + k) depth (i + k) t =
      (expressionEndFrom first depth i t).map (· + k) := by
  induction t generalizing depth i with
  | nil => rfl
  | cons c t ih =>
      have hnext : i + k + 1 = i + 1 + k := by omega
      -- An expression does not end before it starts, at whatever position that is.
      have hends : max (first + k) (i + k - 1) = max first (i - 1) + k := by omega
      rw [expressionEndFrom, expressionEndFrom, hnext, hends, ih, ih, ih]
      split_ifs <;> rfl

theorem expressionEnd_below (ht : t ≠ []) (k i : Nat) :
    expressionEnd (below k t) (i + k) = expressionEnd t i + k := by
  rw [expressionEnd, drop_below, expressionEndFrom_add, last_below ht, expressionEnd]
  cases expressionEndFrom i 0 i (t.drop i) with
  | none => rfl
  | some j => rfl

end Bracket

/-! ## Bodies -/

/-- The same body in the text that is moved down. -/
def Extent.down (k : Nat) (e : Extent) : Extent := ⟨e.first.map (· + k), e.last + k⟩

theorem bodyMark?_add (i k : Nat) (t : Text) :
    bodyMark? (i + k) t = (bodyMark? i t).map fun p => (p.1, p.2 + k) := by
  induction t generalizing i with
  | nil => rfl
  | cons c t ih =>
      have hnext : i + k + 1 = i + 1 + k := by omega
      rw [bodyMark?, bodyMark?, hnext, ih]
      split_ifs <;> rfl

theorem bodyAfter_below (ht : t ≠ []) (k i : Nat) :
    bodyAfter (below k t) (i + k) = (bodyAfter t i).down k := by
  rw [bodyAfter, drop_below, bodyMark?_add, bodyAfter]
  cases bodyMark? i (t.drop i) with
  | none =>
      show (⟨none, (below k t).length - 1⟩ : Extent) = ⟨none, t.length - 1 + k⟩
      rw [last_below ht]
  | some mark =>
      obtain ⟨c, j⟩ := mark
      simp only [Option.map_some, Bracket.braceEnd_below ht]
      split_ifs <;> rfl

end Positions

end CodeAtlas
