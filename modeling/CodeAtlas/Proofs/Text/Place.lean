import CodeAtlas.Extraction.Scan
import CodeAtlas.Proofs.Bracket.Nesting

set_option autoImplicit false

/-! # Places in a text

The scanners compute positions and lines in a whole file, while what is known of a file is often only
that a piece of text stands somewhere in it. `Stands t w i line` says so, and the lemmas below tell
from the piece alone what is found at its position: the line, the end of a block, the body after a
head, the depth of braces. Places of a piece give places of its parts (`Stands.within`), so each of
these is a computation on a short text.
-/

namespace CodeAtlas

/-! ## Pieces without brackets -/

namespace Bracket

/-- Without the brackets in question nothing is closed and the depth stays as it is. -/
theorem closing?_eq_none {opener closer : Char} {w : Text} (hopen : opener ∉ w) (hclose : closer ∉ w)
    (d : Int) (i : Nat) : closing? opener closer d i w = none := by
  induction w generalizing i with
  | nil => rfl
  | cons c w ih =>
      rw [List.mem_cons, not_or] at hopen hclose
      rw [closing?_other (Ne.symm hopen.1) (Ne.symm hclose.1)]
      exact ih hopen.2 hclose.2 (i + 1)

theorem balance_eq_zero {opener closer : Char} {w : Text} (hopen : opener ∉ w)
    (hclose : closer ∉ w) : balance opener closer w = 0 := by
  rw [balance, List.count_eq_zero.mpr hopen, List.count_eq_zero.mpr hclose]
  rfl

theorem balance_append (opener closer : Char) (u v : Text) :
    balance opener closer (u ++ v) = balance opener closer u + balance opener closer v := by
  simp only [balance, List.count_append, Nat.cast_add]
  omega

/-- A text that leaves every block around it open and as deep as it was. -/
structure Level (opener closer : Char) (w : Text) : Prop where
  closing?_eq_none : ∀ (d : Int) (i : Nat), 1 ≤ d → closing? opener closer d i w = none
  balance_eq_zero : balance opener closer w = 0

variable {opener closer : Char}

theorem level_of_notMem {w : Text} (hopen : opener ∉ w) (hclose : closer ∉ w) :
    Level opener closer w :=
  ⟨fun d i _ => Bracket.closing?_eq_none hopen hclose d i,
    Bracket.balance_eq_zero hopen hclose⟩

theorem Level.append (hne : opener ≠ closer) {u v : Text} (hu : Level opener closer u)
    (hv : Level opener closer v) : Level opener closer (u ++ v) := by
  refine ⟨fun d i hd => ?_, ?_⟩
  · rw [closing?_append hne, hu.closing?_eq_none d i hd, hu.balance_eq_zero, Int.add_zero,
      hv.closing?_eq_none d _ hd]
    rfl
  · rw [balance_append, hu.balance_eq_zero, hv.balance_eq_zero]
    rfl

theorem Level.flatMap (hne : opener ≠ closer) {α : Type} {l : List α} {f : α → Text}
    (h : ∀ a ∈ l, Level opener closer (f a)) : Level opener closer (l.flatMap f) := by
  induction l with
  | nil => exact level_of_notMem (by simp) (by simp)
  | cons a l ih =>
      rw [List.flatMap_cons]
      exact (h a List.mem_cons_self).append hne (ih fun b hb => h b (List.mem_cons_of_mem a hb))

theorem closing?_block (hne : opener ≠ closer) {w : Text} (hw : Level opener closer w) {d : Int}
    (hd : 0 ≤ d) (i : Nat) (v : Text) :
    closing? opener closer d i (opener :: (w ++ closer :: v)) =
      if d = 0 then some (i + 1 + w.length)
      else closing? opener closer d (i + 1 + w.length + 1) v := by
  rw [closing?_opener, closing?_append hne, hw.closing?_eq_none (d + 1) (i + 1) (by omega),
    Option.none_or, hw.balance_eq_zero, Int.add_zero, closing?_closer hne, Int.add_sub_cancel]
  by_cases hzero : d = 0
  · rw [if_pos (by omega), if_pos hzero]
  · rw [if_neg (by omega), if_neg hzero]

/-- A block is level. -/
theorem Level.block (hne : opener ≠ closer) {w : Text} (hw : Level opener closer w) :
    Level opener closer (opener :: (w ++ [closer])) := by
  refine ⟨fun d i hd => ?_, ?_⟩
  · rw [closing?_block hne hw (by omega), if_neg (by omega)]
    rfl
  · rw [balance_opener hne, balance_append, hw.balance_eq_zero, balance_closer hne]
    simp [balance]

end Bracket

namespace Text

/-- The text `w` stands in `t` at position `i`, and `line` line feeds come before it. -/
def Stands (t w : Text) (i line : Nat) : Prop :=
  ∃ u v, t = u ++ (w ++ v) ∧ u.length = i ∧ u.count '\n' = line

variable {t w : Text} {i line : Nat}

theorem stands_append (u w v : Text) : Stands (u ++ (w ++ v)) w u.length (u.count '\n') :=
  ⟨u, v, rfl, rfl, rfl⟩

theorem Stands.within {a b : Text} (h : Stands t (a ++ (w ++ b)) i line) :
    Stands t w (i + a.length) (line + a.count '\n') := by
  obtain ⟨u, v, rfl, rfl, rfl⟩ := h
  refine ⟨u ++ a, b ++ v, ?_, List.length_append, List.count_append⟩
  simp only [List.append_assoc]

theorem Stands.left {b : Text} (h : Stands t (w ++ b) i line) : Stands t w i line := by
  simpa using h.within (a := [])

theorem Stands.exists_drop (h : Stands t w i line) : ∃ v, t.drop i = w ++ v := by
  obtain ⟨u, v, rfl, rfl, -⟩ := h
  exact ⟨v, List.drop_left⟩

theorem Stands.lineOf_eq (h : Stands t w i line) : lineOf t i = line := by
  obtain ⟨u, v, rfl, rfl, rfl⟩ := h
  rw [lineOf, Int.toNat_natCast, List.take_left]

theorem Stands.length_le (h : Stands t w i line) : i + w.length ≤ t.length := by
  obtain ⟨u, v, rfl, rfl, -⟩ := h
  simp only [List.length_append]
  omega

theorem Stands.head?_drop {c : Char} (h : Stands t (c :: w) i line) :
    (t.drop i).head? = some c := by
  obtain ⟨v, hv⟩ := h.exists_drop
  rw [hv]
  rfl

theorem Stands.takeWhile_drop {p : Char → Bool} {c : Char} {b : Text}
    (h : Stands t (w ++ c :: b) i line) (hw : ∀ d ∈ w, p d = true) (hc : p c = false) :
    (t.drop i).takeWhile p = w := by
  obtain ⟨v, hv⟩ := h.exists_drop
  rw [hv, List.append_assoc, List.takeWhile_append_of_pos hw, List.cons_append,
    List.takeWhile_cons_of_neg (by simp [hc]), List.append_nil]

/-! ## Brackets -/

theorem Stands.blockEnd_eq {opener closer : Char} (hne : opener ≠ closer) {j : Nat}
    (h : Stands t w i line) (hw : Bracket.closing? opener closer 0 i w = some j) :
    Bracket.blockEnd opener closer t i = j := by
  obtain ⟨v, hv⟩ := h.exists_drop
  rw [Bracket.blockEnd, hv, Bracket.closing?_append hne, hw]
  rfl

/-- A block ends behind what is level in it. -/
theorem Stands.braceEnd_eq {b : Text} (h : Stands t ('\x7b' :: (w ++ '\x7d' :: b)) i line)
    (hw : Bracket.Level '\x7b' '\x7d' w) : Bracket.braceEnd t i = i + 1 + w.length := by
  refine h.blockEnd_eq (by decide) ?_
  rw [Bracket.closing?_block (by decide) hw (le_refl 0), if_pos rfl]

/-- Parentheses with nothing in them. -/
theorem Stands.parenEnd_eq {b : Text} (h : Stands t ("()".toList ++ b) i line) :
    Bracket.parenEnd t i = i + 1 :=
  h.left.blockEnd_eq (by decide) (by simp [Bracket.closing?])

theorem Stands.depthBetween_eq (h : Stands t w i line) :
    Bracket.depthBetween t i ((i + w.length : Nat) : Int) = Bracket.balance '\x7b' '\x7d' w := by
  have hlength := h.length_le
  obtain ⟨u, v, rfl, rfl, -⟩ := h
  have hslice : slice (u ++ (w ++ v)) (u.length : Int) ((u.length + w.length : Nat) : Int) = w := by
    have hfirst : place (u ++ (w ++ v)).length (u.length : Int) = u.length := by
      rw [place, if_pos (by omega), Int.toNat_natCast]
      omega
    have hlast : place (u ++ (w ++ v)).length ((u.length + w.length : Nat) : Int) =
        u.length + w.length := by
      rw [place, if_pos (by omega), Int.toNat_natCast]
      omega
    rw [slice, hfirst, hlast, ← List.append_assoc, ← List.length_append, List.take_left,
      List.drop_left]
  simp only [Bracket.depthBetween, hslice]
  rfl

/-! ## Bodies -/

theorem bodyMark?_append {c : Char} (hw : ∀ d ∈ w, d ≠ '\x7b' ∧ d ≠ ';')
    (hc : c = '\x7b' ∨ c = ';') (v : Text) (i : Nat) :
    bodyMark? i (w ++ c :: v) = some (c, i + w.length) := by
  induction w generalizing i with
  | nil =>
      have hmark : (c == '\x7b' || c == ';') = true := by simpa using hc
      rw [List.nil_append, bodyMark?, if_pos hmark]
      rfl
  | cons d w ih =>
      have hd : (d == '\x7b' || d == ';') = false := by simpa using hw d List.mem_cons_self
      rw [List.cons_append, bodyMark?, hd, List.length_cons]
      show bodyMark? (i + 1) (w ++ c :: v) = _
      rw [ih (fun e he => hw e (List.mem_cons_of_mem d he)) (i + 1)]
      congr 2
      omega

theorem Stands.bodyAfter_eq {b : Text} (h : Stands t (w ++ '\x7b' :: b) i line)
    (hw : ∀ d ∈ w, d ≠ '\x7b' ∧ d ≠ ';') :
    bodyAfter t i = ⟨some (i + w.length), Bracket.braceEnd t (i + w.length)⟩ := by
  obtain ⟨v, hv⟩ := h.exists_drop
  rw [List.append_assoc, List.cons_append] at hv
  rw [bodyAfter, hv, bodyMark?_append hw (Or.inl rfl)]
  rfl

end Text

end CodeAtlas
