import CodeAtlas.Text.Position
import Mathlib.Tactic

set_option autoImplicit false

/-! # Lines

The lines of a text are the pieces between its line feeds, so there is one more of them than there are
line feeds (`length_splitOn`). A word without a line feed lies on one line, that of the position it stands
at (`exists_line`). The lines from one number up to another, if all of them exist, are what an excerpt
joins again (`IsLines.excerpt_eq`).
-/

namespace CodeAtlas

namespace Text

/-! ## Pieces -/

theorem splitOn_cons_of_ne {sep c : Char} (hc : c ≠ sep) (t : Text) :
    (c :: t).splitOn sep = (t.splitOn sep).modifyHead (c :: ·) := by
  rw [List.splitOn_cons_eq_if_modifyHead, if_neg (by simpa using hc)]

theorem length_splitOn (sep : Char) (t : Text) : (t.splitOn sep).length = t.count sep + 1 := by
  induction t with
  | nil => rw [List.splitOn_nil, List.length_singleton, List.count_nil]
  | cons c t ih =>
      by_cases hc : c = sep
      · rw [List.splitOn_cons_eq_if_modifyHead, if_pos (by simpa using hc), List.length_cons, ih, hc,
          List.count_cons_self]
      · rw [splitOn_cons_of_ne hc, List.length_modifyHead, ih, List.count_cons_of_ne hc]

/-- A word without a separator that starts the text starts the first piece. -/
theorem exists_splitOn_of_starts {sep : Char} {w t : Text} (hw : sep ∉ w) (h : w <+: t) :
    ∃ p ps, t.splitOn sep = p :: ps ∧ w <+: p := by
  induction t generalizing w with
  | nil =>
      rw [List.prefix_nil.mp h]
      exact ⟨[], [], rfl, List.nil_prefix⟩
  | cons c t ih =>
      cases w with
      | nil =>
          obtain ⟨p, ps, hp⟩ := List.exists_cons_of_ne_nil (List.splitOn_ne_nil sep (c :: t))
          exact ⟨p, ps, hp, List.nil_prefix⟩
      | cons d w =>
          rw [List.mem_cons, not_or] at hw
          obtain ⟨rfl, hstarts⟩ := List.cons_prefix_cons.mp h
          obtain ⟨p, ps, hp, hwp⟩ := ih hw.2 hstarts
          refine ⟨d :: p, ps, ?_, List.cons_prefix_cons.mpr ⟨rfl, hwp⟩⟩
          rw [splitOn_cons_of_ne (Ne.symm hw.1), hp, List.modifyHead_cons]

theorem intercalate_cons (sep : Char) (t : Text) (ts : List Text) :
    [sep].intercalate (t :: ts) = t ++ ts.flatMap (sep :: ·) := by
  induction ts generalizing t with
  | nil => rw [List.intercalate_singleton, List.flatMap_nil, List.append_nil]
  | cons u us ih =>
      rw [List.intercalate_cons_cons, ih, List.flatMap_cons, List.append_assoc,
        List.singleton_append, List.cons_append]

theorem intercalate_append {sep : Text} {ts us : List Text} (hts : ts ≠ []) (hus : us ≠ []) :
    sep.intercalate (ts ++ us) = sep.intercalate ts ++ sep ++ sep.intercalate us := by
  induction ts with
  | nil => exact absurd rfl hts
  | cons t ts ih =>
      cases ts with
      | nil =>
          rw [List.singleton_append, List.intercalate_cons_of_ne_nil hus, List.intercalate_singleton]
      | cons t' ts =>
          have hrest := ih (List.cons_ne_nil t' ts)
          rw [List.cons_append] at hrest
          rw [List.cons_append, List.cons_append, List.intercalate_cons_cons, hrest,
            List.intercalate_cons_cons]
          simp only [List.append_assoc]

theorem of_mem_intercalate {sep : Text} {ts : List Text} {c : Char} (h : c ∈ sep.intercalate ts) :
    c ∈ sep ∨ ∃ t ∈ ts, c ∈ t := by
  induction ts with
  | nil => simp at h
  | cons t ts ih =>
      cases ts with
      | nil =>
          rw [List.intercalate_singleton] at h
          exact Or.inr ⟨t, List.mem_cons_self, h⟩
      | cons t' ts =>
          rw [List.intercalate_cons_cons, List.mem_append, List.mem_append] at h
          rcases h with (h | h) | h
          · exact Or.inr ⟨t, List.mem_cons_self, h⟩
          · exact Or.inl h
          · rcases ih h with h | ⟨t, ht, hc⟩
            · exact Or.inl h
            · exact Or.inr ⟨t, List.mem_cons_of_mem _ ht, hc⟩

/-- What is joined stands in the text that results. -/
theorem infix_intercalate {sep l : Text} {ls : List Text} (h : l ∈ ls) : l <:+: sep.intercalate ls := by
  induction ls with
  | nil => exact absurd h List.not_mem_nil
  | cons t ts ih =>
      cases ts with
      | nil =>
          rw [List.mem_singleton.mp h, List.intercalate_singleton]
      | cons u us =>
          rw [List.intercalate_cons_cons]
          rcases List.mem_cons.mp h with rfl | hmem
          · rw [List.append_assoc]
            exact (List.prefix_append l _).isInfix
          · exact (ih hmem).trans (List.suffix_append _ _).isInfix

/-! ## Line numbers -/

theorem lineOf_zero (t : Text) : lineOf t (0 : Nat) = 0 := rfl

theorem lineOf_cons_succ (c : Char) (t : Text) (i : Nat) :
    lineOf (c :: t) ((i + 1 : Nat) : Int) = lineOf t i + if c = '\n' then 1 else 0 := by
  simp only [lineOf, Int.toNat_natCast, List.take_succ_cons, List.count_cons, beq_iff_eq]

theorem lineOf_mono (t : Text) {i j : Int} (hij : i ≤ j) : lineOf t i ≤ lineOf t j := by
  have hle : i.toNat ≤ j.toNat := Int.toNat_le_toNat hij
  exact (List.take_sublist_take_left hle).count_le '\n'

theorem lineOf_le_count (t : Text) (i : Int) : lineOf t i ≤ t.count '\n' :=
  (List.take_sublist _ t).count_le '\n'

/-- **A word lies on the line of its position**, if it has no line feed. -/
theorem exists_line {w t : Text} {i : Nat} (hw : '\n' ∉ w) (h : w <+: t.drop i) :
    ∃ l, (lines t)[lineOf t i]? = some l ∧ w <:+: l := by
  induction t generalizing i with
  | nil =>
      rw [List.drop_nil, List.prefix_nil] at h
      refine ⟨[], ?_, by rw [h]⟩
      rw [lineOf, List.take_nil]
      rfl
  | cons c t ih =>
      cases i with
      | zero =>
          rw [List.drop_zero] at h
          obtain ⟨p, ps, hp, hwp⟩ := exists_splitOn_of_starts hw h
          refine ⟨p, ?_, hwp.isInfix⟩
          rw [lineOf_zero, lines, hp]
          rfl
      | succ i =>
          obtain ⟨l, hl, hwl⟩ := ih h
          rw [lineOf_cons_succ, lines]
          by_cases hc : c = '\n'
          · rw [if_pos hc, List.splitOn_cons_eq_if_modifyHead, if_pos (beq_iff_eq.mpr hc)]
            exact ⟨l, hl, hwl⟩
          · obtain ⟨p, ps, hp⟩ := List.exists_cons_of_ne_nil (List.splitOn_ne_nil '\n' t)
            rw [lines, hp] at hl
            rw [if_neg hc, splitOn_cons_of_ne hc, hp, List.modifyHead_cons, Nat.add_zero]
            cases hline : lineOf t i with
            | zero =>
                -- The first line has the character in front of it.
                rw [hline, List.getElem?_cons_zero, Option.some_inj] at hl
                refine ⟨c :: p, rfl, ?_⟩
                rw [hl]
                exact hwl.trans (List.suffix_cons c l).isInfix
            | succ n =>
                rw [hline, List.getElem?_cons_succ] at hl
                exact ⟨l, hl, hwl⟩

/-! ## Lines that exist -/

/-- These are the lines from `first` up to `last`, and all of them exist. -/
def IsLines (t : Text) (first last : Int) (ls : List Text) : Prop :=
  ∃ before after, lines t = before ++ ls ++ after ∧ (before.length : Int) = first ∧
    (before.length + ls.length : Int) = last + 1

variable {t : Text} {first last : Int} {ls : List Text}

theorem exists_isLines {i j : Nat} (hij : i ≤ j) (hj : j ≤ t.count '\n') :
    ∃ ls, IsLines t i j ls := by
  have hlength : (lines t).length = t.count '\n' + 1 := length_splitOn '\n' t
  refine ⟨((lines t).take (j + 1)).drop i, (lines t).take i, (lines t).drop (j + 1), ?_, ?_, ?_⟩
  · calc lines t = (lines t).take (j + 1) ++ (lines t).drop (j + 1) :=
          (List.take_append_drop _ _).symm
      _ = ((lines t).take (j + 1)).take i ++ ((lines t).take (j + 1)).drop i
            ++ (lines t).drop (j + 1) := by rw [List.take_append_drop i]
      _ = (lines t).take i ++ ((lines t).take (j + 1)).drop i ++ (lines t).drop (j + 1) := by
          rw [List.take_take, min_eq_left (by omega)]
  · rw [List.length_take]
    omega
  · rw [List.length_drop, List.length_take, List.length_take]
    omega

namespace IsLines

/-- An excerpt is the lines it is asked for. -/
theorem excerpt_eq (h : IsLines t first last ls) : excerpt t first last = ['\n'].intercalate ls := by
  obtain ⟨before, after, hlines, rfl, hlast⟩ := h
  have hfirst : place (lines t).length before.length = before.length := by
    rw [place, if_pos (by omega), hlines]
    simp only [List.length_append]
    omega
  have hend : place (lines t).length (last + 1) = (before ++ ls).length := by
    rw [place, if_pos (by omega), hlines]
    simp only [List.length_append]
    omega
  rw [excerpt, slice, hfirst, hend, hlines, List.take_left, List.drop_left]

theorem mem_of_getElem? (h : IsLines t first last ls) {i : Nat} {l : Text} (hi : first ≤ i)
    (hlast : (i : Int) ≤ last) (hl : (lines t)[i]? = some l) : l ∈ ls := by
  obtain ⟨before, after, hlines, rfl, hlength⟩ := h
  rw [hlines, List.getElem?_append_left (by rw [List.length_append]; omega),
    List.getElem?_append_right (by omega)] at hl
  exact List.mem_of_getElem? hl

end IsLines

/-- A word that stands on one of the lines stands in the excerpt. -/
theorem infix_excerpt {w : Text} {i : Nat} (hw : '\n' ∉ w) (h : w <+: t.drop i)
    (hls : IsLines t first last ls) (hfirst : first ≤ lineOf t i) (hlast : (lineOf t i : Int) ≤ last) :
    w <:+: excerpt t first last := by
  obtain ⟨l, hl, hwl⟩ := exists_line hw h
  rw [hls.excerpt_eq]
  exact hwl.trans (infix_intercalate (hls.mem_of_getElem? hfirst hlast hl))

end Text

end CodeAtlas
