import CodeAtlas.Proofs.Extraction.Moved
import CodeAtlas.Proofs.Pattern.Below

set_option autoImplicit false

/-! # Solidity that is moved down

Each pass over a Solidity file keeps the records moved down. All that a pass reads of a match and of the
outline is a text of a group, a position of the match or what is found from there, and each of these has its
lemma (`Text.below`, `Match.down`); what is left to see is that the definition it records is the other one,
moved down, which then holds by definition.
-/

namespace CodeAtlas

open Text

namespace Solidity

open Pattern Scan

variable {k : Nat} {s s' : Scan} {m : Match}

theorem containerExtent_below {t : Text} (ht : t ≠ []) (k i : Nat) :
    containerExtent (below k t) (i + k) = (containerExtent t i).down k := by
  simp only [containerExtent, drop_below, Bracket.braceEnd_below ht, last_below ht]
  split
  · rfl
  · rfl

theorem moved_addContainer (hm : container.Makes m) (h : s.Moved k s') :
    (addContainer s m).Moved k (addContainer s' (m.down k)) := by
  simp only [addContainer, h.outline, Match.stop_down, drop_below, containerExtent_below h.hasText,
    Match.group_down, Match.start_down, hm.groupStart_down (n := 2) rfl]
  split
  · -- A forward declaration is passed over.
    exact h
  · set d : Sighting :=
      { label := containerLabel (m.group 1), name := m.group 2, start := m.start
        finish := some (containerExtent s.outline m.stop).last, nameAt := some (m.groupStart 2) } with hd
    have hnamed : d.IsNamed := ⟨containerLabel_ne_file _, hm.isName_group takesName_identifier rfl⟩
    have hbody := h.define_addContainer hnamed (Int.natCast_nonneg _) (Int.natCast_nonneg _)
      (containerExtent s.outline m.stop)
    cases heritageClause.search? (m.group 3) with
    | none => exact hbody
    | some found =>
        refine hbody.addHeritage ?_ _ _
        rw [addContainer_definitions, addContainer_definitions]
        exact h.define_twins d

theorem moved_addStructOrEnum (hm : structOrEnum.Makes m) (h : s.Moved k s') :
    (addStructOrEnum s m).Moved k (addStructOrEnum s' (m.down k)) := by
  have hname : IsName (m.group 2) := hm.isName_group takesName_identifier rfl
  simp only [addStructOrEnum, h.outline, hm.pred_stop_down rfl,
    Bracket.braceEnd_below h.hasText, Match.group_down, Match.start_down, hm.groupStart_down (n := 2) rfl]
  split
  · exact h.define_addContainer ⟨by simp, hname⟩ (Int.natCast_nonneg _) (Int.natCast_nonneg _)
      ⟨some (m.stop - 1), Bracket.braceEnd s.outline (m.stop - 1)⟩
  · exact h.define ⟨by simp, hname⟩ (Int.natCast_nonneg _) (Int.natCast_nonneg _)

theorem moved_addEventOrError (hm : eventOrError.Makes m) (h : s.Moved k s') :
    (addEventOrError s m).Moved k (addEventOrError s' (m.down k)) := by
  have hname : IsName (m.group 2) := hm.isName_group takesName_identifier rfl
  have hlabel : Label.element ≠ Label.file := by decide
  have hlength := List.length_pos_of_ne_nil h.hasText
  simp only [addEventOrError, h.outline, Match.stop_down, drop_below, length_below,
    Match.group_down, Match.start_down, hm.groupStart_down (n := 2) rfl]
  cases Text.find? [';'] (s.outline.drop m.stop) with
  | none =>
      have hfinish : ((s.outline.length + k : Nat) : Int) - 1 = (s.outline.length : Int) - 1 + k := by omega
      simp only [hfinish]
      refine h.define ⟨hlabel, hname⟩ (Int.natCast_nonneg _) ?_
      show 0 ≤ (s.outline.length : Int) - 1
      omega
  | some j =>
      have hfinish : ((m.stop + k : Nat) : Int) + j = (m.stop : Int) + j + k := by omega
      simp only [hfinish]
      refine h.define ⟨hlabel, hname⟩ (Int.natCast_nonneg _) ?_
      show 0 ≤ (m.stop : Int) + j
      omega

/-- Everything that can be called is moved down with the block after its head. -/
theorem moved_addCallable {label : Label} {name : Text} (hlabel : label ≠ .file) (hname : IsName name)
    (h : s.Moved k s') (start headEnd : Nat) (tail : Text) (nameAt : Nat) :
    (addCallable s label name start headEnd tail nameAt).Moved k
      (addCallable s' label name (start + k) (headEnd + k) tail (nameAt + k)) := by
  simp only [addCallable, h.outline, bodyAfter_below h.hasText]
  exact h.define_addScope ⟨hlabel, hname⟩ (Int.natCast_nonneg _) (Int.natCast_nonneg _)
    (bodyAfter s.outline headEnd)

theorem moved_addModifier (hm : modifier.Makes m) (h : s.Moved k s') :
    (addModifier s m).Moved k (addModifier s' (m.down k)) := by
  simp only [addModifier, Match.group_down, Match.start_down, Match.stop_down,
    hm.groupStart_down (n := 1) rfl]
  exact moved_addCallable (by decide) (hm.isName_group takesName_identifier rfl) h _ _ _ _

theorem moved_addFunction (hm : function.Makes m) (h : s.Moved k s') :
    (addFunction s m).Moved k (addFunction s' (m.down k)) := by
  have howned : (s'.ownerOf ((m.start + k : Nat) : Int)).isSome = (s.ownerOf m.start).isSome :=
    isSome_eq_of_rel (h.rel_ownerOf (Int.natCast_nonneg _))
  have hhead : Bracket.parenEnd (below k s.outline) (m.stop - 1 + k) + 1 =
      Bracket.parenEnd s.outline (m.stop - 1) + 1 + k := by
    rw [Bracket.parenEnd_below h.hasText]
    omega
  simp only [addFunction, Match.start_down, howned, h.outline, hm.pred_stop_down rfl,
    hhead, drop_below, Match.group_down, hm.groupStart_down (n := 1) rfl]
  refine moved_addCallable ?_ (hm.isName_group takesName_identifier rfl) h _ _ _ _
  split_ifs <;> decide

theorem moved_addConstructor (h : s.Moved k s') (m : Match) :
    (addConstructor s m).Moved k (addConstructor s' (m.down k)) := by
  simp only [addConstructor, Match.group_down, Match.start_down, Match.stop_down]
  exact moved_addCallable (by decide) (by decide) h _ _ _ _

theorem moved_addSpecial (hm : special.Makes m) (h : s.Moved k s') :
    (addSpecial s m).Moved k (addSpecial s' (m.down k)) := by
  have hwords : (any [lit "fallback".toList, lit "receive".toList]).TakesName :=
    takesName_alt (takesName_lit (by decide)) (takesName_lit (by decide))
  simp only [addSpecial, Match.group_down, Match.start_down, Match.stop_down,
    hm.groupStart_down (n := 1) rfl]
  split
  · exact moved_addCallable (by decide) (hm.isName_group hwords rfl) h _ _ _ _
  · exact h

/-- **The record of a Solidity file is moved down with its text.** -/
theorem moved_scan (path code : Text) {outline : Text} (htext : outline ≠ []) :
    (scan path code outline).Moved k (scan path (below k code) (below k outline)) := by
  simp only [scan, findAll_below (p := container) rfl,
    findAll_below (p := structOrEnum) rfl, findAll_below (p := eventOrError) rfl,
    findAll_below (p := modifier) rfl, findAll_below (p := function) rfl,
    findAll_below (p := constructor) rfl, findAll_below (p := special) rfl]
  refine Moved.foldl ?_ fun m hm t t' h => moved_addSpecial (makes_of_mem_findAll hm) h
  refine Moved.foldl ?_ fun m hm t t' h => moved_addConstructor h m
  refine Moved.foldl ?_ fun m hm t t' h => moved_addFunction (makes_of_mem_findAll hm) h
  refine Moved.foldl ?_ fun m hm t t' h => moved_addModifier (makes_of_mem_findAll hm) h
  refine Moved.foldl ?_ fun m hm t t' h => moved_addEventOrError (makes_of_mem_findAll hm) h
  refine Moved.foldl ?_ fun m hm t t' h => moved_addStructOrEnum (makes_of_mem_findAll hm) h
  refine Moved.foldl ?_ fun m hm t t' h => moved_addContainer (makes_of_mem_findAll hm) h
  exact (Moved.start path code (below k code) htext).foldl_addImport rfl code

end Solidity

end CodeAtlas
