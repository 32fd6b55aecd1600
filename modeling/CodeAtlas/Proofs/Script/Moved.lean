import CodeAtlas.Proofs.Extraction.Moved
import CodeAtlas.Proofs.Pattern.Below

set_option autoImplicit false

/-! # Scripts that are moved down

Each pass over a script keeps the records moved down. The bodies of arrow functions are found by a search of
their own. A body that is an expression opens right before the expression, and for that there has to be a
position before it: an arrow stands there.
-/

namespace CodeAtlas.Script

open Pattern Scan Text

variable {k : Nat} {s s' : Scan} {m : Match} {t : Text}

/-! ## Bodies of arrow functions -/

theorem arrowEnd?_below (k : Nat) (t : Text) (head next : Nat) :
    arrowEnd? (below k t) (head + k) (next + k) = (arrowEnd? t head next).map (· + k) := by
  have hmatch : arrowAfterParameters.matchAt? (Cursor.window (below k t) (next + k) (below k t).length) =
      (arrowAfterParameters.matchAt? (Cursor.window t next t.length)).map (Match.down k) := by
    rw [length_below, Cursor.window_below]
    exact matchAt?_down rfl k _
  simp only [arrowEnd?, drop_below, hmatch]
  split
  · rw [Option.map_map, Option.map_map]
    exact Option.map_congr fun m _ => m.stop_down k
  · rw [Option.map_map]
    refine Option.map_congr fun j _ => ?_
    show head + k + j + 2 = head + j + 2 + k
    omega

theorem arrowBody_below (ht : t ≠ []) (k : Nat) {index : Nat} (hpos : 0 < index) :
    arrowBody (below k t) (index + k) = (arrowBody t index).down k := by
  have hfirst : ∀ gap, index + k + gap = index + gap + k := fun gap => by omega
  have hbefore : ∀ gap, index + gap + k - 1 = index + gap - 1 + k := fun gap => by omega
  simp only [arrowBody, drop_below, hfirst, Bracket.braceEnd_below ht, Bracket.expressionEnd_below ht,
    hbefore]
  split
  · rfl
  · rfl

theorem arrowBody?_below (ht : t ≠ []) (k head : Nat) :
    arrowBody? (below k t) (head + k) = (arrowBody? t head).map (Extent.down k) := by
  have hnext : Bracket.parenEnd t head + k + 1 = Bracket.parenEnd t head + 1 + k := by omega
  rw [arrowBody?, Bracket.parenEnd_below ht, hnext, arrowEnd?_below, arrowBody?]
  cases hindex : arrowEnd? t head (Bracket.parenEnd t head + 1) with
  | none => rfl
  | some index => exact congrArg some (arrowBody_below ht k (arrowEnd?_eq_some hindex).1)

/-- The body after the parameter list that opens at a position. -/
theorem bodyAfter_parenEnd_below (ht : t ≠ []) (k i : Nat) :
    bodyAfter (below k t) (Bracket.parenEnd (below k t) (i + k) + 1) =
      (bodyAfter t (Bracket.parenEnd t i + 1)).down k := by
  have hnext : Bracket.parenEnd t i + k + 1 = Bracket.parenEnd t i + 1 + k := by omega
  rw [Bracket.parenEnd_below ht, hnext, bodyAfter_below ht]

theorem variableBody?_below (hm : variableFunction.Makes m) (ht : t ≠ []) (k : Nat) :
    variableBody? (below k t) (m.down k) = (variableBody? t m).map (Extent.down k) := by
  simp only [variableBody?, Match.group_down, hm.pred_stop_down rfl,
    bodyAfter_parenEnd_below ht, hm.groupStart_down (n := 3) rfl, arrowBody?_below ht]
  split
  · show (if ((bodyAfter t _).first.map (· + k)).isSome then _ else _) = _
    rw [Option.isSome_map]
    split
    · rfl
    · rfl
  · rfl

/-! ## Passes -/

theorem moved_addModule (hm : moduleHead.Makes m) (h : s.Moved k s') :
    (addModule s m).Moved k (addModule s' (m.down k)) := by
  simp only [addModule, h.outline, hm.pred_stop_down rfl,
    Bracket.braceEnd_below h.hasText, Match.group_down, Match.start_down, Match.hasGroup_down,
    hm.groupStart_down (n := 2) rfl]
  exact h.define_addContainer ⟨by simp, hm.isName_group takesName_dottedName rfl⟩
    (Int.natCast_nonneg _) (Int.natCast_nonneg _)
    ⟨some (m.stop - 1), Bracket.braceEnd s.outline (m.stop - 1)⟩

section Parents

variable {x x' : Option Definition} (hx : Option.Rel (Twins s.definitions s'.definitions) x x')

include hx

theorem moved_addExtends (h : s.Moved k s') (clauses : Text) :
    (addExtends s x clauses).Moved k (addExtends s' x' clauses) := by
  unfold addExtends
  split
  · exact h.addHeritage hx _ _
  · exact h

theorem moved_addImplements (h : s.Moved k s') (clauses : Text) :
    (addImplements s x clauses).Moved k (addImplements s' x' clauses) := by
  unfold addImplements
  split
  · exact h.addHeritage hx _ _
  · exact h

end Parents

/-! ## Members of a class -/

/-- How deep a member stands in the body of its class. -/
theorem depthBetween_member (k : Nat) (t : Text) (first nameAt : Nat) :
    Bracket.depthBetween (below k t) (((first + k : Nat) : Int) + 1) ((nameAt + k : Nat) : Int) =
      Bracket.depthBetween t ((first : Int) + 1) nameAt := by
  have hbody : ((first + k : Nat) : Int) + 1 = (first : Int) + 1 + k := by omega
  rw [hbody, Nat.cast_add]
  exact depthBetween_below (by omega) (Int.natCast_nonneg _)

theorem moved_addMethod (hm : methodHead.Makes m) (h : s.Moved k s') (first : Nat) :
    (addMethod first s m).Moved k (addMethod (first + k) s' (m.down k)) := by
  have hname := (signed_group_methodHead hm).isName_dropWhile
  simp only [addMethod, h.outline, hm.pred_stop_down rfl, bodyAfter_parenEnd_below h.hasText,
    Match.group_down, hm.groupStart_down (n := 2) rfl, Nat.add_right_comm _ k, depthBetween_member]
  split
  · exact h
  · refine h.define_addScope ⟨?_, hname⟩ (Int.natCast_nonneg _) (Int.natCast_nonneg _)
      (bodyAfter s.outline (Bracket.parenEnd s.outline (m.stop - 1) + 1))
    split_ifs <;> simp

theorem moved_addFieldArrow (hm : fieldArrow.Makes m) (h : s.Moved k s') (first : Nat) :
    (addFieldArrow first s m).Moved k (addFieldArrow (first + k) s' (m.down k)) := by
  have hname := (signed_group_fieldArrow hm).isName_dropWhile
  simp only [addFieldArrow, h.outline, hm.groupStart_down (n := 3) rfl, arrowBody?_below h.hasText,
    Match.group_down, hm.groupStart_down (n := 2) rfl, Nat.add_right_comm _ k, depthBetween_member]
  split
  · exact h
  · cases arrowBody? s.outline (m.groupStart 3) with
    | none => exact h
    | some body =>
        exact h.define_addScope ⟨by simp, hname⟩ (Int.natCast_nonneg _) (Int.natCast_nonneg _) body

theorem moved_addMembers (h : s.Moved k s') (first last : Nat) :
    (addMembers s first last).Moved k (addMembers s' (first + k) (last + k)) := by
  have hbody : first + k + 1 = first + 1 + k := by omega
  have hmethods : ((methodHead.findAllIn s.outline (first + 1) last).foldl (addMethod first) s).Moved k
      ((methodHead.findAllIn s'.outline (first + k + 1) (last + k)).foldl (addMethod (first + k)) s') := by
    rw [h.outline, hbody, findAllIn_below rfl]
    exact h.foldl fun m hm t t' ht => moved_addMethod (makes_of_mem_findAllIn hm) ht first
  simp only [addMembers]
  rw [hmethods.outline, hbody, findAllIn_below rfl, ← hbody]
  exact hmethods.foldl fun m hm t t' ht => moved_addFieldArrow (makes_of_mem_findAllIn hm) ht first

/-! ## Declarations -/

/-- What is done in both or in neither keeps the records moved down. -/
theorem moved_ite {t t' : Scan} {b b' : Bool} (hb : b' = b) (ht : t.Moved k t') (hs : s.Moved k s') :
    (if b = true then t else s).Moved k (if b' = true then t' else s') := by
  rw [hb]
  split
  · exact ht
  · exact hs

theorem moved_addClass (hm : classHead.Makes m) (h : s.Moved k s') :
    (addClass s m).Moved k (addClass s' (m.down k)) := by
  simp only [addClass, h.outline, hm.pred_stop_down rfl, Bracket.braceEnd_below h.hasText,
    Match.group_down, Match.start_down, Match.hasGroup_down, hm.groupStart_down (n := 2) rfl]
  split
  · exact h
  · set d : Sighting :=
      { label := .classType, name := m.group 2, start := m.start
        finish := some (Bracket.braceEnd s.outline (m.stop - 1))
        isExported := m.hasGroup 1, nameAt := some (m.groupStart 2) } with hd
    set body : Extent := ⟨some (m.stop - 1), Bracket.braceEnd s.outline (m.stop - 1)⟩
    have hnamed : d.IsNamed := ⟨by simp [d], hm.isName_group takesName_identifier rfl⟩
    have hclass := h.define_addContainer hnamed (Int.natCast_nonneg _) (Int.natCast_nonneg _) body
    -- The class stands at the same place of both lists, so parents and members are added to it.
    have hx : Option.Rel
        (Twins ((s.define d).1.addContainer (s.define d).2 body).definitions
          ((s'.define (d.down k)).1.addContainer (s'.define (d.down k)).2 (body.down k)).definitions)
        (s.define d).2 (s'.define (d.down k)).2 := by
      rw [addContainer_definitions, addContainer_definitions]
      exact h.define_twins d
    have hextends := moved_addExtends hx hclass (Bracket.stripGenerics (m.group 3))
    have himplements := moved_addImplements (by rwa [addExtends_definitions, addExtends_definitions])
      hextends (Bracket.stripGenerics (m.group 3))
    have hmembers := moved_addMembers himplements (m.stop - 1) (Bracket.braceEnd s.outline (m.stop - 1))
    exact moved_ite (isSome_eq_of_rel hx) hmembers himplements

theorem moved_addInterface (hm : interfaceHead.Makes m) (h : s.Moved k s') :
    (addInterface s m).Moved k (addInterface s' (m.down k)) := by
  simp only [addInterface, h.outline, hm.pred_stop_down rfl,
    Bracket.braceEnd_below h.hasText, Match.group_down, Match.start_down, Match.hasGroup_down,
    hm.groupStart_down (n := 2) rfl]
  set d : Sighting :=
    { label := .interfaceType, name := m.group 2, start := m.start
      finish := some (Bracket.braceEnd s.outline (m.stop - 1))
      isExported := m.hasGroup 1, nameAt := some (m.groupStart 2) }
  have hnamed : d.IsNamed := ⟨by simp [d], hm.isName_group takesName_identifier rfl⟩
  exact moved_addExtends (h.define_twins d)
    (h.define hnamed (Int.natCast_nonneg _) (Int.natCast_nonneg _)) _

theorem moved_addEnum (hm : enumHead.Makes m) (h : s.Moved k s') :
    (addEnum s m).Moved k (addEnum s' (m.down k)) := by
  simp only [addEnum, h.outline, hm.pred_stop_down rfl,
    Bracket.braceEnd_below h.hasText, Match.group_down, Match.start_down, Match.hasGroup_down,
    hm.groupStart_down (n := 2) rfl]
  exact h.define ⟨by simp, hm.isName_group takesName_identifier rfl⟩ (Int.natCast_nonneg _)
    (Int.natCast_nonneg _)

theorem moved_addFunction (hm : functionHead.Makes m) (h : s.Moved k s') :
    (addFunction s m).Moved k (addFunction s' (m.down k)) := by
  simp only [addFunction, h.outline, hm.pred_stop_down rfl,
    bodyAfter_parenEnd_below h.hasText, Match.group_down, Match.start_down, Match.hasGroup_down,
    hm.groupStart_down (n := 2) rfl]
  exact h.define_addScope ⟨by simp, hm.isName_group takesName_identifier rfl⟩ (Int.natCast_nonneg _)
    (Int.natCast_nonneg _) (bodyAfter s.outline (Bracket.parenEnd s.outline (m.stop - 1) + 1))

theorem moved_addVariableFunction (hm : variableFunction.Makes m) (h : s.Moved k s') :
    (addVariableFunction s m).Moved k (addVariableFunction s' (m.down k)) := by
  simp only [addVariableFunction, h.outline, variableBody?_below hm h.hasText, Match.group_down,
    Match.start_down, Match.hasGroup_down, hm.groupStart_down (n := 2) rfl]
  cases variableBody? s.outline m with
  | none => exact h
  | some body =>
      exact h.define_addScope ⟨by simp, hm.isName_group takesName_identifier rfl⟩
        (Int.natCast_nonneg _) (Int.natCast_nonneg _) body

/-- The imports of all forms are found in both. -/
theorem moved_addImports (h : s.Moved k s') {forms : List Pattern}
    (hforms : ∀ p ∈ forms, p.movesDown = true) (code : Text) :
    (forms.foldl (fun s p => (p.findAll code).foldl (fun s m => s.addImport (m.group 1)) s) s).Moved k
      (forms.foldl (fun s p => (p.findAll (below k code)).foldl (fun s m => s.addImport (m.group 1)) s)
        s') := by
  induction forms generalizing s s' with
  | nil => exact h
  | cons p forms ih =>
      have hfirst := h.foldl_addImport (hforms p List.mem_cons_self) code
      exact ih hfirst fun q hq => hforms q (List.mem_cons_of_mem p hq)

/-- **The record of a script is moved down with its text.** -/
theorem moved_scan (path code : Text) {outline : Text} (htext : outline ≠ []) :
    (scan path code outline).Moved k (scan path (below k code) (below k outline)) := by
  simp only [scan, findAll_below (p := moduleHead) rfl, findAll_below (p := classHead) rfl,
    findAll_below (p := interfaceHead) rfl, findAll_below (p := enumHead) rfl,
    findAll_below (p := functionHead) rfl, findAll_below (p := variableFunction) rfl]
  refine Moved.foldl ?_ fun m hm t t' h => moved_addVariableFunction (makes_of_mem_findAll hm) h
  refine Moved.foldl ?_ fun m hm t t' h => moved_addFunction (makes_of_mem_findAll hm) h
  refine Moved.foldl ?_ fun m hm t t' h => moved_addEnum (makes_of_mem_findAll hm) h
  refine Moved.foldl ?_ fun m hm t t' h => moved_addInterface (makes_of_mem_findAll hm) h
  refine Moved.foldl ?_ fun m hm t t' h => moved_addClass (makes_of_mem_findAll hm) h
  refine Moved.foldl ?_ fun m hm t t' h => moved_addModule (makes_of_mem_findAll hm) h
  exact moved_addImports (Moved.start path code (below k code) htext) (by decide) code

end CodeAtlas.Script
