import CodeAtlas.Graph.Build
import CodeAtlas.Proofs.Extraction.Consistent
import CodeAtlas.Proofs.Pattern.Groups
import CodeAtlas.Proofs.Text.Lines

set_option autoImplicit false

/-! # The lines of a definition

A definition is recorded with the lines of its start and its end, which are read off the text without
comments and literals, and its excerpt is cut by these numbers from the source itself. The lines all exist
and the name stands on one of them (`Language.lines_covered`).

Whatever the construct is, its name stands between the start of the head and the end of the body
(`Head.Shows`): the pattern of the head takes the name, and a body that is looked for from a position on
does not end before that position (`Extent.EndsFrom`), not even where a bracket is missing. A scan keeps to
such heads (`Scan.Placed`).
-/

namespace CodeAtlas

/-! ## Bodies end behind their heads -/

/-- The extent ends in the text, at a position or behind it. -/
def Extent.EndsFrom (t : Text) (i : Nat) (e : Extent) : Prop := i ≤ e.last ∧ e.last < t.length

section Ends

variable {t : Text} {i k : Nat}

theorem Bracket.le_blockEnd {opener closer : Char} (hik : i ≤ k) (hi : i < t.length) :
    i ≤ blockEnd opener closer t k := by
  unfold blockEnd
  cases hclosed : closing? opener closer 0 k (t.drop k) with
  | none =>
      rw [Option.getD_none]
      omega
  | some j => exact hik.trans (closing?_bounds hclosed).1

theorem Bracket.le_expressionEnd (hik : i < k) (hi : i < t.length) : i ≤ expressionEnd t k := by
  unfold expressionEnd
  cases hend : expressionEndFrom k 0 k (t.drop k) with
  | none =>
      rw [Option.getD_none]
      omega
  | some j =>
      obtain ⟨p, hkp, -, hpj, -⟩ := expressionEndFrom_bounds hend
      rw [Option.getD_some]
      omega

theorem endsFrom_block {opener closer : Char} (first : Option Nat) (hik : i ≤ k)
    (hi : i < t.length) : Extent.EndsFrom t i ⟨first, Bracket.blockEnd opener closer t k⟩ := by
  refine ⟨Bracket.le_blockEnd hik hi, ?_⟩
  show Bracket.blockEnd opener closer t k < t.length
  exact (Bracket.blockEnd_le_length t k).trans_lt (by omega)

theorem endsFrom_last (first : Option Nat) (hi : i < t.length) :
    Extent.EndsFrom t i ⟨first, t.length - 1⟩ := by
  constructor
  · show i ≤ t.length - 1
    omega
  · show t.length - 1 < t.length
    omega

theorem bodyAfter_endsFrom (hik : i ≤ k) (hi : i < t.length) : (bodyAfter t k).EndsFrom t i := by
  unfold bodyAfter
  split
  · exact endsFrom_last none hi
  · next c j hmark =>
    obtain ⟨-, n, rfl, hn⟩ := bodyMark?_eq_some hmark
    have hlt : n < (t.drop k).length := (List.getElem?_eq_some_iff.mp hn).1
    rw [List.length_drop] at hlt
    split
    · constructor
      · show i ≤ k + n
        omega
      · show k + n < t.length
        omega
    · exact endsFrom_block _ (by omega) hi

theorem parameters_endsFrom (hik : i ≤ k) (hi : i < t.length) :
    (bodyAfter t (Bracket.parenEnd t k + 1)).EndsFrom t i :=
  bodyAfter_endsFrom ((Bracket.le_blockEnd hik hi).trans (Nat.le_succ _)) hi

theorem Solidity.containerExtent_endsFrom (hik : i ≤ k) (hi : i < t.length) :
    (containerExtent t k).EndsFrom t i := by
  unfold containerExtent
  split
  · exact endsFrom_block _ hik hi
  · exact endsFrom_last none hi

theorem Solidity.eventHead_endsFrom {m : Match} (him : i ≤ m.stop) (hi : i < t.length) :
    (eventHead t m).extent.EndsFrom t i := by
  unfold eventHead
  cases hfound : Text.find? [';'] (t.drop m.stop) with
  | none => exact endsFrom_last none hi
  | some j =>
      have hlength := (Text.find?_eq_some hfound).length_le
      rw [List.length_singleton, List.length_drop, List.length_drop] at hlength
      constructor
      · show i ≤ m.stop + j
        omega
      · show m.stop + j < t.length
        omega

theorem Script.lt_of_arrowEnd? {next index : Nat} (h : arrowEnd? t k next = some index) (hik : i ≤ k)
    (hnext : i < next) (hi : i < t.length) : i < index := by
  simp only [arrowEnd?] at h
  split at h
  · obtain ⟨m, hm, rfl⟩ := Option.map_eq_some_iff.mp h
    obtain ⟨hfirst, hmakes⟩ := Pattern.makes_of_matchAt? hm
    have hstart : m.start = min next t.length := by
      rw [Match.start, hfirst]
      show (t.take next).reverse.length = min next t.length
      rw [List.length_reverse, List.length_take]
    have hle := hmakes.start_le_stop
    omega
  · obtain ⟨j, -, rfl⟩ := Option.map_eq_some_iff.mp h
    omega

theorem Script.arrowBody_endsFrom (hik : i < k) (hi : i < t.length) :
    (arrowBody t k).EndsFrom t i := by
  simp only [arrowBody]
  split
  · exact endsFrom_block _ (by omega) hi
  · refine ⟨Bracket.le_expressionEnd (by omega) hi, ?_⟩
    exact (Bracket.expressionEnd_le_length t _).trans_lt (by omega)

theorem Script.arrowBody?_endsFrom {e : Extent} (h : arrowBody? t k = some e) (hik : i ≤ k)
    (hi : i < t.length) : e.EndsFrom t i := by
  obtain ⟨index, hindex, rfl⟩ := Option.map_eq_some_iff.mp h
  have hnext : i < Bracket.parenEnd t k + 1 := Nat.lt_succ_of_le (Bracket.le_blockEnd hik hi)
  exact arrowBody_endsFrom (lt_of_arrowEnd? hindex hik hnext hi) hi

theorem Script.variableBody?_endsFrom {m : Match} {e : Extent} (h : variableBody? t m = some e)
    (him : i < m.stop) (hgroup : i ≤ m.groupStart 3) (hi : i < t.length) : e.EndsFrom t i := by
  simp only [variableBody?] at h
  split at h
  · rw [Option.ite_none_right_eq_some, Option.some_inj] at h
    rw [← h.2]
    exact parameters_endsFrom (by omega) hi
  · exact arrowBody?_endsFrom h hgroup hi

end Ends

/-! ## Heads show names -/

theorem Text.lt_length_of_stands {t w : Text} {i : Nat} (hw : w ≠ []) (h : w <+: t.drop i) :
    i < t.length := by
  by_contra hle
  rw [List.drop_eq_nil_of_le (Nat.le_of_not_lt hle), List.prefix_nil] at h
  exact hw h

namespace Head

/-- A name stands between the start of a head and the end of its extent. -/
def Shows (g : Head) (t name : Text) : Prop :=
  ∃ i, g.start ≤ i ∧ g.extent.EndsFrom t i ∧ name <+: t.drop i

variable {p : Pattern} {n : Nat} {t : Text} {m : Match}

/-- The head ends behind whatever its match takes. -/
def EndsBehind (g : Head) (t : Text) (m : Match) : Prop :=
  ∀ i, i < m.stop → i < t.length → g.extent.EndsFrom t i

theorem endsBehind_block (t : Text) (m : Match) : (block t m).EndsBehind t m :=
  fun _ hstop hi => endsFrom_block _ (Nat.le_pred_of_lt hstop) hi

theorem endsBehind_plain (t : Text) (m : Match) : (plain t m).EndsBehind t m :=
  fun _ hstop hi => bodyAfter_endsFrom hstop.le hi

theorem endsBehind_parameters (t : Text) (m : Match) : (parameters t m).EndsBehind t m :=
  fun _ hstop hi => parameters_endsFrom (Nat.le_pred_of_lt hstop) hi

/-- A head shows the name that its pattern takes, if it ends behind what the pattern takes. -/
theorem EndsBehind.shows {g : Head} (hg : g.EndsBehind t m) (hstart : g.start = m.start)
    (h : m ∈ p.findAll t) (hp : p.remembers n = true)
    (hq : (p.groupBodies n).all Pattern.mustTake = true) : g.Shows t (m.group n) := by
  have hmakes := Pattern.makes_of_mem_findAll h
  have hshows := hmakes.shows (Pattern.liesIn_of_mem_findAll h) hp
  have hne := hmakes.group_ne_nil hp hq
  have hlength : 0 < (m.group n).length := List.length_pos_iff.mpr hne
  have hstop : m.groupStart n < m.stop := by
    have := hshows.le_stop
    omega
  exact ⟨m.groupStart n, hstart ▸ hshows.start_le,
    hg _ hstop (Text.lt_length_of_stands hne hshows.stands), hshows.stands⟩

end Head

/-- A constructor is named by the word that its head starts with. -/
theorem Solidity.shows_constructor {t : Text} {m : Match} (h : m ∈ constructor.findAll t) :
    (Head.plain t m).Shows t "constructor".toList := by
  have hmakes := Pattern.makes_of_mem_findAll h
  have hstop := hmakes.start_le_stop
  obtain ⟨u, hfits, -, -⟩ := hmakes
  simp only [constructor, Pattern.fits_all_cons] at hfits
  obtain ⟨s₁, hboundary, s₂, hword, -⟩ := hfits
  cases hboundary
  have hstands := (Pattern.liesIn_of_mem_findAll h).reads (Pattern.fits_lit hword)
  exact ⟨m.start, le_refl _,
    bodyAfter_endsFrom hstop (Text.lt_length_of_stands (by decide) hstands), hstands⟩

namespace Script

variable {t : Text} {m : Match} {signs name : Text}

/-- A name with signs before it stands behind the signs. -/
theorem stands_memberName (h : m.Shows t 2) (hname : SignedName (m.group 2) signs name) :
    name <+: t.drop (memberNameAt m) := by
  have hat : memberNameAt m = m.groupStart 2 + signs.length := by
    rw [memberNameAt, hname.dropWhile_eq, hname.length_sub]
  obtain ⟨v, hv⟩ := h.stands
  rw [hat, ← List.drop_drop, ← hv, hname.eq_append, List.append_assoc, List.drop_left]
  exact List.prefix_append name v

theorem memberNameAt_lt (hname : SignedName (m.group 2) signs name) :
    memberNameAt m < m.groupStart 2 + (m.group 2).length := by
  obtain ⟨c, rest, hcons, -⟩ := hname.exists_cons
  rw [memberNameAt, hname.dropWhile_eq, hname.length_sub, hname.eq_append, List.length_append, hcons,
    List.length_cons]
  omega

/-- The head of a member shows its name, if the body ends behind the name. -/
theorem shows_member (h : m.Shows t 2) (hname : SignedName (m.group 2) signs name) {e : Extent}
    (he : memberNameAt m < t.length → e.EndsFrom t (memberNameAt m)) :
    (⟨memberNameAt m, e⟩ : Head).Shows t ((m.group 2).dropWhile fun c => !isNameStart c) := by
  have hstands := stands_memberName h hname
  obtain ⟨c, rest, hcons, -⟩ := hname.exists_cons
  have hne : name ≠ [] := by rw [hcons]; exact List.cons_ne_nil c rest
  rw [hname.dropWhile_eq]
  exact ⟨memberNameAt m, le_refl _, he (Text.lt_length_of_stands hne hstands), hstands⟩

theorem shows_memberHead {index limit : Nat} (h : m ∈ methodHead.findAllIn t index limit) :
    (memberHead t m).Shows t ((m.group 2).dropWhile fun c => !isNameStart c) := by
  have hmakes := Pattern.makes_of_mem_findAllIn h
  have hshows := hmakes.shows (n := 2) (Pattern.liesIn_of_mem_findAllIn h) rfl
  obtain ⟨signs, hname⟩ := signedName_methodName hmakes
  have hstop : memberNameAt m < m.stop := (memberNameAt_lt hname).trans_le hshows.le_stop
  exact shows_member hshows hname fun hi => parameters_endsFrom (Nat.le_pred_of_lt hstop) hi

theorem shows_fieldHead {index limit : Nat} (h : m ∈ fieldArrow.findAllIn t index limit) {g : Head}
    (hg : g ∈ fieldHead? t m) :
    g.Shows t ((m.group 2).dropWhile fun c => !isNameStart c) := by
  have hmakes := Pattern.makes_of_mem_findAllIn h
  have hshows := hmakes.shows (n := 2) (Pattern.liesIn_of_mem_findAllIn h) rfl
  obtain ⟨signs, hname⟩ := signedName_fieldName hmakes
  obtain ⟨e, he, rfl⟩ := Option.map_eq_some_iff.mp hg
  -- The arrow function is the last part of the pattern.
  have hbefore : m.groupStart 2 + (m.group 2).length ≤ m.groupStart 3 :=
    hmakes.group_before 8 rfl rfl rfl rfl
  have hat := memberNameAt_lt hname
  exact shows_member hshows hname fun hi => arrowBody?_endsFrom he (by omega) hi

theorem shows_variableHead (h : m ∈ variableFunction.findAll t) {g : Head}
    (hg : g ∈ variableHead? t m) : g.Shows t (m.group 2) := by
  have hmakes := Pattern.makes_of_mem_findAll h
  have hshows := hmakes.shows (n := 2) (Pattern.liesIn_of_mem_findAll h) rfl
  have hne : m.group 2 ≠ [] := hmakes.group_ne_nil rfl rfl
  have hlength : 0 < (m.group 2).length := List.length_pos_iff.mpr hne
  have hbefore : m.groupStart 2 + (m.group 2).length ≤ m.groupStart 3 :=
    hmakes.group_before 10 rfl rfl rfl rfl
  have hstop := hshows.le_stop
  obtain ⟨e, he, rfl⟩ := Option.map_eq_some_iff.mp hg
  exact ⟨m.groupStart 2, hshows.start_le, variableBody?_endsFrom he (by omega) (by omega)
    (Text.lt_length_of_stands hne hshows.stands), hshows.stands⟩

end Script

/-! ## The invariant -/

namespace Scan

/-- Every definition is at a head that shows its name, with the lines of the ends of the head. -/
structure Placed (t : Text) (s : Scan) : Prop where
  outline_eq : s.outline = t
  definition : ∀ x ∈ s.definitions, ∃ g : Head, g.Shows t x.name ∧ x.start = g.start ∧
    x.startLine = Text.lineOf t g.start ∧ x.endLine = Text.lineOf t g.extent.last

namespace Placed

variable {t : Text} {s : Scan}

theorem start (path code outline : Text) :
    Placed outline { path := path, code := code, outline := outline } := by
  constructor <;> simp

/-- Only the text and the definitions count. -/
theorem congr {s' : Scan} (h : s.Placed t) (houtline : s'.outline = s.outline)
    (hdefinitions : s'.definitions = s.definitions) : s'.Placed t :=
  ⟨houtline.trans h.outline_eq, by rw [hdefinitions]; exact h.definition⟩

theorem addImport (h : s.Placed t) (path : Text) : (s.addImport path).Placed t := by
  simp only [Scan.addImport]
  split
  · exact h
  · exact h.congr rfl rfl

theorem addContainer (h : s.Placed t) (x : Option Definition) (e : Extent) :
    (s.addContainer x e).Placed t := by
  unfold Scan.addContainer
  split
  · exact h.congr rfl rfl
  · exact h

theorem addScope (h : s.Placed t) (x : Option Definition) (e : Extent) :
    (s.addScope x e).Placed t := by
  unfold Scan.addScope
  split
  · split
    · exact h.congr rfl rfl
    · exact h
  · exact h

theorem addHeritage (h : s.Placed t) (x : Option Definition) (clauses : List Text)
    (kind : HeritageKind) : (s.addHeritage x clauses kind).Placed t := by
  unfold Scan.addHeritage
  split
  · exact h.congr rfl rfl
  · exact h

theorem define (h : s.Placed t) {d : Sighting} {g : Head} (hg : g.Shows t d.name)
    (hd : d.IsAt g) : (s.define d).1.Placed t := by
  by_cases hseen : (d.label, d.name, d.start) ∈ s.seen
  · rwa [define_of_seen hseen]
  · rw [define_of_not_seen hseen]
    refine { h with definition := fun x hx => ?_ }
    rcases List.mem_append.mp hx with hx | hx
    · exact h.definition x hx
    · obtain rfl := List.mem_singleton.mp hx
      refine ⟨g, hg, hd.1, ?_, ?_⟩
      · simp only [definitionOf, Scan.lineOf, hd.1, h.outline_eq]
      · simp only [definitionOf, Scan.lineOf, hd.2, Option.getD_some, h.outline_eq]

end Placed

end Scan

/-! ## The passes keep it -/

namespace Solidity

open Scan

variable {t : Text} {s : Scan} {m : Match}

theorem placed_addContainer (h : s.Placed t) (hm : m ∈ container.findAll t) :
    (addContainer s m).Placed t := by
  obtain rfl := h.outline_eq
  unfold addContainer
  split
  · exact h
  · have hends : (containerHead s.outline m).EndsBehind s.outline m :=
      fun _ hstop hi => containerExtent_endsFrom hstop.le hi
    have hg := hends.shows (n := 2) rfl hm rfl rfl
    have hbody := (h.define (d :=
      { label := containerLabel (m.group 1), name := m.group 2, start := m.start
        finish := some (containerExtent s.outline m.stop).last, nameAt := some (m.groupStart 2) })
      hg ⟨rfl, rfl⟩).addContainer
    cases heritageClause.search? (m.group 3) with
    | none => exact hbody _ _
    | some found => exact (hbody _ _).addHeritage _ _ _

theorem placed_addStructOrEnum (h : s.Placed t) (hm : m ∈ structOrEnum.findAll t) :
    (addStructOrEnum s m).Placed t := by
  obtain rfl := h.outline_eq
  have hg := (Head.endsBehind_block _ m).shows (n := 2) rfl hm rfl rfl
  simp only [addStructOrEnum]
  split
  · exact (h.define hg ⟨rfl, rfl⟩).addContainer _ _
  · exact h.define hg ⟨rfl, rfl⟩

theorem placed_addEventOrError (h : s.Placed t) (hm : m ∈ eventOrError.findAll t) :
    (addEventOrError s m).Placed t := by
  obtain rfl := h.outline_eq
  have hends : (eventHead s.outline m).EndsBehind s.outline m :=
    fun _ hstop hi => eventHead_endsFrom hstop.le hi
  have hg := hends.shows (n := 2) rfl hm rfl rfl
  exact h.define hg ⟨rfl, congrArg some (eventHead_last_eq hm)⟩

theorem placed_addCallable (h : s.Placed t) {start headEnd : Nat} {name : Text}
    (hg : (⟨start, bodyAfter t headEnd⟩ : Head).Shows t name) (label : Label) (tail : Text)
    (nameAt : Nat) : (addCallable s label name start headEnd tail nameAt).Placed t := by
  obtain rfl := h.outline_eq
  exact (h.define hg ⟨rfl, rfl⟩).addScope _ _

theorem placed_addModifier (h : s.Placed t) (hm : m ∈ modifier.findAll t) :
    (addModifier s m).Placed t :=
  placed_addCallable h ((Head.endsBehind_plain _ m).shows rfl hm rfl rfl) _ _ _

theorem placed_addFunction (h : s.Placed t) (hm : m ∈ function.findAll t) :
    (addFunction s m).Placed t := by
  obtain rfl := h.outline_eq
  exact placed_addCallable h ((Head.endsBehind_parameters _ m).shows rfl hm rfl rfl) _ _ _

theorem placed_addConstructor (h : s.Placed t) (hm : m ∈ constructor.findAll t) :
    (addConstructor s m).Placed t :=
  placed_addCallable h (shows_constructor hm) _ _ _

theorem placed_addSpecial (h : s.Placed t) (hm : m ∈ special.findAll t) :
    (addSpecial s m).Placed t := by
  unfold addSpecial
  split
  · exact placed_addCallable h ((Head.endsBehind_plain _ m).shows rfl hm rfl rfl) _ _ _
  · exact h

theorem placed_scan (path code outline : Text) : (scan path code outline).Placed outline := by
  unfold scan
  refine List.foldlRecOn _ _ ?_ fun s h m hm => placed_addSpecial h hm
  refine List.foldlRecOn _ _ ?_ fun s h m hm => placed_addConstructor h hm
  refine List.foldlRecOn _ _ ?_ fun s h m hm => placed_addFunction h hm
  refine List.foldlRecOn _ _ ?_ fun s h m hm => placed_addModifier h hm
  refine List.foldlRecOn _ _ ?_ fun s h m hm => placed_addEventOrError h hm
  refine List.foldlRecOn _ _ ?_ fun s h m hm => placed_addStructOrEnum h hm
  refine List.foldlRecOn _ _ ?_ fun s h m hm => placed_addContainer h hm
  exact List.foldlRecOn _ _ (Placed.start path code outline) fun s h m _ => h.addImport (m.group 1)

end Solidity

namespace Script

open Scan

variable {t : Text} {s : Scan} {m : Match}

theorem placed_addModule (h : s.Placed t) (hm : m ∈ moduleHead.findAll t) :
    (addModule s m).Placed t := by
  obtain rfl := h.outline_eq
  have hg := (Head.endsBehind_block _ m).shows (n := 2) rfl hm rfl rfl
  exact (h.define hg ⟨rfl, rfl⟩).addContainer _ _

theorem placed_addExtends (h : s.Placed t) (x : Option Definition) (clauses : Text) :
    (addExtends s x clauses).Placed t := by
  unfold addExtends
  split
  · exact h.addHeritage _ _ _
  · exact h

theorem placed_addImplements (h : s.Placed t) (x : Option Definition) (clauses : Text) :
    (addImplements s x clauses).Placed t := by
  unfold addImplements
  split
  · exact h.addHeritage _ _ _
  · exact h

theorem placed_addMethod (h : s.Placed t) {index limit : Nat}
    (hm : m ∈ methodHead.findAllIn t index limit) (first : Nat) :
    (addMethod first s m).Placed t := by
  obtain rfl := h.outline_eq
  simp only [addMethod]
  split
  · exact h
  · exact (h.define (shows_memberHead hm) ⟨rfl, rfl⟩).addScope _ _

theorem placed_addFieldArrow (h : s.Placed t) {index limit : Nat}
    (hm : m ∈ fieldArrow.findAllIn t index limit) (first : Nat) :
    (addFieldArrow first s m).Placed t := by
  obtain rfl := h.outline_eq
  simp only [addFieldArrow]
  split
  · exact h
  · split
    · exact h
    · next e he =>
      have hg := shows_fieldHead hm (Option.map_eq_some_iff.mpr ⟨e, he, rfl⟩)
      exact (h.define hg ⟨rfl, rfl⟩).addScope _ _

theorem placed_addMembers (h : s.Placed t) (first last : Nat) :
    (addMembers s first last).Placed t := by
  simp only [addMembers, h.outline_eq]
  have hmethods : ((methodHead.findAllIn t (first + 1) last).foldl (addMethod first) s).Placed t :=
    List.foldlRecOn _ _ h fun s h m hm => placed_addMethod h hm first
  rw [hmethods.outline_eq]
  exact List.foldlRecOn _ _ hmethods fun s h m hm => placed_addFieldArrow h hm first

theorem placed_addClass (h : s.Placed t) (hm : m ∈ classHead.findAll t) :
    (addClass s m).Placed t := by
  obtain rfl := h.outline_eq
  simp only [addClass]
  split
  · exact h
  · set d : Sighting :=
      { label := .classType, name := m.group 2, start := m.start
        finish := some (Bracket.braceEnd s.outline (m.stop - 1))
        isExported := m.hasGroup 1, nameAt := some (m.groupStart 2) }
    set clauses := Bracket.stripGenerics (m.group 3)
    have hclass : (s.define d).1.Placed s.outline :=
      h.define ((Head.endsBehind_block _ m).shows (n := 2) rfl hm rfl rfl) ⟨rfl, rfl⟩
    have hbody := hclass.addContainer (s.define d).2
      ⟨some (m.stop - 1), Bracket.braceEnd s.outline (m.stop - 1)⟩
    have hparents := placed_addImplements
      (placed_addExtends hbody (s.define d).2 clauses) (s.define d).2 clauses
    split
    · exact placed_addMembers hparents _ _
    · exact hparents

theorem placed_addInterface (h : s.Placed t) (hm : m ∈ interfaceHead.findAll t) :
    (addInterface s m).Placed t := by
  obtain rfl := h.outline_eq
  have hg := (Head.endsBehind_block _ m).shows (n := 2) rfl hm rfl rfl
  exact placed_addExtends (h.define hg ⟨rfl, rfl⟩) _ _

theorem placed_addEnum (h : s.Placed t) (hm : m ∈ enumHead.findAll t) : (addEnum s m).Placed t := by
  obtain rfl := h.outline_eq
  exact h.define ((Head.endsBehind_block _ m).shows (n := 2) rfl hm rfl rfl) ⟨rfl, rfl⟩

theorem placed_addFunction (h : s.Placed t) (hm : m ∈ functionHead.findAll t) :
    (addFunction s m).Placed t := by
  obtain rfl := h.outline_eq
  have hg := (Head.endsBehind_parameters _ m).shows (n := 2) rfl hm rfl rfl
  exact (h.define hg ⟨rfl, rfl⟩).addScope _ _

theorem placed_addVariableFunction (h : s.Placed t) (hm : m ∈ variableFunction.findAll t) :
    (addVariableFunction s m).Placed t := by
  obtain rfl := h.outline_eq
  unfold addVariableFunction
  split
  · exact h
  · next e he =>
    have hg := shows_variableHead hm (Option.map_eq_some_iff.mpr ⟨e, he, rfl⟩)
    exact (h.define hg ⟨rfl, rfl⟩).addScope _ _

theorem placed_scan (path code outline : Text) : (scan path code outline).Placed outline := by
  unfold scan
  refine List.foldlRecOn _ _ ?_ fun s h m hm => placed_addVariableFunction h hm
  refine List.foldlRecOn _ _ ?_ fun s h m hm => placed_addFunction h hm
  refine List.foldlRecOn _ _ ?_ fun s h m hm => placed_addEnum h hm
  refine List.foldlRecOn _ _ ?_ fun s h m hm => placed_addInterface h hm
  refine List.foldlRecOn _ _ ?_ fun s h m hm => placed_addClass h hm
  refine List.foldlRecOn _ _ ?_ fun s h m hm => placed_addModule h hm
  refine List.foldlRecOn _ _ (Placed.start path code outline) fun s h p _ => ?_
  exact List.foldlRecOn _ _ h fun s h m _ => h.addImport (m.group 1)

end Script

/-! ## Both scanners -/

/-- A word without spaces that starts a view of a text starts the text. -/
theorem Blanked.starts_of_view {s t w : Text} (h : Blanked s t) (hw : ' ' ∉ w) (hstarts : w <+: t) :
    w <+: s := by
  induction h generalizing w with
  | nil => exact hstarts
  | @cons a b s t hab _ ih =>
      cases w with
      | nil => exact List.nil_prefix
      | cons c w =>
          rw [List.mem_cons, not_or] at hw
          obtain ⟨rfl, hrest⟩ := List.cons_prefix_cons.mp hstarts
          rcases hab with rfl | ⟨hspace, -⟩
          · exact List.cons_prefix_cons.mpr ⟨rfl, ih hw.2 hrest⟩
          · exact absurd hspace.symm hw.1

/-- A definition starts in the source, its lines are lines of the source from that of its start on, and its
name stands on these lines. -/
structure Definition.Covered (source : Text) (d : Definition) : Prop where
  start_nonneg : 0 ≤ d.start
  start_lt : d.start < source.length
  startLine_eq : d.startLine = (source.take d.start.toNat).count '\n'
  startLine_le : d.startLine ≤ d.endLine
  endLine_le : d.endLine ≤ source.count '\n'
  excerpt : ∃ ls, source.IsLines d.startLine d.endLine ls ∧
    (∀ (o : BuildOptions) (path : Text), o.maxContent = 0 →
      (Graph.definitionNode o path source d).content = some (['\n'].intercalate ls)) ∧
    d.name <:+: ['\n'].intercalate ls

/-- Without a limit a node has the whole excerpt. -/
theorem Graph.content_definitionNode {o : BuildOptions} (ho : o.maxContent = 0) (path source : Text)
    (d : Definition) : (definitionNode o path source d).content =
      some (Text.excerpt source d.startLine d.endLine) := by
  simp only [definitionNode, cap, ho, ne_eq, not_true_eq_false, false_and, if_false]

namespace Language

theorem placed_scan (l : Language) (path source : Text) :
    (l.scan path source).Placed (l.commentStyle.outline source) := by
  cases l with
  | solidity => exact Solidity.placed_scan path _ _
  | javascript => exact Script.placed_scan path _ _
  | typescript => exact Script.placed_scan path _ _

/-- A definition starts and ends in the source, and its name stands in between. -/
theorem exists_place (l : Language) (path source : Text) {d : Definition}
    (hd : d ∈ (l.extract path source).definitions) :
    ∃ first i last : Nat, d.start = first ∧ first ≤ i ∧ i ≤ last ∧ last < source.length ∧
      d.startLine = Text.lineOf source first ∧ d.endLine = Text.lineOf source last ∧
      d.name <+: source.drop i := by
  have hd := (mem_extract_iff l path source).mp hd
  have hview : Blanked source (l.commentStyle.outline source) :=
    (l.commentStyle.blanked_code source).trans (l.commentStyle.blanked_outline source)
  have hname := (l.keyed_scan path source).isName d hd
  obtain ⟨g, ⟨i, hgi, ⟨hilast, hlast⟩, hstands⟩, hstart, hfirst, hend⟩ :=
    (l.placed_scan path source).definition d hd
  -- The lines are those of the source, and the name stands in the source itself.
  rw [hview.length_eq] at hlast
  rw [hview.lineOf_eq] at hfirst hend
  refine ⟨g.start, i, g.extent.last, hstart, hgi, hilast, hlast, hfirst, hend, ?_⟩
  exact Blanked.starts_of_view (List.forall₂_drop i hview) (hname.notMem (by decide)) hstands

theorem exists_isLines (l : Language) (path source : Text) {d : Definition}
    (hd : d ∈ (l.extract path source).definitions) :
    ∃ ls, source.IsLines d.startLine d.endLine ls := by
  obtain ⟨first, i, last, -, hfirst, hlast, -, hstartLine, hendLine, -⟩ :=
    l.exists_place path source hd
  rw [hstartLine, hendLine]
  apply Text.exists_isLines
  · exact source.lineOf_mono (Int.ofNat_le.mpr (hfirst.trans hlast))
  · exact source.lineOf_le_count last

/-- **The lines of a definition cover it**, whatever the text is. -/
theorem lines_covered (l : Language) (path source : Text) :
    ∀ d ∈ (l.extract path source).definitions, d.Covered source := by
  intro d hd
  obtain ⟨first, i, last, hstart, hfirst, hlast, hlt, hstartLine, hendLine, hstands⟩ :=
    l.exists_place path source hd
  obtain ⟨ls, hls⟩ := l.exists_isLines path source hd
  have hline : '\n' ∉ d.name :=
    ((l.keyed_scan path source).isName d ((mem_extract_iff l path source).mp hd)).notMem (by decide)
  have hbefore : Text.lineOf source first ≤ Text.lineOf source i :=
    source.lineOf_mono (Int.ofNat_le.mpr hfirst)
  have hafter : Text.lineOf source i ≤ Text.lineOf source last :=
    source.lineOf_mono (Int.ofNat_le.mpr hlast)
  have hcount := source.lineOf_le_count last
  constructor
  · omega
  · omega
  · rw [hstartLine, hstart]
    rfl
  · omega
  · omega
  · refine ⟨ls, hls, fun o path ho => ?_, ?_⟩
    · rw [Graph.content_definitionNode ho, hls.excerpt_eq]
    · rw [← hls.excerpt_eq]
      exact Text.infix_excerpt hline hstands hls (by omega) (by omega)

/-- A class that breaks off in a method, below a comment of two lines. -/
def unclosedSource : Text := "/* a\n */ class A \x7b\n get x()\n \x7b return 1;\n".toList

theorem lines_covered_unclosed :
    ∃ d ∈ (typescript.extract "a.ts".toList unclosedSource).definitions, d.name = "x".toList ∧
      d.startLine = 2 ∧ d.endLine = 3 ∧ d.Covered unclosedSource := by
  obtain ⟨d, hd, hname, hfirst, hlast⟩ :
      ∃ d ∈ (typescript.extract "a.ts".toList unclosedSource).definitions, d.name = "x".toList ∧
        d.startLine = 2 ∧ d.endLine = 3 := by
    decide +kernel
  exact ⟨d, hd, hname, hfirst, hlast, lines_covered typescript _ _ d hd⟩

end Language

end CodeAtlas
