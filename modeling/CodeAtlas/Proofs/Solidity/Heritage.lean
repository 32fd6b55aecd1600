import CodeAtlas.Proofs.Comment.Reading
import CodeAtlas.Proofs.Extraction.Distinct
import CodeAtlas.Proofs.Solidity.Parents

set_option autoImplicit false

/-! # Parents with constructor arguments

A contract whose parents are dotted names, each with constructor arguments or without:

    contract N is P1(args1), P2 {}

The arguments are expressions in parentheses, and the operators in them may be angle brackets. The
splitter reckons with brackets of all kinds in one depth, so a comparison in one parent's arguments may
hide the parents after it, and one in the other direction may show its arguments as parents
(`heritage_hidden`). Where the depth is right at every comma (`DerivedContract.Apart`), the parents are
recorded as they are written (`heritage_extract`); without angle and square brackets in the arguments it
always is (`DerivedContract.apart_of_notMem`).
-/

namespace CodeAtlas.Solidity

open Pattern CommentStyle

/-! ## Declarations and their printed form -/

/-- The characters that end a head or open a literal. -/
def marks : List Char := "\x7b\x7d;\"'\x60".toList

/-- Constructor arguments: any text with balanced parentheses on one head, without literals and
comments. -/
structure Arguments where
  text : Text
  balanced : Bracket.Balanced '(' ')' text
  notMark : ∀ c ∈ text, c ∉ marks
  uncommented : ¬ "//".toList <:+: text ∧ ¬ "/*".toList <:+: text

/-- A parent, with arguments or without. -/
structure Parent where
  name : DottedName ["is".toList]
  arguments : Option Arguments

structure DerivedContract where
  name : Text
  isName : name.head?.any (fun c => Text.isAsciiLetter c || c == '_') = true ∧
    ∀ c ∈ name, Text.isWord c = true
  parents : List Parent
  ne_nil : parents ≠ []

def Arguments.print (a : Arguments) : Text := '(' :: (a.text ++ [')'])

def Parent.print (p : Parent) : Text := p.name.text ++ (p.arguments.map Arguments.print).getD []

namespace DerivedContract

/-- The list of parents, with the space after it. -/
def printParents (c : DerivedContract) : Text :=
  ", ".toList.intercalate (c.parents.map Parent.print) ++ " ".toList

/-- The head up to the opening brace. -/
def printHead (c : DerivedContract) : Text :=
  "contract ".toList ++ c.name ++ (" is ".toList ++ c.printParents)

def print (c : DerivedContract) : Text := c.printHead ++ "\x7b\x7d".toList

/-- The splitter's depth is above zero at each comma of a parent's arguments, and it is zero again where
another parent follows. -/
def Apart (c : DerivedContract) : Prop :=
  (∀ p ∈ c.parents, Bracket.Unsplit 0 p.print) ∧
    ∀ p ∈ c.parents.dropLast, Bracket.depthAfter 0 p.print = 0

instance (c : DerivedContract) : Decidable c.Apart := inferInstanceAs (Decidable (_ ∧ _))

end DerivedContract

/-! ## One parent -/

namespace Parent

/-- After the name comes the parenthesis of the arguments, or nothing. -/
theorem exists_print_eq (p : Parent) :
    ∃ r, p.print = p.name.text ++ r ∧ r.head?.any (fun c => isNamePart c || c == '.') = false ∧
      ∀ c ∈ r.getLast?, Text.isBlank c = false := by
  unfold print
  cases p.arguments with
  | none => exact ⟨[], rfl, rfl, by simp⟩
  | some a =>
      refine ⟨a.print, rfl, rfl, fun c hc => ?_⟩
      have hlast : a.print.getLast? = some ')' := by simp [Arguments.print, List.getLast?_cons]
      rw [hlast] at hc
      obtain rfl := Option.mem_some_iff.mp hc
      rfl

theorem exists_print_cons (p : Parent) : ∃ c w, p.print = c :: w ∧ Text.isBlank c = false := by
  obtain ⟨c, w, hcw⟩ := p.name.exists_cons
  refine ⟨c, w ++ (p.arguments.map Arguments.print).getD [], by rw [print, hcw]; rfl, ?_⟩
  exact p.name.isBlank_eq_false c (hcw ▸ List.mem_cons_self)

theorem trim_print (p : Parent) : Text.trim p.print = p.print := by
  obtain ⟨d, w, hcons, hblank⟩ := p.exists_print_cons
  obtain ⟨r, hprint, -, hlast⟩ := p.exists_print_eq
  refine Text.trim_eq_self (fun c hc => ?_) fun c hc => ?_
  · rw [hcons] at hc
    obtain rfl := Option.mem_some_iff.mp hc
    exact hblank
  · rw [hprint, List.getLast?_append] at hc
    cases hr : r.getLast? with
    | none =>
        rw [hr] at hc
        exact p.name.isBlank_eq_false c (List.mem_of_getLast? hc)
    | some e =>
        rw [hr] at hc
        exact hlast c (hr ▸ hc)

/-- The last component of the name counts, and the arguments do not. -/
theorem parentName?_print (p : Parent) : parentName? p.print = some p.name.last := by
  obtain ⟨r, hprint, hr, -⟩ := p.exists_print_eq
  have htrim := p.trim_print
  rw [hprint] at htrim ⊢
  exact parentName?_text p.name hr htrim

/-- The splitter's depth is right for a parent with no angle and square brackets in its arguments. -/
theorem apart_of_notMem (p : Parent) (h : ∀ a ∈ p.arguments, ∀ c ∈ "<>[]".toList, c ∉ a.text) :
    Bracket.Unsplit 0 p.print ∧ Bracket.depthAfter 0 p.print = 0 := by
  obtain ⟨hunsplit, hdepth⟩ := Bracket.unsplit_of_isInert p.name.isInert
  unfold print
  cases harguments : p.arguments with
  | none => simpa using ⟨hunsplit, hdepth⟩
  | some a =>
      have hother : ∀ c ∈ a.text, c ∉ "[]<>\x7b\x7d".toList := by
        intro c hc hmem
        have hsplit : ∀ d ∈ "[]<>\x7b\x7d".toList, d ∈ "<>[]".toList ∨ d ∈ marks := by decide
        rcases hsplit c hmem with hbracket | hmark
        · exact h a harguments c hbracket hc
        · exact a.notMark c hc hmark
      obtain ⟨hunsplit', hdepth'⟩ := Bracket.unsplit_arguments a.balanced hother
      refine ⟨hunsplit.append (by rwa [hdepth]), ?_⟩
      show Bracket.depthAfter 0 (p.name.text ++ a.print) = 0
      rw [Bracket.depthAfter_append, hdepth]
      exact hdepth'

theorem notMem_marks (p : Parent) : ∀ c ∈ p.print, c ∉ marks := by
  intro c hc
  rcases List.mem_append.mp hc with hc | hc
  · rcases p.name.isWord_or_eq_of_mem hc with hword | rfl
    · rintro hmark
      have hnot : ∀ d ∈ marks, Text.isWord d = false := by decide
      rw [hnot c hmark] at hword
      contradiction
    · decide
  · cases harguments : p.arguments with
    | none => simp [harguments] at hc
    | some a =>
        rw [harguments] at hc
        rcases List.mem_cons.mp hc with rfl | hc
        · decide
        · rcases List.mem_append.mp hc with hc | hc
          · exact a.notMark c hc
          · obtain rfl := List.mem_singleton.mp hc
            decide

theorem uncommented_print (p : Parent) : Uncommented p.print := by
  have hname : Uncommented p.name.text := uncommented_of_notMem fun hmem => by
    rcases p.name.isWord_or_eq_of_mem hmem with hword | hdot
    · exact absurd hword (by decide)
    · exact absurd hdot (by decide)
  unfold print
  cases p.arguments with
  | none => exact hname.append (uncommented_of_notMem (by simp)) (Or.inr rfl)
  | some a =>
      have hinner := uncommented_of_not_infix a.uncommented.1 a.uncommented.2
      have hclosed : Uncommented (a.text ++ [')']) :=
        hinner.append (uncommented_of_notMem (by decide)) (Or.inr rfl)
      have harguments : Uncommented a.print :=
        (uncommented_of_notMem (t := ['(']) (by decide)).append hclosed (Or.inl (by decide))
      exact hname.append harguments (Or.inr rfl)

end Parent

/-! ## The list of parents -/

/-- **The parents are the pieces between the commas**, if the splitter's depth is right there. -/
theorem splitTopLevel_printParents {c : DerivedContract} (h : c.Apart) :
    Bracket.splitTopLevel [','] c.printParents = c.parents.map Parent.print := by
  have hsplit : Bracket.splitTopLevel [','] (", ".toList.intercalate (c.parents.map Parent.print)) =
      (c.parents.map Parent.print).map Text.trim := by
    refine Bracket.splitTopLevel_join (g := [' ']) (by decide) ?_ ?_ ?_
    · rw [List.forall_mem_map]
      intro p _
      obtain ⟨d, w, hcons, -⟩ := p.exists_print_cons
      rw [p.trim_print, hcons]
      exact List.cons_ne_nil d w
    · exact List.forall_mem_map.mpr h.1
    · rw [← List.map_dropLast]
      exact List.forall_mem_map.mpr h.2
  rw [DerivedContract.printParents, Bracket.splitTopLevel_append_blank (by decide), hsplit,
    List.map_map]
  exact List.map_congr_left fun p _ => p.trim_print

theorem notMem_marks_printParents (c : DerivedContract) : ∀ x ∈ c.printParents, x ∉ marks := by
  intro x hx
  rcases List.mem_append.mp hx with hx | hx
  · rcases Text.of_mem_intercalate hx with hx | ⟨t, ht, hx⟩
    · have hnot : ∀ d ∈ ", ".toList, d ∉ marks := by decide
      exact hnot x hx
    · obtain ⟨p, -, rfl⟩ := List.mem_map.mp ht
      exact p.notMem_marks x hx
  · have hnot : ∀ d ∈ " ".toList, d ∉ marks := by decide
    exact hnot x hx

theorem uncommented_join {ts : List Text} (h : ∀ t ∈ ts, Uncommented t) :
    Uncommented (", ".toList.intercalate ts) := by
  induction ts with
  | nil => exact uncommented_of_notMem (by simp)
  | cons t ts ih =>
      obtain ⟨ht, hts⟩ := List.forall_mem_cons.mp h
      cases ts with
      | nil =>
          rw [List.intercalate_singleton]
          exact ht
      | cons u us =>
          rw [List.intercalate_cons_cons]
          have hfirst : Uncommented (t ++ ", ".toList) :=
            ht.append (uncommented_of_notMem (by decide)) (Or.inr rfl)
          exact hfirst.append (ih hts) (Or.inl (by simp))

/-! ## The whole text -/

namespace DerivedContract

/-- The splitter's depth is right at every comma if there are no angle and square brackets. -/
theorem apart_of_notMem {c : DerivedContract}
    (h : ∀ p ∈ c.parents, ∀ a ∈ p.arguments, ∀ x ∈ "<>[]".toList, x ∉ a.text) : c.Apart :=
  ⟨fun p hp => (p.apart_of_notMem (h p hp)).1,
    fun p hp => (p.apart_of_notMem (h p (List.mem_of_mem_dropLast hp))).2⟩

theorem notMem_name (c : DerivedContract) {x : Char} (hx : Text.isWord x = false) : x ∉ c.name := by
  intro hmem
  rw [c.isName.2 x hmem] at hx
  contradiction

/-- There are no literals in the printed text. -/
theorem not_isQuote_of_mem (c : DerivedContract) : ∀ x ∈ c.print, ¬ IsQuote x := by
  intro x hx hquote
  obtain ⟨hmark, hword, hcontract, his, hblock⟩ : x ∈ marks ∧ Text.isWord x = false ∧
      x ∉ "contract ".toList ∧ x ∉ " is ".toList ∧ x ∉ "\x7b\x7d".toList := by
    rcases hquote with rfl | rfl | rfl <;> decide
  rcases List.mem_append.mp hx with hx | hx
  · rcases List.mem_append.mp hx with hx | hx
    · rcases List.mem_append.mp hx with hx | hx
      · exact hcontract hx
      · exact c.notMem_name hword hx
    · rcases List.mem_append.mp hx with hx | hx
      · exact his hx
      · exact notMem_marks_printParents c x hx hmark
  · exact hblock hx

theorem uncommented_print (c : DerivedContract) : Uncommented c.print := by
  have hlead : Uncommented ("contract ".toList ++ c.name ++ " is ".toList) := by
    refine uncommented_of_notMem fun hmem => ?_
    rcases List.mem_append.mp hmem with hmem | hmem
    · rcases List.mem_append.mp hmem with hmem | hmem
      · exact absurd hmem (by decide)
      · exact c.notMem_name (by decide) hmem
    · exact absurd hmem (by decide)
  have hparents : Uncommented c.printParents :=
    (uncommented_join (List.forall_mem_map.mpr fun p _ => p.uncommented_print)).append
      (uncommented_of_notMem (by decide)) (Or.inr rfl)
  have hblock : Uncommented (c.printParents ++ "\x7b\x7d".toList) :=
    hparents.append (uncommented_of_notMem (by decide)) (Or.inr rfl)
  have hlast : ("contract ".toList ++ c.name ++ " is ".toList).getLast? = some ' ' := by
    rw [List.getLast?_append]
    rfl
  have hall := hlead.append hblock (Or.inl (by rw [hlast]; decide))
  rwa [← List.append_assoc, List.append_assoc ("contract ".toList ++ c.name)] at hall

/-- There is nothing to blank in the printed text. -/
theorem outline_print (c : DerivedContract) : cFamily.outline c.print = c.print :=
  outline_of_uncommented c.not_isQuote_of_mem c.uncommented_print

/-- A contract is found at its head, and nothing else is found. -/
theorem exists_findAll_container (c : DerivedContract) :
    ∃ m, container.findAll c.print = [m] ∧ m.stop = c.printHead.length ∧
      m.group 1 = "contract".toList ∧ m.group 2 = c.name ∧ m.group 3 = " is ".toList ++ c.printParents := by
  have hsignature : ∀ x ∈ " is ".toList ++ c.printParents, isSignature x = true := by
    intro x hx
    have hmark : x ∉ marks := by
      rcases List.mem_append.mp hx with hx | hx
      · have hnot : ∀ d ∈ " is ".toList, d ∉ marks := by decide
        exact hnot x hx
      · exact notMem_marks_printParents c x hx
    have hbrace : x ≠ '\x7b' := fun heq => hmark (heq ▸ by decide)
    have hsemi : x ≠ ';' := fun heq => hmark (heq ▸ by decide)
    simp [isSignature, hbrace, hsemi]
  obtain ⟨t, hchooses, hcursor, hgroups⟩ := exists_chooses_container (u := []) rfl c.isName.1 c.isName.2
    hsignature rfl "\x7d".toList
  obtain ⟨hkind, hname, -, htail⟩ := hgroups _ rfl
  have hmatch : container.Finds (fun (_ : Unit) m => m.stop = c.printHead.length ∧
      m.group 1 = "contract".toList ∧ m.group 2 = c.name ∧ m.group 3 = " is ".toList ++ c.printParents)
      [] c.printHead "\x7b\x7d".toList [()] := by
    refine hchooses.finds hcursor (List.cons_ne_nil _ _) ⟨?_, hkind, hname, htail⟩
    show t.cursor.pos = c.printHead.length
    rw [hcursor, Cursor.pos, List.length_reverse]
    rfl
  have hblock := headedBy_container.passes (w := "\x7b\x7d".toList)
    (Text.avoids_marks (by decide) (by decide)) c.printHead []
  have hfinds := Finds.findAll (t := c.printHead ++ "\x7b\x7d".toList) (hmatch.append hblock.finds)
  obtain ⟨m, ms, hm, hms, heq⟩ := List.forall₂_cons_left_iff.mp hfinds
  obtain rfl := List.forall₂_nil_left_iff.mp hms
  exact ⟨m, heq, hm⟩

end DerivedContract

/-! ## The passes -/

/-- A new contract with a list of parents gets the heritage of their names. -/
theorem exists_heritage_addContainer {s : Scan} {m h : Match} {names : List Text}
    (hopen : (s.outline.drop m.stop).head? = some '\x7b') (hkind : m.group 1 = "contract".toList)
    (hnew : ∀ x ∈ s.seen, x.1 ≠ .classType) (hsearch : heritageClause.search? (m.group 3) = some h)
    (hnames : List.Forall₂ (fun clause name => parentName? clause = some name)
      (Bracket.splitTopLevel [','] (h.group 1)) names) :
    ∃ d ∈ (addContainer s m).definitions, d.label = .classType ∧ d.name = m.group 2 ∧
      (addContainer s m).heritage = s.heritage ++ d.inherits names .extendsType := by
  set sighting : Sighting :=
    { label := containerLabel (m.group 1), name := m.group 2, start := m.start
      finish := some (containerExtent s.outline m.stop).last, nameAt := some (m.groupStart 2) } with hs
  have hlabel : sighting.label = .classType := by
    rw [hs, hkind]
    rfl
  have hnot : (sighting.label, sighting.name, sighting.start) ∉ s.seen := fun hmem =>
    hnew _ hmem hlabel
  have hadd : addContainer s m = ((s.define sighting).1.addContainer (s.define sighting).2
      (containerExtent s.outline m.stop)).addHeritage (s.define sighting).2
        (Bracket.splitTopLevel [','] (h.group 1)) .extendsType := by
    unfold addContainer
    simp only [hopen, hsearch]
    rfl
  refine ⟨s.definitionOf sighting, ?_, hlabel, rfl, ?_⟩
  · rw [hadd, Scan.addHeritage_definitions, Scan.addContainer_definitions, Scan.define_of_not_seen hnot]
    simp
  · have hkept := Scan.KeepsClasses.addContainer (s.define sighting).1 (s.define sighting).2
      (containerExtent s.outline m.stop)
    rw [Scan.define_of_not_seen hnot] at hkept hadd
    rw [hadd, Scan.addHeritage, Scan.heritageOf_eq hnames]
    exact congrArg (· ++ _) hkept.heritage_eq

open Scan (KeepsClasses)

theorem keepsClasses_addCallable (s : Scan) {label : Label} (hlabel : label ≠ .classType) (name : Text)
    (start headEnd : Nat) (tail : Text) (nameAt : Nat) :
    KeepsClasses s (addCallable s label name start headEnd tail nameAt) :=
  KeepsClasses.define_addScope s hlabel _

theorem keepsClasses_addStructOrEnum (s : Scan) (m : Match) :
    KeepsClasses s (addStructOrEnum s m) := by
  simp only [addStructOrEnum]
  split
  · exact (KeepsClasses.define s (by simp)).trans (KeepsClasses.addContainer _ _ _)
  · exact KeepsClasses.define s (by simp)

/-- Classes and parents are recorded by the pass of containers alone. -/
theorem exists_keepsClasses_scan (path code outline : Text) :
    ∃ s, KeepsClasses { path := path, code := code, outline := outline } s ∧
      KeepsClasses ((container.findAll outline).foldl addContainer s) (scan path code outline) := by
  refine ⟨_, KeepsClasses.foldl (l := importStatement.findAll code)
    (fun m _ s => KeepsClasses.addImport s (m.group 1)) _, ?_⟩
  unfold scan
  refine (KeepsClasses.foldl (fun m _ s => ?_) _).trans <|
    (KeepsClasses.foldl (fun m _ s => ?_) _).trans <|
    (KeepsClasses.foldl (fun m _ s => ?_) _).trans <|
    (KeepsClasses.foldl (fun m _ s => ?_) _).trans <|
    (KeepsClasses.foldl (fun m _ s => ?_) _).trans <| KeepsClasses.foldl (fun m _ s => ?_) _
  · exact keepsClasses_addStructOrEnum s m
  · exact KeepsClasses.define s (by simp)
  · exact keepsClasses_addCallable s (by simp) _ _ _ _ _
  · unfold addFunction
    refine keepsClasses_addCallable s ?_ _ _ _ _ _
    split <;> simp
  · exact keepsClasses_addCallable s (by simp) _ _ _ _ _
  · unfold addSpecial
    split
    · exact keepsClasses_addCallable s (by simp) _ _ _ _ _
    · exact KeepsClasses.refl s

/-- **Parents are recorded as they are written**, each by the last component of its name and in order,
the contract's own name left out. -/
theorem heritage_extract (path : Text) (c : DerivedContract) (h : c.Apart) :
    ∃ d ∈ (extract path c.print).definitions, d.label = .classType ∧ d.name = c.name ∧
      (extract path c.print).heritage = d.inherits (c.parents.map (·.name.last)) .extendsType := by
  obtain ⟨s, hstart, hrest⟩ := exists_keepsClasses_scan path (cFamily.code c.print) c.print
  obtain ⟨m, hall, hstop, hkind, hname, htail⟩ := c.exists_findAll_container
  obtain ⟨x, w, hcons, hblank⟩ : ∃ x w, c.printParents = x :: w ∧ Text.isBlank x = false := by
    obtain ⟨p, ps, hps⟩ := List.exists_cons_of_ne_nil c.ne_nil
    obtain ⟨x, w, hcons, hblank⟩ := p.exists_print_cons
    rw [DerivedContract.printParents, hps, List.map_cons, hcons]
    cases ps with
    | nil => exact ⟨x, _, rfl, hblank⟩
    | cons q ps => exact ⟨x, _, rfl, hblank⟩
  obtain ⟨clause, hsearch, hgroup⟩ := search?_heritageClause hblank w
  rw [hcons] at htail
  rw [← htail] at hsearch
  have hopen : (s.outline.drop m.stop).head? = some '\x7b' := by
    rw [hstart.outline_eq, hstop]
    show (List.drop c.printHead.length (c.printHead ++ "\x7b\x7d".toList)).head? = _
    rw [List.drop_left]
    rfl
  have hnames : List.Forall₂ (fun clause name => parentName? clause = some name)
      (Bracket.splitTopLevel [','] (clause.group 1)) (c.parents.map (·.name.last)) := by
    rw [hgroup, ← hcons, splitTopLevel_printParents h]
    exact List.forall₂_map_left_iff.mpr <| List.forall₂_map_right_iff.mpr <|
      List.forall₂_same.mpr fun p _ => p.parentName?_print
  obtain ⟨d, hd, hlabel, hdname, hheritage⟩ := exists_heritage_addContainer hopen hkind
    (fun x hx => (hstart.mem_seen x hx).resolve_left (by simp)) hsearch hnames
  rw [hall] at hrest
  have hscan : Language.solidity.scan path c.print = scan path (cFamily.code c.print) c.print := by
    show scan path (cFamily.code c.print) (cFamily.outline c.print) = _
    rw [c.outline_print]
  have hperm := Language.solidity.definitions_extract_perm path c.print
  rw [hscan] at hperm
  refine ⟨d, hperm.mem_iff.mpr (hrest.definitions_subset hd), hlabel, hdname.trans hname, ?_⟩
  show (Language.solidity.scan path c.print).heritage = _
  rw [hscan, hrest.heritage_eq]
  show (addContainer s m).heritage = _
  rw [hheritage, hstart.heritage_eq]
  rfl

/-- Comparisons that close within a bracket, a shift without a comma after it, a parent of the same name as
the contract, and an operator in the last arguments. -/
def comparingContract : DerivedContract where
  name := "N".toList
  isName := by decide
  parents :=
    [⟨⟨["lib".toList, "Base".toList], by decide, by decide, by decide⟩,
        some ⟨"f(1 < 2, x > 0), [a, b]".toList, by decide, by decide, by decide⟩⟩,
      ⟨⟨["N".toList], by decide, by decide, by decide⟩,
        some ⟨"8 >> 1 / 2".toList, by decide, by decide, by decide⟩⟩,
      ⟨⟨["isle".toList], by decide, by decide, by decide⟩,
        some ⟨"1 < 2".toList, by decide, by decide, by decide⟩⟩]
  ne_nil := by decide

theorem heritage_extract_comparing : comparingContract.Apart ∧
    ∃ d ∈ (extract "a.sol".toList comparingContract.print).definitions,
      d.label = .classType ∧ d.name = comparingContract.name ∧
        (extract "a.sol".toList comparingContract.print).heritage =
          d.inherits (comparingContract.parents.map (·.name.last)) .extendsType := by
  have hapart : comparingContract.Apart := by decide
  exact ⟨hapart, heritage_extract "a.sol".toList comparingContract hapart⟩

/-- A comparison before another parent. -/
def hidingContract : DerivedContract where
  name := "C".toList
  isName := by decide
  parents :=
    [⟨⟨["A".toList], by decide, by decide, by decide⟩,
        some ⟨"1 < 2".toList, by decide, by decide, by decide⟩⟩,
      ⟨⟨["B".toList], by decide, by decide, by decide⟩, none⟩]
  ne_nil := by decide

/-- The operator hides the second parent. -/
theorem heritage_hidden :
    ¬ ∃ d ∈ (extract "a.sol".toList hidingContract.print).definitions,
      d.label = .classType ∧ d.name = hidingContract.name ∧
        (extract "a.sol".toList hidingContract.print).heritage =
          d.inherits (hidingContract.parents.map (·.name.last)) .extendsType := by
  rintro ⟨d, -, -, hname, hheritage⟩
  have hparents : (extract "a.sol".toList hidingContract.print).heritage.map (·.parent) =
      ["A".toList] := by
    decide +kernel
  rw [hheritage] at hparents
  have hlength := congrArg List.length hparents
  rw [Definition.inherits, hname, List.length_map, List.length_map] at hlength
  exact absurd hlength (by decide)

/-- An operator in the other direction shows an argument as a parent. -/
example : (extract "a.sol".toList "contract C is A(1 > 0, x) \x7b\x7d".toList).heritage.map (·.parent) =
    ["A".toList, "x".toList] := by
  decide +kernel

end CodeAtlas.Solidity
