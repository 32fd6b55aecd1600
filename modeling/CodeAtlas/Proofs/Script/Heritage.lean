import CodeAtlas.Proofs.Extraction.Passes
import CodeAtlas.Proofs.Script.Clauses

set_option autoImplicit false

/-! # The heritage of classes

A class is declared by its head, with words before the keyword or without:

    export default abstract class N<P> extends T<A> implements I1<B>, I2 {

Where the pass of classes comes to such a head it finds the class (`exists_findAll_classHead`), and it
records the parents in the clauses, in order and without the name of the class (`heritage_scan`). A head
that starts earlier and goes on over this one would be found in its place; nothing else in the file counts.
-/

namespace CodeAtlas.Script

open Pattern

/-! ## Heads and their printed form -/

/-- A word that may be left out, with the white space after it. -/
def printWord (w : Text) (o : Option Space) : Text := o.elim [] (w ++ ·.text)

structure ClassHead where
  /-- The white space after each of the words that stand before the keyword. -/
  exported : Option Space
  defaulted : Option Space
  declared : Option Space
  abstracted : Option Space
  space : Space
  name : Text
  isName : name.head?.any isNameStart = true ∧ ∀ c ∈ name, isNamePart c = true
  notClauseWord : name ∉ clauseWords
  suffix : ClassSuffix

namespace ClassHead

/-- The head from its keyword on. -/
def printClass (c : ClassHead) : Text :=
  "class".toList ++ (c.space.text ++ (c.name ++ (c.suffix.print ++ ['\x7b'])))

def print (c : ClassHead) : Text :=
  printWord "export".toList c.exported ++ (printWord "default".toList c.defaulted ++
    (printWord "declare".toList c.declared ++ (printWord "abstract".toList c.abstracted ++ c.printClass)))

theorem print_ne_nil (c : ClassHead) : c.print ≠ [] := by
  have hclass : c.printClass ≠ [] := List.append_ne_nil_of_left_ne_nil (by decide) _
  exact List.append_ne_nil_of_right_ne_nil _ <| List.append_ne_nil_of_right_ne_nil _ <|
    List.append_ne_nil_of_right_ne_nil _ <| List.append_ne_nil_of_right_ne_nil _ hclass

end ClassHead

/-! ## The characters of a suffix -/

/-- The characters of a class stand in a head if the class leaves out the brace and the semicolon. -/
theorem isHead_of_class {p : Char → Bool} (hopen : p '\x7b' = false) (hsemi : p ';' = false) {c : Char}
    (hc : p c = true) : isHead c = true := by
  unfold isHead
  rw [Bool.and_eq_true, bne_iff_ne, bne_iff_ne]
  constructor
  · rintro rfl
    rw [hopen] at hc
    contradiction
  · rintro rfl
    rw [hsemi] at hc
    contradiction

theorem Gap.isHead (g : Gap) : ∀ c ∈ g.text, isHead c = true :=
  fun c hc => isHead_of_class (by decide) (by decide) (g.isBlank c hc)

theorem forall_isHead_append {a b : Text} (ha : ∀ c ∈ a, isHead c = true) (hb : ∀ c ∈ b, isHead c = true) :
    ∀ c ∈ a ++ b, isHead c = true :=
  fun c hc => (List.mem_append.mp hc).elim (ha c) (hb c)

theorem TypeArguments.isHead_print (a : TypeArguments) : ∀ c ∈ a.print, Script.isHead c = true := by
  have hinner := forall_isHead_append a.isHead (b := ['>']) (by decide)
  exact forall_isHead_append a.gap.isHead (List.forall_mem_cons.mpr ⟨by decide, hinner⟩)

theorem isHead_arguments (o : Option TypeArguments) :
    ∀ c ∈ o.elim [] TypeArguments.print, isHead c = true := by
  cases o with
  | none => simp
  | some a => exact a.isHead_print

theorem TypeName.isHead_print (n : TypeName) : ∀ c ∈ n.print, isHead c = true := by
  have hname : ∀ c ∈ n.name.text, isHead c = true := by
    intro c hc
    rcases n.name.isWord_or_eq_of_mem hc with hword | rfl
    · exact isHead_of_class (by decide) (by decide) hword
    · decide
  exact forall_isHead_append n.before.isHead <| forall_isHead_append hname <|
    forall_isHead_append (isHead_arguments n.arguments) n.after.isHead

theorem isHead_clause {word : Text} (hword : ∀ c ∈ word, isHead c = true) (o : Option Clause) :
    ∀ c ∈ o.elim [] (·.print word), isHead c = true := by
  cases o with
  | none => simp
  | some k =>
      refine forall_isHead_append k.left.isHead <| forall_isHead_append hword <|
        forall_isHead_append k.right.isHead fun c hc => ?_
      rcases Text.of_mem_intercalate hc with hc | ⟨t, ht, hc⟩
      · obtain rfl := List.mem_singleton.mp hc
        decide
      · obtain ⟨n, -, rfl⟩ := List.mem_map.mp ht
        exact n.isHead_print c hc

theorem ClassSuffix.isHead_print (c : ClassSuffix) : ∀ x ∈ c.print, isHead x = true :=
  forall_isHead_append (isHead_arguments c.parameters) <|
    forall_isHead_append (isHead_clause (by decide) c.extended) <|
    forall_isHead_append (isHead_clause (by decide) c.implemented) c.last.isHead

/-! ## Where the name ends -/

section Ends

variable {r : Text} (hr : r.head?.any isNamePart = false)
include hr

theorem head?_gap (g : Gap) : (g.text ++ r).head?.any isNamePart = false := by
  cases h : g.text with
  | nil => exact hr
  | cons c w => exact isNamePart_eq_false_of_isBlank (g.isBlank c (h ▸ List.mem_cons_self))

theorem head?_arguments (o : Option TypeArguments) :
    (o.elim [] TypeArguments.print ++ r).head?.any isNamePart = false := by
  cases o with
  | none => exact hr
  | some a =>
      have hopen := head?_gap (r := '<' :: (a.text ++ ['>']) ++ r) rfl a.gap
      rwa [← List.append_assoc] at hopen

theorem head?_clause (word : Text) (o : Option Clause) :
    (o.elim [] (·.print word) ++ r).head?.any isNamePart = false := by
  cases o with
  | none => exact hr
  | some k =>
      obtain ⟨c, w, hcw⟩ := List.exists_cons_of_ne_nil k.left.ne_nil
      show (k.print word ++ r).head?.any isNamePart = false
      rw [Clause.print, hcw]
      exact isNamePart_eq_false_of_isBlank (k.left.isBlank c (hcw ▸ List.mem_cons_self))

end Ends

/-- The name of a class does not go on into its suffix. -/
theorem ClassSuffix.head?_any_isNamePart (c : ClassSuffix) (v : Text) :
    (c.print ++ '\x7b' :: v).head?.any isNamePart = false := by
  have hlast := head?_gap (r := '\x7b' :: v) rfl c.last
  have hall := head?_arguments (head?_clause (head?_clause hlast "implements".toList c.implemented)
    "extends".toList c.extended) c.parameters
  simpa only [ClassSuffix.print, List.append_assoc] using hall

/-! ## Finding the class -/

/-- White space ends a word. -/
theorem takeWhile_spacedWord {w : Text} (hw : ∀ c ∈ w, Text.isWord c = true) (g : Space) (t : Text) :
    (w ++ (g.text ++ t)).takeWhile Text.isWord = w := by
  obtain ⟨c, x, hcx⟩ := List.exists_cons_of_ne_nil g.ne_nil
  have hc : Text.isWord c = false := g.isWord_eq_false c (hcx ▸ List.mem_cons_self)
  have hstop : (g.text ++ t).takeWhile Text.isWord = [] := by
    rw [hcx]
    exact List.takeWhile_cons_of_neg (by simp [hc])
  rw [List.takeWhile_append_of_pos hw, hstop, List.append_nil]

/-- What is printed starts with the word or with what comes after it. -/
theorem takeWhile_printWord {w : Text} (hw : ∀ c ∈ w, Text.isWord c = true) (o : Option Space) {t : Text}
    {ws : List Text} (ht : t.takeWhile Text.isWord ∈ ws) :
    (printWord w o ++ t).takeWhile Text.isWord ∈ w :: ws := by
  cases o with
  | none => exact List.mem_cons_of_mem w ht
  | some g =>
      show (w ++ g.text ++ t).takeWhile Text.isWord ∈ w :: ws
      rw [List.append_assoc, takeWhile_spacedWord hw]
      exact List.mem_cons_self

theorem head?_any_isBlank_of_takeWhile {t : Text} {ws : List Text} (hnil : [] ∉ ws)
    (ht : t.takeWhile Text.isWord ∈ ws) : t.head?.any Text.isBlank = false := by
  cases t with
  | nil => rfl
  | cons c t =>
      by_contra hblank
      have hc : Text.isWord c = false := isWord_eq_false_of_isBlank (by simpa using hblank)
      rw [List.takeWhile_cons_of_neg (by simp [hc])] at ht
      exact hnil ht

section Words

variable {w t : Text} {ws : List Text} {before : Text} {groups : List (Nat × Cursor × Cursor)}

theorem not_fits_otherWord (hw : ∀ c ∈ w, Text.isWord c = true) (hws : w ∉ ws)
    (ht : t.takeWhile Text.isWord ∈ ws) (s : MatchState) :
    ¬ (Pattern.seq (lit w) blanks1).Fits ⟨⟨before, t⟩, groups⟩ s := by
  intro h
  have hword : t.takeWhile Text.isWord = w := List.mem_singleton.mp (opens_word hw _ _ h)
  exact hws (hword ▸ ht)

theorem Space.chooses (g : Space) (ht : t.head?.any Text.isBlank = false) :
    blanks1.Chooses ⟨⟨before, g.text ++ t⟩, groups⟩ ⟨⟨g.text.reverse ++ before, t⟩, groups⟩ := by
  obtain ⟨c, x, hcx⟩ := List.exists_cons_of_ne_nil g.ne_nil
  obtain ⟨hc, hx⟩ := List.forall_mem_cons.mp (hcx ▸ g.isBlank)
  rw [hcx]
  exact chooses_many1 hc hx ht

theorem chooses_spacedWord (w : Text) (g : Space) (ht : t.head?.any Text.isBlank = false) :
    (Pattern.seq (lit w) blanks1).Chooses ⟨⟨before, printWord w (some g) ++ t⟩, groups⟩
      ⟨⟨(printWord w (some g)).reverse ++ before, t⟩, groups⟩ := by
  rw [printWord, Option.elim_some, List.append_assoc, List.reverse_append, List.append_assoc]
  exact (chooses_lit w).seq (g.chooses ht)

/-- A word is taken if it is there. -/
theorem chooses_printWord (hw : ∀ c ∈ w, Text.isWord c = true) (hws : w ∉ ws) (hnil : [] ∉ ws)
    (o : Option Space) (ht : t.takeWhile Text.isWord ∈ ws) :
    (optWord w).Chooses ⟨⟨before, printWord w o ++ t⟩, groups⟩
      ⟨⟨(printWord w o).reverse ++ before, t⟩, groups⟩ := by
  cases o with
  | none => exact chooses_opt_none (not_fits_otherWord hw hws ht)
  | some g => exact (chooses_spacedWord w g (head?_any_isBlank_of_takeWhile hnil ht)).altLeft

theorem exists_chooses_exported (before : Text) (groups : List (Nat × Cursor × Cursor))
    (hws : "export".toList ∉ ws) (hnil : [] ∉ ws) (o : Option Space) (ht : t.takeWhile Text.isWord ∈ ws) :
    ∃ groups', exported.Chooses ⟨⟨before, printWord "export".toList o ++ t⟩, groups⟩
      ⟨⟨(printWord "export".toList o).reverse ++ before, t⟩, groups'⟩ := by
  cases o with
  | none =>
      refine ⟨groups, chooses_opt_none fun s h => ?_⟩
      obtain ⟨s', hword, -⟩ := fits_group h
      exact not_fits_otherWord (by decide) hws ht s' hword
  | some g =>
      have hblank := head?_any_isBlank_of_takeWhile hnil ht
      exact ⟨_, ((chooses_spacedWord "export".toList g hblank).group 1).altLeft⟩

end Words

/-- The head from its keyword on. -/
def keywordOn : List Pattern :=
  [lit "class".toList, blanks1, .group 2 Pattern.identifier, blanks, .group 3 (.many isHead), char '\x7b']

/-- From the keyword on the head is read to its brace; the white space before the suffix is left out. -/
theorem exists_chooses_printClass (c : ClassHead) (before v : Text)
    (groups : List (Nat × Cursor × Cursor)) :
    ∃ t, (all keywordOn).Chooses ⟨⟨before, c.printClass ++ v⟩, groups⟩ t ∧
      t.cursor = ⟨c.printClass.reverse ++ before, v⟩ ∧
      ∀ a b, (⟨a, b, t.groups⟩ : Match).group 2 = c.name ∧
        ∃ w, (∀ x ∈ w, Text.isBlank x = true) ∧
          w ++ (⟨a, b, t.groups⟩ : Match).group 3 = c.suffix.print := by
  obtain ⟨hfirst, hname⟩ := c.isName
  obtain ⟨n, ns, hcons⟩ : ∃ n ns, c.name = n :: ns := by
    cases h : c.name with
    | nil => simp [h] at hfirst
    | cons n ns => exact ⟨n, ns, rfl⟩
  rw [hcons] at hfirst hname
  have hn : isNameStart n = true := by simpa using hfirst
  obtain ⟨hpart, hns⟩ := List.forall_mem_cons.mp hname
  have hblank : Text.isBlank n = false := by
    by_contra hblank
    rw [isNamePart_eq_false_of_isBlank (by simpa using hblank)] at hpart
    contradiction
  obtain ⟨w, r, hsuffix, hw, hr⟩ : ∃ w r, c.suffix.print = w ++ r ∧ (∀ x ∈ w, Text.isBlank x = true) ∧
      (r ++ '\x7b' :: v).head?.any Text.isBlank = false := by
    refine ⟨c.suffix.print.takeWhile Text.isBlank, c.suffix.print.dropWhile Text.isBlank,
      List.takeWhile_append_dropWhile.symm, fun x hx => List.mem_takeWhile_imp hx, ?_⟩
    cases hdrop : c.suffix.print.dropWhile Text.isBlank with
    | nil => rfl
    | cons x r =>
        have hhead := List.head?_dropWhile_not Text.isBlank c.suffix.print
        rw [hdrop] at hhead
        simpa using hhead
  have hend : (w ++ (r ++ '\x7b' :: v)).head?.any isNamePart = false := by
    rw [← List.append_assoc, ← hsuffix]
    exact c.suffix.head?_any_isNamePart v
  have hisHead : ∀ x ∈ r, isHead x = true := fun x hx =>
    c.suffix.isHead_print x (hsuffix ▸ List.mem_append_right w hx)
  have hsplit : c.printClass ++ v =
      "class".toList ++ (c.space.text ++ (n :: ns ++ (w ++ (r ++ '\x7b' :: v)))) := by
    unfold ClassHead.printClass
    simp only [hcons, hsuffix, List.append_assoc, List.cons_append, List.nil_append]
  have hall : (all keywordOn).Chooses ⟨⟨before,
      "class".toList ++ (c.space.text ++ (n :: ns ++ (w ++ (r ++ '\x7b' :: v))))⟩, groups⟩ _ :=
    (chooses_lit _).all_cons <|
    (c.space.chooses (by simpa using hblank)).all_cons <|
    (((chooses_one hn).seq (chooses_many hns hend)).group 2).all_cons <|
    (chooses_many hw hr).all_cons <|
    ((chooses_many hisHead rfl).group 3).all_cons <|
    (chooses_char '\x7b').all_cons (chooses_all_nil _)
  rw [← hsplit] at hall
  refine ⟨_, hall, ?_, fun a b => ⟨?_, w, hw, ?_⟩⟩
  · unfold ClassHead.printClass
    simp only [hcons, hsuffix, List.reverse_append, List.reverse_cons, List.reverse_nil, List.append_assoc,
      List.cons_append, List.nil_append]
  · rw [hcons]
    refine Match.group_eq_of_span rfl ⟨rfl, ?_⟩
    rw [List.reverse_cons, List.append_assoc, List.singleton_append]
  · rw [hsuffix, Match.group_eq_of_span rfl ⟨rfl, rfl⟩]

/-- **The class is found at its head**, with its name and its suffix. -/
theorem exists_chooses_classHead (c : ClassHead) {u : Text}
    (hu : u.getLast?.any (fun d => isNamePart d || d == '.') = false) (v : Text) :
    ∃ t, classHead.Chooses ⟨⟨u.reverse, c.print ++ v⟩, []⟩ t ∧ t.cursor = ⟨(u ++ c.print).reverse, v⟩ ∧
      ∀ a b, (⟨a, b, t.groups⟩ : Match).group 2 = c.name ∧
        ∃ w, (∀ x ∈ w, Text.isBlank x = true) ∧
          w ++ (⟨a, b, t.groups⟩ : Match).group 3 = c.suffix.print := by
  have hclass : (c.printClass ++ v).takeWhile Text.isWord ∈ ["class".toList] := by
    unfold ClassHead.printClass
    rw [List.append_assoc "class".toList, List.append_assoc c.space.text, takeWhile_spacedWord (by decide)]
    exact List.mem_singleton.mpr rfl
  have habstract := takeWhile_printWord (w := "abstract".toList) (by decide) c.abstracted hclass
  have hdeclare := takeWhile_printWord (w := "declare".toList) (by decide) c.declared habstract
  have hdefault := takeWhile_printWord (w := "default".toList) (by decide) c.defaulted hdeclare
  obtain ⟨groups, hexported⟩ := exists_chooses_exported u.reverse [] (by decide) (by decide) c.exported
    hdefault
  obtain ⟨t, hkeyword, hcursor, hgroups⟩ := exists_chooses_printClass c _ v groups
  have hbefore : u.reverse.head?.any (fun d => isNamePart d || d == '.') = false := by
    rwa [List.head?_reverse]
  have hall : classHead.Chooses ⟨⟨u.reverse, _⟩, []⟩ t :=
    (chooses_notAfter hbefore).all_cons <|
    hexported.all_cons <|
    (chooses_printWord (by decide) (by decide) (by decide) c.defaulted hdeclare).all_cons <|
    (chooses_printWord (by decide) (by decide) (by decide) c.declared habstract).all_cons <|
    (chooses_printWord (by decide) (by decide) (by decide) c.abstracted hclass).all_cons hkeyword
  refine ⟨t, ?_, ?_, hgroups⟩
  · unfold ClassHead.print
    simpa only [List.append_assoc] using hall
  · rw [hcursor]
    unfold ClassHead.print
    simp only [List.reverse_append, List.append_assoc]

/-- **The pass of classes comes to the head** if no head that starts earlier goes on over it. -/
theorem exists_findAll_classHead (c : ClassHead) {u v : Text}
    (hu : u.getLast?.any (fun d => isNamePart d || d == '.') = false)
    (hreach : ∀ m ∈ classHead.findAll (u ++ (c.print ++ v)), m.start < u.length → m.stop ≤ u.length) :
    ∃ earlier m later, classHead.findAll (u ++ (c.print ++ v)) = earlier ++ m :: later ∧
      (∀ m' ∈ earlier, m'.start < u.length) ∧
      m.start = u.length ∧ m.stop = u.length + c.print.length ∧ m.group 2 = c.name ∧
      ∃ w, (∀ x ∈ w, Text.isBlank x = true) ∧ w ++ m.group 3 = c.suffix.print := by
  obtain ⟨earlier, hearlier, hbefore⟩ : ∃ ms, classHead.scan 0 [] (u ++ (c.print ++ v)) =
      ms ++ classHead.scan 0 (u.reverse ++ []) (c.print ++ v) ∧
        ∀ m ∈ ms, m.start < ([] : Text).length + u.length :=
    exists_scan_eq_append (Nat.zero_le _) (by simpa [findAll] using hreach)
  obtain ⟨t, hchooses, hcursor, hgroups⟩ := exists_chooses_classHead c hu v
  set m : Match := ⟨⟨u.reverse, c.print ++ v⟩, t.cursor, t.groups⟩ with hm
  obtain ⟨later, hlater⟩ : ∃ later, classHead.scan 0 u.reverse (c.print ++ v) = m :: later := by
    have hfinds : classHead.Finds (fun (_ : Unit) m' => m' = m) u c.print v [()] :=
      hchooses.finds hcursor c.print_ne_nil rfl
    obtain ⟨ms, hscan, hms⟩ := hfinds
    obtain ⟨m', ms', rfl, hnil, rfl⟩ := List.forall₂_cons_left_iff.mp hms
    obtain rfl := List.forall₂_nil_left_iff.mp hnil
    exact ⟨_, hscan⟩
  refine ⟨earlier, m, later, ?_, ?_, List.length_reverse, ?_, hgroups _ _⟩
  · rw [findAll, hearlier, List.append_nil, hlater]
  · simpa using hbefore
  · rw [Match.stop, hm, hcursor, Cursor.pos, List.length_reverse, List.length_append]

/-! ## The pass of classes -/

open Scan (KeepsClasses)

/-- The members of a class are no classes and add no parents. -/
theorem keepsClasses_addMembers (s : Scan) (first last : Nat) :
    KeepsClasses s (addMembers s first last) := by
  refine (KeepsClasses.foldl (fun m _ s => ?_) s).trans (KeepsClasses.foldl (fun m _ s => ?_) _)
  · simp only [addMethod]
    split
    · exact KeepsClasses.refl s
    · refine KeepsClasses.define_addScope s ?_ _
      split <;> simp
  · simp only [addFieldArrow]
    split
    · exact KeepsClasses.refl s
    · split
      · exact KeepsClasses.refl s
      · exact KeepsClasses.define_addScope s (by simp) _

/-- What a class is recorded as. -/
def classSighting (s : Scan) (m : Match) : Sighting :=
  { label := .classType, name := m.group 2, start := m.start
    finish := some (Bracket.braceEnd s.outline (m.stop - 1))
    isExported := m.hasGroup 1, nameAt := some (m.groupStart 2) }

/-- The record with a new class and its body, before its parents and its members. -/
def withClass (s : Scan) (m : Match) : Scan :=
  (s.define (classSighting s m)).1.addContainer (some (s.definitionOf (classSighting s m)))
    ⟨some (m.stop - 1), Bracket.braceEnd s.outline (m.stop - 1)⟩

section Classes

variable {s : Scan} {m : Match}

theorem addExtends_none (s : Scan) (clauses : Text) : addExtends s none clauses = s := by
  unfold addExtends
  split <;> rfl

theorem addImplements_none (s : Scan) (clauses : Text) : addImplements s none clauses = s := by
  unfold addImplements
  split <;> rfl

theorem addExtends_seen (s : Scan) (d : Definition) (clauses : Text) :
    (addExtends s (some d) clauses).seen = s.seen := by
  unfold addExtends
  split <;> rfl

theorem addImplements_seen (s : Scan) (d : Definition) (clauses : Text) :
    (addImplements s (some d) clauses).seen = s.seen := by
  unfold addImplements
  split <;> rfl

/-- A class without a name or on record already changes nothing. -/
theorem addClass_of_known (h : m.group 2 ∈ clauseWords ∨
    ((classSighting s m).label, (classSighting s m).name, (classSighting s m).start) ∈ s.seen) :
    addClass s m = s := by
  simp only [addClass]
  split
  · rfl
  · next hname =>
    have hseen := h.resolve_left fun hword => hname (by simpa [clauseWords] using hword)
    have hdefine := Scan.define_of_seen hseen
    unfold classSighting at hdefine
    rw [hdefine]
    show (if (none : Option Definition).isSome then _ else _) = s
    rw [if_neg (by simp), addImplements_none, addExtends_none]
    rfl

theorem addClass_of_new (hname : m.group 2 ∉ clauseWords)
    (hnew : ((classSighting s m).label, (classSighting s m).name, (classSighting s m).start) ∉ s.seen) :
    addClass s m =
      let d := some (s.definitionOf (classSighting s m))
      let clauses := Bracket.stripGenerics (m.group 3)
      addMembers (addImplements (addExtends (withClass s m) d clauses) d clauses) (m.stop - 1)
        (Bracket.braceEnd s.outline (m.stop - 1)) := by
  have hdefine := Scan.define_of_not_seen hnew
  simp only [addClass, withClass]
  rw [if_neg (by simpa [clauseWords] using hname)]
  unfold classSighting at hdefine ⊢
  rw [hdefine]
  rfl

/-- The only class that is asked for is the one that is found. -/
theorem mem_seen_addClass {x : Label × Text × Int} (hx : x ∈ (addClass s m).seen) :
    x ∈ s.seen ∨ x.1 ≠ .classType ∨ x.2.2 = m.start := by
  by_cases hknown : m.group 2 ∈ clauseWords ∨
      ((classSighting s m).label, (classSighting s m).name, (classSighting s m).start) ∈ s.seen
  · rw [addClass_of_known hknown] at hx
    exact Or.inl hx
  · obtain ⟨hname, hnew⟩ := not_or.mp hknown
    rw [addClass_of_new hname hnew] at hx
    rcases (keepsClasses_addMembers _ _ _).mem_seen x hx with hx | hx
    · rw [addImplements_seen, addExtends_seen, withClass, Scan.define_of_not_seen hnew] at hx
      rcases List.mem_cons.mp hx with rfl | hx
      · exact Or.inr (Or.inr rfl)
      · exact Or.inl hx
    · exact Or.inr (Or.inl hx)

/-- **A new class gets the parents in its suffix.** -/
theorem exists_heritage_addClass (hname : m.group 2 ∉ clauseWords)
    (hnew : ((classSighting s m).label, (classSighting s m).name, (classSighting s m).start) ∉ s.seen)
    {c : ClassSuffix} {w : Text} (hw : ∀ x ∈ w, Text.isBlank x = true)
    (hsuffix : w ++ m.group 3 = c.print) :
    ∃ d ∈ (addClass s m).definitions, d.label = .classType ∧ d.name = m.group 2 ∧ d.start = m.start ∧
      (addClass s m).heritage = s.heritage ++
        (d.inherits c.extendedNames .extendsType ++ d.inherits c.implementedNames .implementsType) := by
  have hadd := addClass_of_new hname hnew
  simp only [addParents_eq c hw hsuffix] at hadd
  rw [hadd]
  have hmembers := keepsClasses_addMembers
    { withClass s m with
      heritage := (withClass s m).heritage ++
        ((s.definitionOf (classSighting s m)).inherits c.extendedNames .extendsType ++
          (s.definitionOf (classSighting s m)).inherits c.implementedNames .implementsType) }
    (m.stop - 1) (Bracket.braceEnd s.outline (m.stop - 1))
  refine ⟨s.definitionOf (classSighting s m), hmembers.definitions_subset ?_, rfl, rfl, rfl, ?_⟩
  · show s.definitionOf (classSighting s m) ∈ (withClass s m).definitions
    rw [withClass, Scan.addContainer_definitions, Scan.define_of_not_seen hnew]
    simp
  · rw [hmembers.heritage_eq, withClass, Scan.define_of_not_seen hnew]
    rfl

theorem mem_seen_classes {ms : List Match} {x : Label × Text × Int}
    (hx : x ∈ (ms.foldl addClass s).seen) :
    x ∈ s.seen ∨ x.1 ≠ .classType ∨ ∃ m ∈ ms, x.2.2 = m.start := by
  induction ms generalizing s with
  | nil => exact Or.inl hx
  | cons m ms ih =>
      rcases ih hx with hx | hx | ⟨m', hm', hx⟩
      · rcases mem_seen_addClass hx with hx | hx | hx
        · exact Or.inl hx
        · exact Or.inr (Or.inl hx)
        · exact Or.inr (Or.inr ⟨m, List.mem_cons_self, hx⟩)
      · exact Or.inr (Or.inl hx)
      · exact Or.inr (Or.inr ⟨m', List.mem_cons_of_mem m hm', hx⟩)

end Classes

/-! ## The whole scan -/

/-- The record when the pass of classes starts. -/
def beforeClasses (path code outline : Text) : Scan :=
  (moduleHead.findAll outline).foldl addModule <|
    importForms.foldl (fun s p => (p.findAll code).foldl (fun s m => s.addImport (m.group 1)) s)
      { path := path, code := code, outline := outline }

theorem keepsClasses_beforeClasses (path code outline : Text) :
    KeepsClasses { path := path, code := code, outline := outline }
      (beforeClasses path code outline) := by
  refine (KeepsClasses.foldl (fun p _ s => ?_) _).trans (KeepsClasses.foldl (fun m _ s => ?_) _)
  · exact KeepsClasses.foldl (fun m _ s => KeepsClasses.addImport s (m.group 1)) s
  · exact (KeepsClasses.define s (by simp)).trans (KeepsClasses.addContainer _ _ _)

/-- After some of the classes come the others and then the other passes. -/
theorem run_scan_of_classes {path code outline : Text} {ms later : List Match}
    (h : classHead.findAll outline = ms ++ later) :
    Scan.Run Extent.IsScriptBody (ms.foldl addClass (beforeClasses path code outline))
      (scan path code outline) := by
  have hclasses : Scan.Run Extent.IsScriptBody (ms.foldl addClass (beforeClasses path code outline))
      ((classHead.findAll outline).foldl addClass (beforeClasses path code outline)) := by
    rw [h, List.foldl_append]
    exact Scan.Run.foldl (Scan.Run.refl _) fun m hm =>
      run_addClass (makes_of_mem_findAll (h ▸ List.mem_append_right ms hm))
  refine hclasses.trans ?_
  unfold scan
  refine Scan.Run.foldl ?_ fun m hm => run_addVariableFunction (makes_of_mem_findAll hm)
  refine Scan.Run.foldl ?_ fun m hm => run_addFunction (makes_of_mem_findAll hm)
  refine Scan.Run.foldl ?_ fun m hm => run_addEnum (makes_of_mem_findAll hm)
  refine Scan.Run.foldl ?_ fun m hm => run_addInterface (makes_of_mem_findAll hm)
  exact Scan.Run.refl _

/-- **The parents of a class are recorded as they are written**: where the class is declared, and no head
that starts earlier goes on over it, it adds the last components of the names after `extends`, then those
after `implements`, in order and without its own name. -/
theorem heritage_scan (path code : Text) (c : ClassHead) {u v : Text}
    (hu : u.getLast?.any (fun x => isNamePart x || x == '.') = false)
    (hreach : ∀ m ∈ classHead.findAll (u ++ (c.print ++ v)), m.start < u.length → m.stop ≤ u.length) :
    ∃ earlier m later, classHead.findAll (u ++ (c.print ++ v)) = earlier ++ m :: later ∧
      m.start = u.length ∧ m.stop = u.length + c.print.length ∧
      let s := earlier.foldl addClass (beforeClasses path code (u ++ (c.print ++ v)))
      ∃ d ∈ (scan path code (u ++ (c.print ++ v))).definitions,
        d.label = .classType ∧ d.name = c.name ∧ d.start = u.length ∧
        (addClass s m).heritage = s.heritage ++ (d.inherits c.suffix.extendedNames .extendsType ++
          d.inherits c.suffix.implementedNames .implementsType) ∧
        (addClass s m).heritage <+: (scan path code (u ++ (c.print ++ v))).heritage := by
  obtain ⟨earlier, m, later, hall, hbefore, hstart, hstop, hname, w, hw, hsuffix⟩ :=
    exists_findAll_classHead c hu hreach
  refine ⟨earlier, m, later, hall, hstart, hstop, ?_⟩
  intro s
  -- No class that was asked for before starts here.
  have hnew : ((classSighting s m).label, (classSighting s m).name, (classSighting s m).start) ∉ s.seen := by
    intro hmem
    rcases mem_seen_classes hmem with hmem | hlabel | ⟨m', hm', hstart'⟩
    · rcases (keepsClasses_beforeClasses path code _).mem_seen _ hmem with hnone | hlabel
      · simp at hnone
      · exact hlabel rfl
    · exact hlabel rfl
    · have hlt := hbefore m' hm'
      have heq : (m.start : Int) = m'.start := hstart'
      omega
  obtain ⟨d, hd, hlabel, hdname, hdstart, hheritage⟩ :=
    exists_heritage_addClass (hname ▸ c.notClauseWord) hnew hw hsuffix
  have hrest : Scan.Run Extent.IsScriptBody (addClass s m) (scan path code (u ++ (c.print ++ v))) := by
    have hclasses : Scan.Run Extent.IsScriptBody
        ((earlier ++ [m]).foldl addClass (beforeClasses path code (u ++ (c.print ++ v))))
        (scan path code (u ++ (c.print ++ v))) :=
      run_scan_of_classes (hall.trans (List.append_cons earlier m later))
    rwa [List.foldl_append] at hclasses
  exact ⟨d, hrest.grows.1 hd, hlabel, hdname.trans hname, by rw [hdstart, hstart], hheritage, hrest.grows.2⟩

/-- Arguments with commas, brackets and the two keywords in them, dotted names, and an interface of the same
name as the class. -/
def genericClass : ClassHead where
  exported := some ⟨⟨" ".toList, by decide⟩, by decide⟩
  defaulted := none
  declared := none
  abstracted := some ⟨⟨" ".toList, by decide⟩, by decide⟩
  space := ⟨⟨" ".toList, by decide⟩, by decide⟩
  name := "Tree".toList
  isName := by decide
  notClauseWord := by decide
  suffix :=
    { parameters := some ⟨⟨[], by decide⟩, "K extends Map<A, B>".toList, by decide, by decide⟩
      extended := some
        { left := ⟨⟨"\n  ".toList, by decide⟩, by decide⟩
          right := ⟨⟨" ".toList, by decide⟩, by decide⟩
          first :=
            { before := ⟨[], by decide⟩
              name := ⟨["ns".toList, "Base".toList], by decide, by decide, by decide⟩
              arguments := some ⟨⟨" ".toList, by decide⟩, "[K, L<M>], x implements Y".toList, by decide,
                by decide⟩
              after := ⟨[], by decide⟩ }
          others := [] }
      implemented := some
        { left := ⟨⟨"\n  ".toList, by decide⟩, by decide⟩
          right := ⟨⟨"\t".toList, by decide⟩, by decide⟩
          first :=
            { before := ⟨[], by decide⟩
              name := ⟨["Tree".toList], by decide, by decide, by decide⟩
              arguments := none
              after := ⟨[], by decide⟩ }
          others :=
            [{ before := ⟨" ".toList, by decide⟩
               name := ⟨["extendsAll".toList], by decide, by decide, by decide⟩
               arguments := some ⟨⟨[], by decide⟩, "A<B, C>".toList, by decide, by decide⟩
               after := ⟨" ".toList, by decide⟩ }] }
      last := ⟨"\n".toList, by decide⟩ }

/-- A class before it. -/
def otherClass : Text := "class A \x7b\x7d\n".toList

theorem heritage_scan_generic :
    otherClass.getLast?.any (fun x => isNamePart x || x == '.') = false ∧
    (∀ m ∈ classHead.findAll (otherClass ++ (genericClass.print ++ ['\x7d'])),
      m.start < otherClass.length → m.stop ≤ otherClass.length) ∧
    ∃ earlier m later,
      classHead.findAll (otherClass ++ (genericClass.print ++ ['\x7d'])) = earlier ++ m :: later ∧
      m.start = otherClass.length ∧ m.stop = otherClass.length + genericClass.print.length ∧
      let s := earlier.foldl addClass
        (beforeClasses "a.ts".toList [] (otherClass ++ (genericClass.print ++ ['\x7d'])))
      ∃ d ∈ (scan "a.ts".toList [] (otherClass ++ (genericClass.print ++ ['\x7d']))).definitions,
        d.label = .classType ∧ d.name = genericClass.name ∧ d.start = otherClass.length ∧
        (addClass s m).heritage = s.heritage ++
          (d.inherits genericClass.suffix.extendedNames .extendsType ++
            d.inherits genericClass.suffix.implementedNames .implementsType) ∧
        (addClass s m).heritage <+:
          (scan "a.ts".toList [] (otherClass ++ (genericClass.print ++ ['\x7d']))).heritage := by
  have hu : otherClass.getLast?.any (fun x => isNamePart x || x == '.') = false := by decide
  have hreach : ∀ m ∈ classHead.findAll (otherClass ++ (genericClass.print ++ ['\x7d'])),
      m.start < otherClass.length → m.stop ≤ otherClass.length := by
    decide +kernel
  exact ⟨hu, hreach, heritage_scan "a.ts".toList [] genericClass hu hreach⟩

/-- The parents that are recorded. -/
example : (scan "a.ts".toList [] (genericClass.print ++ ['\x7d'])).heritage.map
    (fun h => (h.parent, h.kind)) =
      [("Base".toList, .extendsType), ("extendsAll".toList, .implementsType)] := by
  decide +kernel

end CodeAtlas.Script
