import CodeAtlas.Proofs.Printed.Calls
import CodeAtlas.Proofs.Script.Source

set_option autoImplicit false

/-! # What the patterns find in a file of functions

Each pattern of the scanner but that of call sites starts with a keyword, and names are no keywords. In
a printed file the pattern of declared functions matches once for each function
(`forall₂_functionHead`), provided that no called name hides a function, the pattern of call sites at
the name of each function and at each call (`forall₂_callSite`), and the others not at all
(`findAll_printSource_eq_nil`).
-/

namespace CodeAtlas.Script

open Pattern Printed

theorem Name.exists_cons (n : Name) :
    ∃ c w, n.text = c :: w ∧ isNameStart c = true ∧ Text.isBlank c = false := by
  obtain ⟨c, w, htext, hc, hblank⟩ := n.isIdentifier.exists_cons
  refine ⟨c, w, htext, ?_, hblank⟩
  rw [isNameStart, hc]
  rfl

/-! ## The printed text without its keywords -/

/-- The keywords that the printer does not write. -/
def unprintedKeywords : List Text := keywords.filter (· ≠ "function".toList)

theorem avoids_signature {ws : List Text} (hnil : [] ∉ ws) :
    Text.Avoids ws (")".toList ++ form.signature) :=
  Text.avoids_marks (by decide) hnil

theorem avoids_printSource {ws : List Text} (hws : ws ⊆ unprintedKeywords) (fs : List FunctionDecl) :
    Text.Avoids ws (printSource fs) := by
  have hnil : [] ∉ ws := fun hmem => absurd (hws hmem) (by decide)
  have hfunction : "function".toList ∉ ws := fun hmem => absurd (hws hmem) (by decide)
  have hname : ∀ n : Name, n.text ∉ ws := fun n hmem =>
    n.notKeyword (List.mem_of_mem_filter (hws hmem))
  refine Text.Avoids.flatMap (fun f _ => ?_) hnil
  exact (Function.avoids_printHead hnil hfunction (hname f.name)).append
    (Function.avoids_afterParen hnil (avoids_signature hnil) fun g _ => hname g)

/-! ## Patterns and their keywords -/

/-- A word that may stand before the keyword of a declaration. -/
theorem opens_word {w : Text} (hw : ∀ c ∈ w, Text.isWord c = true) :
    (Pattern.seq (lit w) blanks1).Opens [w] := by
  have hopens : (all [lit w, blanks1]).Opens [w] :=
    (spells_lit w).opens (by simpa using hw) (startsApart_blanks1.all_cons [])
  exact hopens

theorem opens_optWord {w : Text} (hw : ∀ c ∈ w, Text.isWord c = true) {ws : List Text}
    {l : List Pattern} (hl : (all l).Opens ws) : (all (optWord w :: l)).Opens (w :: ws) :=
  (opens_word hw).opt_cons hl

theorem opens_exported {ws : List Text} {l : List Pattern} (hl : (all l).Opens ws) :
    (all (exported :: l)).Opens ("export".toList :: ws) :=
  ((opens_word (by decide)).group 1).opt_cons hl

theorem headedBy_notMember {ws : List Text} {l : List Pattern} (hl : (all l).Opens ws) :
    (all (notMember :: l)).HeadedBy ws :=
  hl.headedBy_notAfter fun c hc => by simp [isNamePart, hc]

theorem headedBy_importDeclaration : importDeclaration.HeadedBy ["import".toList] :=
  ((spells_lit _).opens (by decide) (startsApart_blanks1.all_cons _)).headedBy_boundary (by decide)

theorem headedBy_reExport : reExport.HeadedBy ["export".toList] :=
  ((spells_lit _).opens (by decide) (startsApart_blanks1.all_cons _)).headedBy_boundary (by decide)

theorem headedBy_loadCall {w : Text} (hw : ∀ c ∈ w, Text.isWord c = true) :
    (loadCall w).HeadedBy [w] := by
  have hafter := ((startsApart_char (c := '(') (by decide)).all_cons
    [blanks, quotedPath, blanks, char ')']).blanks_cons
  exact headedBy_notMember ((spells_lit w).opens (by simpa using hw) hafter)

theorem headedBy_moduleHead : moduleHead.HeadedBy
    ["export".toList, "declare".toList, "namespace".toList, "module".toList] := by
  have hkinds := (spells_lit "namespace".toList).alt (spells_lit "module".toList)
  exact headedBy_notMember <| opens_exported <| opens_optWord (by decide) <|
    hkinds.opens (by decide) (startsApart_blanks1.all_cons _)

theorem headedBy_classHead : classHead.HeadedBy
    ["export".toList, "default".toList, "declare".toList, "abstract".toList, "class".toList] :=
  headedBy_notMember <| opens_exported <| opens_optWord (by decide) <| opens_optWord (by decide) <|
    opens_optWord (by decide) <| (spells_lit _).opens (by decide) (startsApart_blanks1.all_cons _)

theorem headedBy_interfaceHead : interfaceHead.HeadedBy
    ["export".toList, "declare".toList, "interface".toList] :=
  headedBy_notMember <| opens_exported <| opens_optWord (by decide) <|
    (spells_lit _).opens (by decide) (startsApart_blanks1.all_cons _)

theorem headedBy_enumHead : enumHead.HeadedBy
    ["export".toList, "declare".toList, "const".toList, "enum".toList] :=
  headedBy_notMember <| opens_exported <| opens_optWord (by decide) <| opens_optWord (by decide) <|
    (spells_lit _).opens (by decide) (startsApart_blanks1.all_cons _)

theorem headedBy_variableFunction : variableFunction.HeadedBy
    ["export".toList, "const".toList, "let".toList, "var".toList] := by
  have hkinds := (spells_lit "const".toList).alt
    ((spells_lit "let".toList).alt (spells_lit "var".toList))
  exact headedBy_notMember <| opens_exported <|
    hkinds.opens (by decide) (startsApart_blanks1.all_cons _)

/-- A pattern finds nothing in a file if the printer writes none of its keywords. -/
theorem findAll_printSource_eq_nil {p : Pattern} {ws : List Text} (hp : p.HeadedBy ws)
    (hws : ws ⊆ unprintedKeywords) (fs : List FunctionDecl) : p.findAll (printSource fs) = [] :=
  (hp.passes (avoids_printSource hws fs) [] []).findAll_eq_nil

/-! ## Declared functions -/

/-- The words that a declared function may start with. Since nothing has to stand between the keyword and
the name, the two may be one word. -/
def OpensFunction (w : Text) : Prop :=
  w ∈ ["export".toList, "default".toList, "async".toList, "function".toList] ∨ hidesFunction w = true

theorem opensFunction_keyword {b r : Text} {c : Char} (hb : ∀ d ∈ b, Text.isWord d = false)
    (hc : isNameStart c = true) :
    OpensFunction (("function".toList ++ (b ++ c :: r)).takeWhile Text.isWord) := by
  rw [List.takeWhile_append_of_pos (by decide)]
  cases b with
  | cons d b =>
      rw [List.cons_append, List.takeWhile_cons_of_neg (by simp [hb d List.mem_cons_self])]
      exact Or.inl (by decide)
  | nil =>
      rw [List.nil_append]
      by_cases hword : Text.isWord c = true
      · -- The name goes on where the keyword ends.
        rw [List.takeWhile_cons_of_pos hword]
        refine Or.inr ?_
        simp [hidesFunction, hc]
      · rw [List.takeWhile_cons_of_neg hword]
        exact Or.inl (by decide)

/-- **A declared function starts with one of its words**, not within a word. -/
theorem opensFunction_of_fits {s t : MatchState} (h : functionHead.Fits s t) :
    s.cursor.before.head?.any Text.isWord = false ∧
      OpensFunction (s.cursor.rest.takeWhile Text.isWord) := by
  simp only [functionHead, fits_all_cons] at h
  obtain ⟨s₁, hbefore, s₂, hexport, s₃, hdefault, s₄, hasync, s₅, hkeyword, s₆, hblanks, s₇, hstar,
    s₈, hblanks', s₉, hname, -⟩ := h
  cases hbefore with
  | notAfter hat =>
    refine ⟨?_, ?_⟩
    · rw [Bool.eq_false_iff, ne_eq, Option.any_eq_true] at hat ⊢
      exact fun ⟨c, hc, hword⟩ => hat ⟨c, hc, by simp [isNamePart, hword]⟩
    -- Any of the words before the keyword may be there, and is then the first.
    rcases ((opens_word (w := "export".toList) (by decide)).group 1).fits_opt hexport with hword | rfl
    · exact Or.inl (by rw [List.mem_singleton.mp hword]; decide)
    rcases (opens_word (w := "default".toList) (by decide)).fits_opt hdefault with hword | rfl
    · exact Or.inl (by rw [List.mem_singleton.mp hword]; decide)
    rcases (opens_word (w := "async".toList) (by decide)).fits_opt hasync with hword | rfl
    · exact Or.inl (by rw [List.mem_singleton.mp hword]; decide)
    obtain ⟨b, hb, hreads⟩ := fits_many hblanks
    obtain ⟨x, hx, hreadsStar⟩ : ∃ x, (∀ c ∈ x, Text.isWord c = false) ∧ s₆.cursor.Reads x s₇.cursor := by
      cases hstar with
      | altLeft h => exact ⟨['*'], by decide, fits_char h⟩
      | altRight h =>
          cases h
          exact ⟨[], by simp, Cursor.Reads.refl _⟩
    obtain ⟨b', hb', hreads'⟩ := fits_many hblanks'
    obtain ⟨u, hname, -⟩ := fits_group hname
    cases hname with
    | seq hone hmany =>
      obtain ⟨c, hc, hfirst⟩ := fits_one hone
      have hgap := ((fits_lit hkeyword).trans hreads).trans (hreadsStar.trans hreads')
      rw [hgap.1, hfirst.1, List.append_assoc, List.append_assoc, ← List.append_assoc b]
      refine opensFunction_keyword (fun d hd => ?_) hc
      rcases List.mem_append.mp hd with hd | hd
      · exact isWord_eq_false_of_isBlank (hb d hd)
      · rcases List.mem_append.mp hd with hd | hd
        · exact hx d hd
        · exact isWord_eq_false_of_isBlank (hb' d hd)

theorem Name.not_opensFunction {g : Name} (hg : hidesFunction g.text = false) :
    ¬ OpensFunction g.text := by
  rintro (hword | hhides)
  · have hknown : ∀ w ∈ ["export".toList, "default".toList, "async".toList, "function".toList],
        w ∈ keywords ∨ w ∈ Language.callExclusions .javascript := by decide
    exact (hknown _ hword).elim g.notKeyword g.notExcluded
  · rw [hg] at hhides
    contradiction

/-- The match at the head of a function. -/
structure FunctionSite.IsMatch (q : FunctionSite) (m : Match) : Prop where
  start_eq : m.start = q.start
  stop_eq : m.stop = q.start + q.item.name.text.length + 10
  unexported : m.hasGroup 1 = false
  name_eq : m.group 2 = q.item.name.text
  nameAt_eq : m.groupStart 2 = q.start + 9

/-- A word that may be left out is left out if the text starts otherwise. -/
theorem chooses_opt_none {p : Pattern} {s : MatchState} (h : ∀ t, ¬ p.Fits s t) :
    (opt p).Chooses s s :=
  Chooses.altRight h (chooses_all_nil s)

/-- No white space is taken where there is none. -/
theorem chooses_blanks_none {before rest : Text} {groups : List (Nat × Cursor × Cursor)}
    (h : rest.head?.any Text.isBlank = false) :
    blanks.Chooses ⟨⟨before, rest⟩, groups⟩ ⟨⟨before, rest⟩, groups⟩ :=
  chooses_many (w := []) (by simp) h

theorem not_fits_word {w before rest : Text} {c d : Char} (hne : c ≠ d)
    {groups : List (Nat × Cursor × Cursor)} (t : MatchState) :
    ¬ (Pattern.seq (lit (c :: w)) blanks1).Fits ⟨⟨before, d :: rest⟩, groups⟩ t := by
  intro h
  cases h with
  | seq hword _ =>
      have hreads := (fits_lit hword).1
      exact hne (List.cons_eq_cons.mp hreads).1.symm

theorem not_fits_char {before rest : Text} {c d : Char} (hne : c ≠ d) (l : List Pattern)
    {groups : List (Nat × Cursor × Cursor)} (t : MatchState) :
    ¬ (all (char c :: l)).Fits ⟨⟨before, d :: rest⟩, groups⟩ t := by
  intro h
  obtain ⟨u, hchar, -⟩ := fits_all_cons.mp h
  have hreads := (fits_char hchar).1
  exact hne (List.cons_eq_cons.mp hreads).1.symm

theorem finds_functionHead (f : FunctionDecl) (line : Nat) {u : Text}
    (hu : u.getLast?.any (fun c => isNamePart c || c == '.') = false) (v : Text) :
    functionHead.Finds FunctionSite.IsMatch u f.printHead v [⟨f, u.length, line⟩] := by
  obtain ⟨d, w, htext, hd, hblank⟩ := Name.exists_cons f.name
  have hw : ∀ e ∈ w, isNamePart e = true := fun e he =>
    f.name.isNamePart_of_mem (htext ▸ List.mem_cons_of_mem d he)
  have hstar : '*' ≠ d := by
    rintro rfl
    exact absurd hd (by decide)
  have hhead : f.printHead = "function".toList ++ ([' '] ++ (d :: (w ++ ['(']))) := by
    have hkeyword : "function ".toList = "function".toList ++ [' '] := rfl
    have hparen : "(".toList = ['('] := rfl
    unfold Function.printHead
    simp only [hkeyword, hparen, htext, List.append_assoc, List.cons_append]
  have hsplit : f.printHead ++ v =
      "function".toList ++ ([' '] ++ (d :: (w ++ '(' :: v))) := by
    simp only [hhead, List.append_assoc, List.cons_append, List.nil_append]
  have hbefore : u.reverse.head?.any (fun c => isNamePart c || c == '.') = false := by
    rwa [List.head?_reverse]
  -- No word stands before the keyword, no star after it, and there are no type parameters.
  have hall : functionHead.Chooses ⟨⟨u.reverse,
      "function".toList ++ ([' '] ++ (d :: (w ++ '(' :: v)))⟩, []⟩ _ :=
    (chooses_notAfter hbefore).all_cons <|
    (chooses_opt_none fun t ht =>
      let ⟨_, hword, _⟩ := fits_group ht
      not_fits_word (by decide) _ hword).all_cons <|
    (chooses_opt_none (not_fits_word (by decide))).all_cons <|
    (chooses_opt_none (not_fits_word (by decide))).all_cons <|
    (chooses_lit _).all_cons <|
    (chooses_many (p := Text.isBlank) (by decide) (by simpa using hblank)).all_cons <|
    (chooses_opt_none (not_fits_char hstar [])).all_cons <|
    (chooses_blanks_none (by simpa using hblank)).all_cons <|
    (((chooses_one hd).seq (chooses_many hw rfl)).group 2).all_cons <|
    (chooses_blanks_none rfl).all_cons <|
    (chooses_opt_none (not_fits_char (by decide) _)).all_cons <|
    (chooses_blanks_none rfl).all_cons <|
    (chooses_char '(').all_cons (chooses_all_nil _)
  rw [← hsplit] at hall
  refine hall.finds ?_ ?_ ⟨?_, ?_, rfl, ?_, ?_⟩
  · simp [hhead]
  · rw [hhead]
    exact List.cons_ne_nil _ _
  · exact List.length_reverse
  · simp [Match.stop, Cursor.pos, htext]
    omega
  · rw [htext]
    exact Match.group_eq_of_span rfl ⟨rfl, by simp⟩
  · rw [Match.groupStart_eq_of_span rfl]
    simp [Cursor.pos]

/-- A function is found at its head, and nothing is found in its body. -/
theorem finds_functionHead_print {f : FunctionDecl}
    (hcalls : ∀ g ∈ f.calls, hidesFunction g.text = false) (line : Nat) {u : Text}
    (hu : u.getLast?.any (fun c => isNamePart c || c == '.') = false) (v : Text) :
    functionHead.Finds FunctionSite.IsMatch u (f.print form) v [⟨f, u.length, line⟩] := by
  have hafter : functionHead.Passes (u ++ f.printHead)
      (")".toList ++ (form.signature ++ (f.printBody form ++ "\n".toList))) v := by
    refine passes_of_avoids (fun s t => opensFunction_of_fits) (fun x hx => ?_) _ v
    have hnil : [] ∉ [x] := fun hnil => by
      rw [← List.mem_singleton.mp hnil] at hx
      exact absurd hx (by simp [OpensFunction, hidesFunction])
    refine Function.avoids_afterParen hnil (avoids_signature hnil) fun g hg hmem => ?_
    rw [← List.mem_singleton.mp hmem] at hx
    exact Name.not_opensFunction (hcalls g hg) hx
  exact (finds_functionHead f line hu _).append hafter.finds

/-! ## Whole files -/

/-- **What is found in one function after another** is found in the file. -/
theorem forall₂_printSource {α : Type} {p : Pattern} {R : α → Match → Prop} {l : FunctionSite → List α}
    {fs : List FunctionDecl}
    (h : ∀ f ∈ fs, ∀ (line : Nat) (u v : Text),
      u.getLast?.any (fun c => isNamePart c || c == '.') = false →
        p.Finds R u (f.print form) v (l ⟨f, u.length, line⟩)) :
    List.Forall₂ R ((functionSites fs).flatMap l) (p.findAll (printSource fs)) := by
  refine (Finds.flatMap (P := fun u => u.getLast?.any (fun c => isNamePart c || c == '.') = false)
    (fun f _ u => ?_) h 0 (u := []) rfl []).findAll
  have hend : (u ++ f.print form).getLast? = some '\n' := by
    simp [Function.print, List.getLast?_cons]
  rw [hend]
  rfl

theorem forall₂_functionHead {fs : List FunctionDecl}
    (hfs : ∀ f ∈ fs, ∀ g ∈ f.calls, hidesFunction g.text = false) :
    List.Forall₂ FunctionSite.IsMatch (functionSites fs) (functionHead.findAll (printSource fs)) := by
  have hfinds := forall₂_printSource (l := fun q => [q])
    fun f hf line u v hu => finds_functionHead_print (hfs f hf) line hu v
  rwa [List.flatMap_singleton'] at hfinds

theorem forall₂_callSite (fs : List FunctionDecl) :
    List.Forall₂ Site.IsNamedBy ((functionSites fs).flatMap fun q => q.nameSites form)
      (callSite.findAll (printSource fs)) :=
  forall₂_printSource fun f _ line u v _ => finds_callSite_print form f line u v

end CodeAtlas.Script
