import CodeAtlas.Proofs.Printed.Calls
import CodeAtlas.Proofs.Solidity.Source

set_option autoImplicit false

/-! # What the patterns find in a file of contracts

Each pattern of the scanner but one starts with a keyword, and names are no keywords, so in a printed
file a pattern can match only at the keywords that the printer writes. The pattern of containers matches
once for each contract (`forall₂_container`), that of functions once for each function
(`forall₂_function`), and the others not at all. The pattern of call sites has no keyword: it matches
at the name of each function, which has a parenthesis after it, and at each call (`forall₂_callSite`).
-/

namespace CodeAtlas.Solidity

open Pattern Printed

/-! ## The printed text without its keywords -/

theorem nil_notMem_of_subset {ws : List Text} (hws : ws ⊆ keywords) : [] ∉ ws := by
  intro hmem
  exact absurd (hws hmem) (by decide)

section Avoids

variable {ws : List Text}

theorem name_notMem (hws : ws ⊆ keywords) (n : Name) : n.text ∉ ws :=
  fun hmem => n.notKeyword (hws hmem)

/-- What follows the opening parenthesis of a function has no keyword in it. -/
theorem avoids_afterParen (hws : ws ⊆ keywords) (f : FunctionDecl) :
    Text.Avoids ws (")".toList ++ (form.signature ++ (f.printBody form ++ "\n".toList))) := by
  have hnil := nil_notMem_of_subset hws
  have hpublic : "public".toList ∉ ws := fun hmem => absurd (hws hmem) (by decide)
  have hword : Text.Avoids ws ("public".toList ++ " ".toList) :=
    (Text.avoids_marks (by decide) hnil).word_append (by decide) hpublic (by decide)
  have hsignature : Text.Avoids ws (") ".toList ++ ("public".toList ++ " ".toList)) :=
    (Text.avoids_marks (by decide) hnil).append hword
  exact Function.avoids_afterParen hnil hsignature fun g _ => name_notMem hws g

theorem avoids_printFunction (hws : ws ⊆ keywords) (hfunction : "function".toList ∉ ws)
    (f : FunctionDecl) : Text.Avoids ws (printFunction f) := by
  have hnil := nil_notMem_of_subset hws
  have hhead := Function.avoids_printHead hnil hfunction (name_notMem hws f.name)
  exact (Text.avoids_marks (by decide) hnil).append (hhead.append (avoids_afterParen hws f))

theorem avoids_printBlock (hws : ws ⊆ keywords) (hfunction : "function".toList ∉ ws)
    (c : ContractDecl) : Text.Avoids ws c.printBlock := by
  have hnil := nil_notMem_of_subset hws
  have hfunctions := Text.Avoids.flatMap (l := c.functions)
    (fun f _ => avoids_printFunction hws hfunction f) hnil
  exact ((Text.avoids_marks (by decide) hnil).append hfunctions).append
    (Text.avoids_marks (by decide) hnil)

theorem avoids_joinParents (hws : ws ⊆ keywords) (ps : List Name) :
    Text.Avoids ws (", ".toList.intercalate (ps.map (·.text)) ++ " ".toList) := by
  have hnil := nil_notMem_of_subset hws
  induction ps with
  | nil => exact Text.avoids_marks (by decide) hnil
  | cons p ps ih =>
      have hword : ∀ c ∈ p.text, Text.isWord c = true := fun c hc => p.isWord_of_mem hc
      cases ps with
      | nil =>
          rw [List.map_singleton, List.intercalate_singleton]
          exact (Text.avoids_marks (by decide) hnil).word_append hword (name_notMem hws p)
            (by decide)
      | cons q ps =>
          rw [List.map_cons, List.map_cons, List.intercalate_cons_cons]
          have hfirst : Text.Avoids ws (p.text ++ ", ".toList) :=
            (Text.avoids_marks (by decide) hnil).word_append hword (name_notMem hws p)
              (by decide)
          have happend := hfirst.append ih
          rwa [← List.append_assoc, List.map_cons] at happend

theorem avoids_printHead (hws : ws ⊆ keywords) (hcontract : "contract".toList ∉ ws)
    (his : "is".toList ∉ ws) (c : ContractDecl) : Text.Avoids ws c.printHead := by
  have hnil := nil_notMem_of_subset hws
  have hkeyword : Text.Avoids ws ("contract".toList ++ " ".toList) :=
    (Text.avoids_marks (by decide) hnil).word_append (by decide) hcontract (by decide)
  have htail : Text.Avoids ws c.printTail ∧
      c.printTail.head?.any (fun c => !Text.isWord c) = true := by
    unfold ContractDecl.printTail
    split
    · exact ⟨Text.avoids_marks (by decide) hnil, by decide⟩
    · next ps hps =>
      have hclause : Text.Avoids ws ("is".toList ++ " ".toList) :=
        (Text.avoids_marks (by decide) hnil).word_append (by decide) his (by decide)
      have hstart : Text.Avoids ws (" ".toList ++ ("is".toList ++ " ".toList)) :=
        (Text.avoids_marks (by decide) hnil).append hclause
      have happend := hstart.append (avoids_joinParents hws c.parents)
      exact ⟨by rwa [← List.append_assoc] at happend, rfl⟩
  have hname := htail.1.word_append (fun d hd => c.name.isWord_of_mem hd)
    (name_notMem hws c.name) htail.2
  have hhead := hkeyword.append hname
  rwa [← List.append_assoc] at hhead

/-- A file has no keywords but those that the printer writes. -/
theorem avoids_printSource (hws : ws ⊆ keywords) (hcontract : "contract".toList ∉ ws)
    (his : "is".toList ∉ ws) (hfunction : "function".toList ∉ ws) (cs : List ContractDecl) :
    Text.Avoids ws (printSource cs) :=
  Text.Avoids.flatMap
    (fun c _ => (avoids_printHead hws hcontract his c).append (avoids_printBlock hws hfunction c))
    (nil_notMem_of_subset hws)

end Avoids

/-! ## Patterns and their keywords -/

theorem startsApart_flatParameters : flatParameters.StartsApart :=
  (startsApart_char (by decide)).all_cons _

theorem headedBy_importStatement : importStatement.HeadedBy ["import".toList] :=
  ((spells_lit _).opens (by decide) (startsApart_blanks1.all_cons _)).headedBy_boundary (by decide)

theorem headedBy_container : container.HeadedBy
    ["abstract".toList, "contract".toList, "interface".toList, "library".toList] := by
  have hkinds := (spells_lit_all (w := "abstract".toList)
      (startsApart_blanks1.all_cons [lit "contract".toList])).alt
    ((spells_lit "contract".toList).alt
      ((spells_lit "interface".toList).alt (spells_lit "library".toList)))
  exact ((hkinds.group 1).opens (by decide) (startsApart_blanks1.all_cons _)).headedBy_boundary
    (by decide)

theorem headedBy_heritageClause : heritageClause.HeadedBy ["is".toList] :=
  ((spells_lit _).opens (by decide) (startsApart_blanks1.all_cons _)).headedBy_boundary (by decide)

theorem headedBy_structOrEnum : structOrEnum.HeadedBy ["struct".toList, "enum".toList] := by
  have hkinds := (spells_lit "struct".toList).alt (spells_lit "enum".toList)
  exact ((hkinds.group 1).opens (by decide) (startsApart_blanks1.all_cons _)).headedBy_boundary
    (by decide)

theorem headedBy_eventOrError : eventOrError.HeadedBy ["event".toList, "error".toList] := by
  have hkinds := (spells_lit "event".toList).alt (spells_lit "error".toList)
  exact ((hkinds.group 1).opens (by decide) (startsApart_blanks1.all_cons _)).headedBy_boundary
    (by decide)

theorem headedBy_modifier : modifier.HeadedBy ["modifier".toList] :=
  ((spells_lit _).opens (by decide) (startsApart_blanks1.all_cons _)).headedBy_boundary (by decide)

theorem headedBy_function : function.HeadedBy ["function".toList] :=
  ((spells_lit _).opens (by decide) (startsApart_blanks1.all_cons _)).headedBy_boundary (by decide)

theorem headedBy_constructor : constructor.HeadedBy ["constructor".toList] := by
  have hafter := (startsApart_flatParameters.all_cons
    [blanks, .group 1 (.many isSignature)]).blanks_cons
  exact ((spells_lit _).opens (by decide) hafter).headedBy_boundary (by decide)

theorem headedBy_special : special.HeadedBy ["fallback".toList, "receive".toList] := by
  have hkinds := (spells_lit "fallback".toList).alt (spells_lit "receive".toList)
  have hafter := (startsApart_flatParameters.all_cons
    [blanks, .group 2 (.many isSignature)]).blanks_cons
  exact ((hkinds.group 1).opens (by decide) hafter).headedBy_notAfter
    fun c hc => by rw [hc, Bool.true_or]

/-- The keywords that the printer does not write. -/
def unprintedKeywords : List Text :=
  keywords.filter (· ∉ ["contract".toList, "is".toList, "function".toList])

/-- A pattern finds nothing in a file if the printer writes none of its keywords. -/
theorem findAll_printSource_eq_nil {p : Pattern} {ws : List Text} (hp : p.HeadedBy ws)
    (hws : ws ⊆ unprintedKeywords) (cs : List ContractDecl) : p.findAll (printSource cs) = [] := by
  have hkeywords : ws ⊆ keywords := List.Subset.trans hws (List.filter_subset_self _)
  have hcontract : "contract".toList ∉ ws := fun hmem => absurd (hws hmem) (by decide)
  have his : "is".toList ∉ ws := fun hmem => absurd (hws hmem) (by decide)
  have hfunction : "function".toList ∉ ws := fun hmem => absurd (hws hmem) (by decide)
  exact (hp.passes (avoids_printSource hkeywords hcontract his hfunction cs) [] []).findAll_eq_nil

/-! ## Contracts -/

/-- The match at the head of a contract. -/
structure ContractSite.IsMatch (p : ContractSite) (m : Match) : Prop where
  start_eq : m.start = p.start
  stop_eq : m.stop = p.start + p.item.printHead.length
  kind_eq : m.group 1 = "contract".toList
  name_eq : m.group 2 = p.item.name.text
  nameAt_eq : m.groupStart 2 = p.start + 9
  tail_eq : m.group 3 = p.item.printTail

theorem isSignature_of_isWord {c : Char} (h : Text.isWord c = true) : isSignature c = true := by
  have hbrace : c ≠ '\x7b' := by
    rintro rfl
    exact absurd h (by decide)
  have hsemi : c ≠ ';' := by
    rintro rfl
    exact absurd h (by decide)
  simp [isSignature, hbrace, hsemi]

theorem madeOf_printTail (c : ContractDecl) : Text.MadeOf " ,".toList c.printTail := by
  unfold ContractDecl.printTail
  split
  · decide
  · have hclause : Text.MadeOf " ,".toList " is ".toList := by decide
    have hcomma : Text.MadeOf " ,".toList ", ".toList := by decide
    refine (hclause.append (hcomma.intercalate fun t ht => ?_)).append (by decide)
    obtain ⟨p, -, rfl⟩ := List.mem_map.mp ht
    exact p.isIdentifier.madeOf _

theorem madeOf_printHead (c : ContractDecl) : Text.MadeOf " ,".toList c.printHead := by
  have hkeyword : Text.MadeOf " ,".toList "contract ".toList := by decide
  exact (hkeyword.append (c.name.isIdentifier.madeOf _)).append (madeOf_printTail c)

theorem exists_printTail_eq (c : ContractDecl) : ∃ r, c.printTail = ' ' :: r := by
  unfold ContractDecl.printTail
  split
  · exact ⟨[], rfl⟩
  · exact ⟨_, rfl⟩

/-- Nothing else starts like a contract. -/
theorem not_fits_abstract {before rest : Text} {groups : List (Nat × Cursor × Cursor)}
    (t : MatchState) : ¬ (all [lit "abstract".toList, blanks1, lit "contract".toList]).Fits
      ⟨⟨before, "contract".toList ++ rest⟩, groups⟩ t := by
  intro h
  obtain ⟨u, habstract, -⟩ := fits_all_cons.mp h
  have hreads := (fits_lit habstract).1
  exact absurd (List.cons_eq_cons.mp hreads).1 (by decide)

/-- **The head of a contract**: its name is read as a whole, and then all up to the brace. -/
theorem exists_chooses_container {u n tail : Text} (hu : u.getLast?.any Text.isWord = false)
    (hfirst : n.head?.any (fun c => Text.isAsciiLetter c || c == '_') = true)
    (hn : ∀ c ∈ n, Text.isWord c = true) (htail : ∀ c ∈ tail, isSignature c = true)
    (hapart : tail.head?.any (fun c => !Text.isWord c) = true) (r : Text) :
    ∃ t, container.Chooses ⟨⟨u.reverse, "contract ".toList ++ n ++ tail ++ '\x7b' :: r⟩, []⟩ t ∧
      t.cursor = ⟨(u ++ ("contract ".toList ++ n ++ tail)).reverse, '\x7b' :: r⟩ ∧
      ∀ m : Match, m = ⟨⟨u.reverse, "contract ".toList ++ n ++ tail ++ '\x7b' :: r⟩, t.cursor, t.groups⟩ →
        m.group 1 = "contract".toList ∧ m.group 2 = n ∧ m.groupStart 2 = u.length + 9 ∧
          m.group 3 = tail := by
  obtain ⟨d, w, rfl⟩ : ∃ d w, n = d :: w := by
    cases n with
    | nil => simp at hfirst
    | cons d w => exact ⟨d, w, rfl⟩
  have hd : (Text.isAsciiLetter d || d == '_') = true := by simpa using hfirst
  have hblank : Text.isBlank d = false := by
    by_contra hblank
    have hword := hn d List.mem_cons_self
    rw [isWord_eq_false_of_isBlank (by simpa using hblank)] at hword
    contradiction
  have hw : ∀ e ∈ w, Text.isWord e = true := fun e he => hn e (List.mem_cons_of_mem d he)
  have hstop : (tail ++ '\x7b' :: r).head?.any Text.isWord = false := by
    cases tail with
    | nil => simp at hapart
    | cons e tail => simpa using hapart
  have hsplit : "contract ".toList ++ (d :: w) ++ tail ++ '\x7b' :: r = "contract".toList ++
      ([' '] ++ (d :: (w ++ (tail ++ '\x7b' :: r)))) := by
    have hkeyword : "contract ".toList = "contract".toList ++ [' '] := rfl
    simp only [hkeyword, List.append_assoc, List.cons_append]
  have hstart : atBoundary ⟨u.reverse, "contract".toList ++
      ([' '] ++ (d :: (w ++ (tail ++ '\x7b' :: r))))⟩ = true := by
    rw [atBoundary, List.head?_reverse, hu]
    rfl
  have hend : atBoundary ⟨w.reverse ++ d :: ([' '].reverse ++ ("contract".toList.reverse ++
      u.reverse)), tail ++ '\x7b' :: r⟩ = true := by
    have hlast : ∃ e ∈ d :: w, (w.reverse ++ d :: ([' '].reverse ++ ("contract".toList.reverse ++
        u.reverse))).head? = some e := by
      rcases List.eq_nil_or_concat' w with rfl | ⟨w', e, rfl⟩
      · exact ⟨d, List.mem_cons_self, rfl⟩
      · exact ⟨e, by simp, by simp⟩
    obtain ⟨e, he, hhead⟩ := hlast
    rw [atBoundary, hhead, hstop, Option.any_some, hn e he]
    rfl
  have hall : container.Chooses ⟨⟨u.reverse, "contract".toList ++
      ([' '] ++ (d :: (w ++ (tail ++ '\x7b' :: r))))⟩, []⟩ _ :=
    (chooses_boundary hstart).all_cons <|
    ((Chooses.altRight not_fits_abstract (chooses_lit _).altLeft).group 1).all_cons <|
    (chooses_many1 (p := Text.isBlank) rfl (by simp) (by simpa using hblank)).all_cons <|
    (((chooses_one hd).seq (chooses_many hw hstop)).group 2).all_cons <|
    (chooses_boundary hend).all_cons <|
    ((chooses_many htail rfl).group 3).all_cons (chooses_all_nil _)
  rw [← hsplit] at hall
  refine ⟨_, hall, by simp, ?_⟩
  rintro m rfl
  refine ⟨?_, ?_, ?_, ?_⟩
  · exact Match.group_eq_of_span rfl ⟨hsplit, rfl⟩
  · exact Match.group_eq_of_span rfl ⟨rfl, by simp⟩
  · rw [Match.groupStart_eq_of_span rfl]
    simp [Cursor.pos]
  · exact Match.group_eq_of_span rfl ⟨rfl, rfl⟩

theorem finds_container (c : ContractDecl) {u : Text} (hu : u.getLast?.any Text.isWord = false)
    (line : Nat) (v : Text) :
    container.Finds ContractSite.IsMatch u c.print v [⟨c, u.length, line⟩] := by
  obtain ⟨r, htail⟩ := exists_printTail_eq c
  obtain ⟨r', hblock⟩ : ∃ r', c.printBlock = '\x7b' :: r' := ⟨_, rfl⟩
  have hsignature : ∀ e ∈ c.printTail, isSignature e = true := by
    intro e he
    rcases madeOf_printTail c e he with hword | hmark
    · exact isSignature_of_isWord hword
    · exact (by decide : ∀ d ∈ " ,".toList, isSignature d = true) e hmark
  -- The head is the match; the block after it has no keyword of containers.
  have hmatch : container.Finds ContractSite.IsMatch u c.printHead (c.printBlock ++ v)
      [⟨c, u.length, line⟩] := by
    obtain ⟨t, hchooses, hcursor, hgroups⟩ := exists_chooses_container hu c.name.isIdentifier.1
      (fun _ => c.name.isWord_of_mem) hsignature (by rw [htail]; rfl) (r' ++ v)
    have hrest : c.printHead ++ (c.printBlock ++ v) = "contract ".toList ++ c.name.text ++ c.printTail ++
        '\x7b' :: (r' ++ v) := by
      rw [hblock]
      rfl
    rw [← hrest] at hchooses hgroups
    obtain ⟨hkind, hname, hnameAt, htail⟩ := hgroups _ rfl
    refine hchooses.finds (by rw [hcursor, hblock]; rfl) (List.cons_ne_nil _ _)
      ⟨List.length_reverse, ?_, hkind, hname, hnameAt, htail⟩
    show t.cursor.pos = u.length + c.printHead.length
    rw [hcursor, Cursor.pos, List.length_reverse, List.length_append]
    rfl
  exact hmatch.append (headedBy_container.passes (avoids_printBlock (by decide) (by decide) c) _ _).finds

/-! ## Functions -/

/-- The match at the head of a function. -/
structure FunctionSite.IsMatch (q : FunctionSite) (m : Match) : Prop where
  start_eq : m.start = q.start
  stop_eq : m.stop = q.start + q.item.name.text.length + 10
  name_eq : m.group 1 = q.item.name.text
  nameAt_eq : m.groupStart 1 = q.start + 9

theorem finds_function (f : FunctionDecl) (contractStart line : Nat) (u v : Text) :
    function.Finds FunctionSite.IsMatch u (printFunction f) v
      [FunctionSite.ofLine contractStart ⟨f, u.length, line⟩] := by
  obtain ⟨d, w, htext, hd, hblank⟩ := f.name.exists_cons
  have hw : ∀ e ∈ w, Text.isWord e = true := fun e he =>
    f.name.isWord_of_mem (htext ▸ List.mem_cons_of_mem d he)
  have hmatch (rest : Text) : function.Finds FunctionSite.IsMatch (u ++ "    ".toList) f.printHead rest
      [FunctionSite.ofLine contractStart ⟨f, u.length, line⟩] := by
    have hhead : f.printHead = "function".toList ++ ([' '] ++ (d :: (w ++ ['(']))) := by
      have hkeyword : "function ".toList = "function".toList ++ [' '] := rfl
      have hparen : "(".toList = ['('] := rfl
      unfold Function.printHead
      simp only [hkeyword, hparen, htext, List.append_assoc, List.cons_append]
    have hsplit : f.printHead ++ rest =
        "function".toList ++ ([' '] ++ (d :: (w ++ ([] ++ '(' :: rest)))) := by
      simp only [hhead, List.append_assoc, List.cons_append, List.nil_append]
    have hstart : atBoundary ⟨(u ++ "    ".toList).reverse, "function".toList ++
        ([' '] ++ (d :: (w ++ ([] ++ '(' :: rest))))⟩ = true := by
      rw [List.reverse_append]
      rfl
    have hall : function.Chooses ⟨⟨(u ++ "    ".toList).reverse, "function".toList ++
        ([' '] ++ (d :: (w ++ ([] ++ '(' :: rest))))⟩, []⟩ _ :=
      (chooses_boundary hstart).all_cons <|
      (chooses_lit _).all_cons <|
      (chooses_many1 (p := Text.isBlank) rfl (by simp) (by simpa using hblank)).all_cons <|
      (((chooses_one hd).seq (chooses_many hw rfl)).group 1).all_cons <|
      (chooses_many (p := Text.isBlank) (by simp) rfl).all_cons <|
      (chooses_char '(').all_cons (chooses_all_nil _)
    rw [← hsplit] at hall
    refine hall.finds ?_ ?_ ⟨?_, ?_, ?_, ?_⟩
    · simp [hhead]
    · rw [hhead]
      exact List.cons_ne_nil _ _
    · simp [Match.start, Cursor.pos, FunctionSite.ofLine, Site.behind]
    · simp [Match.stop, Cursor.pos, FunctionSite.ofLine, Site.behind, htext]
      omega
    · show Match.group _ 1 = f.name.text
      rw [htext]
      exact Match.group_eq_of_span rfl ⟨rfl, by simp⟩
    · rw [Match.groupStart_eq_of_span rfl]
      simp [Cursor.pos, FunctionSite.ofLine, Site.behind]
  have hspaces := headedBy_function.passes (w := "    ".toList)
    (Text.avoids_marks (by decide) (by decide)) u
  have hafter := headedBy_function.passes (avoids_afterParen (by decide) f)
    (u ++ "    ".toList ++ f.printHead) v
  exact (hspaces _).finds.append ((hmatch _).append hafter.finds)

/-- **What is found in one function after another** is found in their contract, if nothing is found in
what the contract is printed with besides. -/
theorem finds_functions {α : Type} {p : Pattern} {R : α → Match → Prop} {l : FunctionSite → List α}
    (c : ContractDecl) (line : Nat) (u v : Text)
    (hfront : ∀ v, p.Finds R u (c.printHead ++ "\x7b\n".toList) v [])
    (hback : ∀ u v, p.Finds R u "\x7d\n".toList v [])
    (h : ∀ (f : FunctionDecl) (line : Nat) (w v : Text),
      p.Finds R w (printFunction f) v (l (FunctionSite.ofLine u.length ⟨f, w.length, line⟩))) :
    p.Finds R u c.print v ((ContractSite.functionSites ⟨c, u.length, line⟩).flatMap l) := by
  have hsplit : c.print = (c.printHead ++ "\x7b\n".toList) ++
      (c.functions.flatMap printFunction ++ "\x7d\n".toList) := by
    unfold ContractDecl.print ContractDecl.printBlock
    simp only [List.append_assoc]
  have hfunctions := Finds.flatMap (P := fun _ => True) (l := fun x => l (FunctionSite.ofLine u.length x))
    (fun _ _ _ => trivial) (fun f (_ : f ∈ c.functions) line w v _ => h f line w v) (line + 1)
    (u := u ++ (c.printHead ++ "\x7b\n".toList)) trivial ("\x7d\n".toList ++ v)
  have hlength : (u ++ (c.printHead ++ "\x7b\n".toList)).length =
      ContractSite.blockStart ⟨c, u.length, line⟩ + 2 := by
    simp [ContractSite.blockStart, Nat.add_assoc]
  have hfinds := (hfront _).append (hfunctions.append (hback _ v))
  rw [hlength, ← hsplit, List.nil_append, List.append_nil] at hfinds
  rwa [ContractSite.functionSites, List.flatMap_map]

/-- The functions of a contract are found between its braces. -/
theorem finds_functions_print (c : ContractDecl) (line : Nat) (u v : Text) :
    function.Finds FunctionSite.IsMatch u c.print v
      (ContractSite.functionSites ⟨c, u.length, line⟩) := by
  have hfront : Text.Avoids ["function".toList] (c.printHead ++ "\x7b\n".toList) :=
    (avoids_printHead (by decide) (by decide) (by decide) c).append
      (Text.avoids_marks (by decide) (by decide))
  have hback : Text.Avoids ["function".toList] "\x7d\n".toList :=
    Text.avoids_marks (by decide) (by decide)
  have hfinds := finds_functions (l := fun q => [q]) c line u v
    (fun v => (headedBy_function.passes hfront u v).finds)
    (fun u v => (headedBy_function.passes hback u v).finds)
    fun f line w v => finds_function f u.length line w v
  rwa [List.flatMap_singleton'] at hfinds

/-! ## Call sites -/

theorem finds_callSite_printFunction (f : FunctionDecl) (contractStart line : Nat) (u v : Text) :
    callSite.Finds Site.IsNamedBy u (printFunction f) v
      ((FunctionSite.ofLine contractStart ⟨f, u.length, line⟩).nameSites form) := by
  have hspaces := callSite_passes_marks (w := "    ".toList) (by decide) u
  have hprint := finds_callSite_print form f line (u ++ "    ".toList) v
  have hfinds := (hspaces _).finds.append hprint
  rw [List.length_append] at hfinds
  exact hfinds

theorem finds_callSite_contract (c : ContractDecl) (line : Nat) (u v : Text) :
    callSite.Finds Site.IsNamedBy u c.print v
      ((ContractSite.functionSites ⟨c, u.length, line⟩).flatMap fun q => q.nameSites form) := by
  have hparen : '(' ∉ c.printHead ++ ['\x7b'] := by
    simpa using (madeOf_printHead c).notMem (by decide) (by decide)
  have hsplit : c.printHead ++ "\x7b\n".toList = (c.printHead ++ ['\x7b']) ++ "\n".toList := by
    rw [List.append_assoc]
    rfl
  refine finds_functions c line u v (fun v => ?_)
    (fun u v => (callSite_passes_marks (by decide) u v).finds)
    fun f line w v => finds_callSite_printFunction f u.length line w v
  rw [hsplit]
  exact (callSite_passes_closed hparen (by decide) (by decide) u _).finds.append
    (callSite_passes_marks (by decide) _ v).finds

/-! ## Whole files -/

/-- **What is found in one contract after another** is found in the file. -/
theorem forall₂_printSource {α : Type} {p : Pattern} {R : α → Match → Prop} {l : ContractSite → List α}
    (h : ∀ (c : ContractDecl) (line : Nat) (u v : Text), u.getLast?.any Text.isWord = false →
      p.Finds R u c.print v (l ⟨c, u.length, line⟩))
    (cs : List ContractDecl) :
    List.Forall₂ R ((contractSites cs).flatMap l) (p.findAll (printSource cs)) := by
  refine (Finds.flatMap (P := fun u => u.getLast?.any Text.isWord = false) (fun c _ u => ?_)
    (fun c _ line u v hu => h c line u v hu) 0 (u := []) rfl []).findAll
  have hend : (u ++ c.print).getLast? = some '\n' := by
    simp [ContractDecl.print, ContractDecl.printBlock, List.getLast?_cons]
  rw [hend]
  rfl

theorem forall₂_container (cs : List ContractDecl) :
    List.Forall₂ ContractSite.IsMatch (contractSites cs) (container.findAll (printSource cs)) := by
  have hfinds := forall₂_printSource (l := fun p => [p])
    (fun c line u v hu => finds_container c hu line v) cs
  rwa [List.flatMap_singleton'] at hfinds

theorem forall₂_function (cs : List ContractDecl) :
    List.Forall₂ FunctionSite.IsMatch (allFunctionSites cs) (function.findAll (printSource cs)) :=
  forall₂_printSource (fun c line u v _ => finds_functions_print c line u v) cs

theorem forall₂_callSite (cs : List ContractDecl) :
    List.Forall₂ Site.IsNamedBy ((allFunctionSites cs).flatMap fun q => q.nameSites form)
      (callSite.findAll (printSource cs)) := by
  rw [allFunctionSites, List.flatMap_assoc]
  exact forall₂_printSource (fun c line u v _ => finds_callSite_contract c line u v) cs

end CodeAtlas.Solidity
