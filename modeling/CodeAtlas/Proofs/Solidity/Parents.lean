import CodeAtlas.Proofs.Bracket.Clauses
import CodeAtlas.Proofs.Extraction.Heritage
import CodeAtlas.Proofs.Solidity.Matches

set_option autoImplicit false

/-! # Reading the parents of a contract

The scanner looks for the clause of parents in the rest of the head (`search?_heritageClause`), splits it
at its commas, trims the pieces and takes a name from each. On a printed clause this gives the names that
were printed (`splitTopLevel_names`, `parentName?_name`), and without parents there is no clause.
-/

namespace CodeAtlas.Solidity

open Pattern

/-! ## The clause -/

/-- The clause of parents is all that follows the word. -/
theorem search?_heritageClause {d : Char} (hd : Text.isBlank d = false) (w : Text) :
    ∃ m, heritageClause.search? (" is ".toList ++ d :: w) = some m ∧ m.group 1 = d :: w := by
  have hchooses : heritageClause.Chooses ⟨⟨[' '], "is".toList ++ ([' '] ++ (d :: w ++ []))⟩, []⟩ _ :=
    (chooses_boundary rfl).all_cons <| (chooses_lit _).all_cons <|
    (chooses_many1 (p := Text.isBlank) rfl (by simp) (by simpa using hd)).all_cons <|
    ((chooses_many1 (p := fun _ => true) rfl (by simp) rfl).group 1).all_cons (chooses_all_nil _)
  have hspace : Text.Lacks ["is".toList] [' '] :=
    (Text.avoids_marks (by decide) (by decide)).1
  have hsearch := headedBy_heritageClause.search?_append hspace (Or.inl rfl) hchooses
  rw [List.append_nil] at hsearch
  exact ⟨_, hsearch, Match.group_eq_of_span rfl ⟨by simp, rfl⟩⟩

/-! ## Printed parents -/

/-- A name is a dotted name of one component. -/
def Name.dotted (n : Name) : DottedName [] where
  components := [n.text]
  ne_nil := List.cons_ne_nil _ _
  isIdentifier := by simpa using n.isIdentifier
  notExcluded := by simp

theorem Name.text_dotted (n : Name) : n.dotted.text = n.text := List.intercalate_singleton

theorem Name.trim_text (n : Name) : Text.trim n.text = n.text := by
  have htrim := Text.trim_append (b := []) (d := []) (by simp) n.dotted.isBlank_eq_false (by simp)
  rwa [List.nil_append, List.append_nil, n.text_dotted] at htrim

/-- **The printed parents are the pieces between the commas.** -/
theorem splitTopLevel_names (ps : List Name) :
    Bracket.splitTopLevel [','] (", ".toList.intercalate (ps.map (·.text)) ++ " ".toList) =
      ps.map (·.text) := by
  have hinert (p : Name) := Bracket.unsplit_of_isInert fun _ hc =>
    Bracket.isInert_of_isWord (p.isWord_of_mem hc)
  have hsplit : Bracket.splitTopLevel [','] (", ".toList.intercalate (ps.map (·.text))) =
      (ps.map (·.text)).map Text.trim := by
    refine Bracket.splitTopLevel_join (g := [' ']) (by decide) ?_ ?_ fun t ht => ?_
    · simpa [Name.trim_text] using fun p _ => p.ne_nil
    · simpa using fun p _ => (hinert p).1
    · obtain ⟨p, -, rfl⟩ := List.mem_map.mp (List.mem_of_mem_dropLast ht)
      exact (hinert p).2
  rw [Bracket.splitTopLevel_append_blank (by decide), hsplit, List.map_map]
  exact List.map_congr_left fun p _ => p.trim_text

/-- A name is its own last component. -/
theorem parentName?_name (n : Name) : parentName? n.text = some n.text := by
  have hname := parentName?_text n.dotted (r := []) rfl
  rw [List.append_nil, n.text_dotted] at hname
  exact hname n.trim_text

theorem heritageOf_names (d : Definition) (ps : List Name) (kind : HeritageKind) :
    Scan.heritageOf d (ps.map (·.text)) kind = d.inherits (ps.map (·.text)) kind :=
  Scan.heritageOf_eq (List.forall₂_map_left_iff.mpr <| List.forall₂_map_right_iff.mpr <|
    List.forall₂_same.mpr fun p _ => parentName?_name p) d kind

theorem search?_printTail_of_nil {c : ContractDecl} (h : c.parents = []) :
    heritageClause.search? c.printTail = none := by
  unfold ContractDecl.printTail
  rw [h]
  rfl

theorem search?_printTail {c : ContractDecl} (h : c.parents ≠ []) :
    ∃ m, heritageClause.search? c.printTail = some m ∧
      m.group 1 = ", ".toList.intercalate (c.parents.map (·.text)) ++ " ".toList := by
  -- The clause starts with the first letter of the first parent.
  obtain ⟨d, w, hclause, hd⟩ : ∃ d w, ", ".toList.intercalate (c.parents.map (·.text)) ++ " ".toList =
      d :: w ∧ Text.isBlank d = false := by
    obtain ⟨p, ps, hps⟩ := List.exists_cons_of_ne_nil h
    obtain ⟨d, w, htext, -, hd⟩ := p.exists_cons
    rw [hps, List.map_cons, htext]
    cases ps with
    | nil =>
        rw [List.map_nil, List.intercalate_singleton]
        exact ⟨d, _, rfl, hd⟩
    | cons q ps =>
        rw [List.map_cons, List.intercalate_cons_cons]
        exact ⟨d, _, rfl, hd⟩
  have htail : c.printTail = " is ".toList ++ d :: w := by
    unfold ContractDecl.printTail
    split
    · next hnil => exact absurd hnil h
    · rw [List.append_assoc, hclause]
  rw [htail, hclause]
  exact search?_heritageClause hd w

/-- **The parents of a contract are recorded in order**, its own name left out. -/
theorem addHeritage_printTail (s : Scan) (d : Definition) (c : ContractDecl) :
    (match heritageClause.search? c.printTail with
      | some h => s.addHeritage (some d) (Bracket.splitTopLevel [','] (h.group 1)) .extendsType
      | none => s) =
      { s with
        heritage := s.heritage ++ ((c.parents.map (·.text)).filter (· ≠ d.name)).map fun parent =>
          ⟨d.id, d.name, parent, .extendsType⟩ } := by
  by_cases hparents : c.parents = []
  · rw [search?_printTail_of_nil hparents, hparents]
    simp
  · obtain ⟨m, hsearch, hgroup⟩ := search?_printTail hparents
    rw [hsearch]
    show s.addHeritage (some d) (Bracket.splitTopLevel [','] (m.group 1)) .extendsType = _
    rw [hgroup, splitTopLevel_names, Scan.addHeritage, heritageOf_names]
    rfl

end CodeAtlas.Solidity
