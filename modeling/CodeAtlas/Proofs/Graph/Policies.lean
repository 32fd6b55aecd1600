import CodeAtlas.Proofs.Graph.Resolution

set_option autoImplicit false

/-! # The policies compared

A policy decides nothing but which of several candidates a call or a parent means. So the graphs of the
same files under two policies have the same nodes, and the same relationships of the kinds that are not
chosen among candidates, in the same order (`Graph.keep_build`). That the relationships of other kinds
are added in between does not matter, since a relationship is refused only for its ends or for one that
equals it (`Graph.keep_addRelationships`).

Where the only candidate counts, it is also the first one. Hence what is unique is chosen by the policy
that prefers the file of the reference, too (`TieBreak.choose_sameFileFirst`), and the graph of the
former has no edge that the graph of the latter does not have.
-/

namespace CodeAtlas

/-! ## Choices -/

theorem head?_of_theOnly {α : Type} {l : List α} {a : α} (h : theOnly l = some a) :
    l.head? = some a := by
  match l, h with
  | [b], h => exact h

namespace TieBreak

variable {file : Text} {cs : List Candidate}

/-- **What is unique is the first**, in the file of the reference or altogether. -/
theorem choose_sameFileFirst {t : Text} (h : uniqueOnly.choose file cs = some t) :
    sameFileFirst.choose file cs = some t := by
  simp only [choose] at h ⊢
  split at h
  · next hempty =>
    obtain ⟨c, hc, rfl⟩ := Option.map_eq_some_iff.mp h
    rw [if_pos hempty, head?_of_theOnly hc, Option.map_some]
  · next hhere =>
    obtain ⟨c, hc, rfl⟩ := Option.map_eq_some_iff.mp h
    rw [if_neg hhere, head?_of_theOnly hc, Option.map_some]

/-- A policy that takes the first chooses nothing only where there is nothing to choose from. -/
theorem choose_eq_none_iff {policy : TieBreak} (hpolicy : policy ≠ uniqueOnly) :
    policy.choose file cs = none ↔ cs = [] := by
  cases policy with
  | uniqueOnly => exact absurd rfl hpolicy
  | firstDeclared => rw [choose, Option.map_eq_none_iff, List.head?_eq_none_iff]
  | sameFileFirst =>
      simp only [choose]
      split
      · rw [Option.map_eq_none_iff, List.head?_eq_none_iff]
      · next hhere =>
        -- There is a candidate in the file of the reference, so there is one.
        rw [Option.map_eq_none_iff, List.head?_eq_none_iff]
        rw [List.isEmpty_iff] at hhere
        constructor
        · exact fun hnil => absurd hnil hhere
        · rintro rfl
          exact absurd rfl hhere

end TieBreak

namespace Graph

/-! ## Relationships of some kinds -/

/-- The graph with those of its relationships that are of certain kinds. -/
def keep (p : RelationKind → Bool) (g : Graph) : Graph :=
  { g with relationships := g.relationships.filter fun r => p r.kind }

variable {p : RelationKind → Bool}

theorem keep_addRelationship_of_neg (g : Graph) {r : Relationship} (hr : p r.kind = false) :
    (g.addRelationship r).1.keep p = g.keep p := by
  unfold addRelationship
  split
  · rfl
  · simp [keep, hr]

theorem keep_addRelationship_of_pos (g : Graph) {r : Relationship} (hr : p r.kind = true) :
    (g.addRelationship r).1.keep p = ((g.keep p).addRelationship r).1 := by
  have hcontains : (g.keep p).relationships.contains r = g.relationships.contains r := by
    rw [Bool.eq_iff_iff, List.contains_iff_mem, List.contains_iff_mem]
    simp [keep, hr]
  have hnode : ∀ id, (g.keep p).hasNode id = g.hasNode id := fun _ => rfl
  unfold addRelationship
  rw [hcontains, hnode, hnode]
  split
  · rfl
  · simp [keep, hr]

/-- **What is left out does not matter to what is added.** -/
theorem keep_addRelationships (g : Graph) (rs : List Relationship) :
    (g.addRelationships rs).keep p =
      (g.keep p).addRelationships (rs.filter fun r => p r.kind) := by
  induction rs generalizing g with
  | nil => rfl
  | cons r rs ih =>
      show ((g.addRelationship r).1.addRelationships rs).keep p = _
      rw [ih]
      by_cases hr : p r.kind = true
      · rw [keep_addRelationship_of_pos g hr, List.filter_cons, if_pos hr]
        rfl
      · rw [keep_addRelationship_of_neg g (by simpa using hr), List.filter_cons, if_neg hr]

/-! ## What a policy does not decide -/

/-- The kinds of relationships for which no policy is asked. -/
def isUnchosen : RelationKind → Bool
  | .contains | .defines | .imports => true
  | .calls | .extendsType | .implementsType => false

theorem callEdge_kind {policy : TieBreak} {ds : List Declared} {path : Text} {c : Call}
    {x : Relationship} (h : callEdge policy ds path c = some x) : x.kind = .calls := by
  unfold callEdge at h
  split at h
  · rw [Option.ite_none_left_eq_some, Option.some_inj] at h
    rw [← h.2]
  · simp at h

theorem heritageEdge_kind {g : Graph} {policy : TieBreak} {ds : List Declared} {path : Text}
    {entry : Heritage} {x : Relationship} (h : g.heritageEdge policy ds path entry = some x) :
    x.kind = .implementsType ∨ x.kind = .extendsType := by
  unfold heritageEdge at h
  split at h
  · rw [Option.ite_none_left_eq_some, Option.some_inj] at h
    rw [← h.2]
    exact (g.heritageEdgeKind_eq entry _).imp And.right And.right
  · simp at h

/-- The edges that no policy decides: those of structure, and imports. -/
theorem filter_edgesOf (g : Graph) (policy : TieBreak) (results : List Extraction) :
    (g.edgesOf policy results).filter (fun r => isUnchosen r.kind) =
      results.flatMap g.structureOf ++
        results.flatMap fun e => e.imports.filterMap (importEdge (results.map (·.path)) e) := by
  have hstructure : ∀ x ∈ results.flatMap g.structureOf, isUnchosen x.kind = true := by
    intro x hx
    obtain ⟨e, -, hx⟩ := List.mem_flatMap.mp hx
    rcases kind_of_mem_structureOf hx with hkind | hkind
    · rw [hkind]; rfl
    · rw [hkind]; rfl
  have hcalls : ∀ x ∈ results.flatMap (fun e => e.calls.filterMap
      (callEdge policy (declarations results) e.path)), ¬ isUnchosen x.kind = true := by
    intro x hx
    obtain ⟨e, -, hx⟩ := List.mem_flatMap.mp hx
    obtain ⟨c, -, hx⟩ := List.mem_filterMap.mp hx
    rw [callEdge_kind hx]
    decide
  have himports : ∀ x ∈ results.flatMap (fun e => e.imports.filterMap
      (importEdge (results.map (·.path)) e)), isUnchosen x.kind = true := by
    intro x hx
    obtain ⟨e, -, hx⟩ := List.mem_flatMap.mp hx
    obtain ⟨raw, -, hx⟩ := List.mem_filterMap.mp hx
    rw [importEdge_kind hx]
    rfl
  have hheritage : ∀ x ∈ results.flatMap (fun e => e.heritage.filterMap (g.heritageEdge policy
      ((declarations results).filter fun d => d.definition.label.isType) e.path)),
      ¬ isUnchosen x.kind = true := by
    intro x hx
    obtain ⟨e, -, hx⟩ := List.mem_flatMap.mp hx
    obtain ⟨entry, -, hx⟩ := List.mem_filterMap.mp hx
    rcases heritageEdge_kind hx with hkind | hkind
    · rw [hkind]; decide
    · rw [hkind]; decide
  simp only [edgesOf, List.filter_append]
  rw [List.filter_eq_self.mpr hstructure, List.filter_eq_nil_iff.mpr hcalls,
    List.filter_eq_self.mpr himports, List.filter_eq_nil_iff.mpr hheritage, List.append_nil,
    List.append_nil]

section Build

variable (limit : Int) (results : List Extraction) (contents : Mapping Text)

/-- **Without the choices a graph is the same under all policies.** -/
theorem keep_build (policy policy' : TieBreak) :
    (build ⟨policy, limit⟩ results contents).keep isUnchosen =
      (build ⟨policy', limit⟩ results contents).keep isUnchosen := by
  unfold build
  rw [keep_addRelationships, keep_addRelationships, filter_edgesOf, filter_edgesOf]
  rfl

/-! ## What is unique -/

theorem callEdge_sameFileFirst {ds : List Declared} {path : Text} {c : Call} {x : Relationship}
    (h : callEdge .uniqueOnly ds path c = some x) : callEdge .sameFileFirst ds path c = some x := by
  unfold callEdge at h ⊢
  split at h
  · next t ht =>
    rw [TieBreak.choose_sameFileFirst ht]
    exact h
  · simp at h

theorem heritageEdge_sameFileFirst {g : Graph} {ds : List Declared} {path : Text}
    {entry : Heritage} {x : Relationship} (h : g.heritageEdge .uniqueOnly ds path entry = some x) :
    g.heritageEdge .sameFileFirst ds path entry = some x := by
  unfold heritageEdge at h ⊢
  split at h
  · next t ht =>
    rw [TieBreak.choose_sameFileFirst ht]
    exact h
  · simp at h

theorem edgesOf_subset (g : Graph) :
    g.edgesOf .uniqueOnly results ⊆ g.edgesOf .sameFileFirst results := by
  intro x hx
  simp only [edgesOf, List.mem_append, List.mem_flatMap, List.mem_filterMap] at hx ⊢
  rcases hx with ((hstructure | ⟨e, he, c, hc, hx⟩) | himport) | ⟨e, he, entry, hentry, hx⟩
  · exact Or.inl (Or.inl (Or.inl hstructure))
  · exact Or.inl (Or.inl (Or.inr ⟨e, he, c, hc, callEdge_sameFileFirst hx⟩))
  · exact Or.inl (Or.inr himport)
  · exact Or.inr ⟨e, he, entry, hentry, heritageEdge_sameFileFirst hx⟩

/-- **The policies compared.** Build the graph of the same files under each policy. The nodes are the
same, and so are the relationships that contain, define or import, all in the same order. What is unique
is chosen by the policy that prefers the file of the reference, so that its graph has all edges of the
graph of unique choices. And a reference to a name, be it a call among all definitions or a parent among
the classes and interfaces, is left without a target by that policy exactly if it is by the one that
takes the first declaration. -/
theorem policies_compared (limit : Int) (results : List Extraction) (contents : Mapping Text) :
    let g := fun policy : TieBreak => build ⟨policy, limit⟩ results contents
    let ds := declarations results
    let types := ds.filter fun d => d.definition.label.isType
    (∀ policy policy' : TieBreak, (g policy).nodes = (g policy').nodes ∧
      (g policy).relationships.filter (fun r => [.contains, .defines, .imports].contains r.kind) =
        (g policy').relationships.filter
          (fun r => [.contains, .defines, .imports].contains r.kind)) ∧
    (g .uniqueOnly).relationships ⊆ (g .sameFileFirst).relationships ∧
    ∀ file name : Text,
      (TieBreak.sameFileFirst.choose file (candidates ds name) = none ↔
        TieBreak.firstDeclared.choose file (candidates ds name) = none) ∧
      (TieBreak.sameFileFirst.choose file (candidates types name) = none ↔
        TieBreak.firstDeclared.choose file (candidates types name) = none) := by
  intro g ds types
  have hnone : ∀ (file : Text) (cs : List Candidate),
      TieBreak.sameFileFirst.choose file cs = none ↔ TieBreak.firstDeclared.choose file cs = none :=
    fun file cs => (TieBreak.choose_eq_none_iff (by decide)).trans
      (TieBreak.choose_eq_none_iff (by decide)).symm
  refine ⟨fun policy policy' => ⟨?_, ?_⟩, fun x hx => ?_, fun file name => ⟨hnone _ _, hnone _ _⟩⟩
  · exact (nodes_addRelationships _ _).trans (nodes_addRelationships _ _).symm
  · have hkinds : (fun r : Relationship => [.contains, .defines, .imports].contains r.kind) =
        fun r => isUnchosen r.kind := by
      funext r
      cases r.kind <;> rfl
    rw [hkinds]
    exact congrArg (·.relationships) (keep_build limit results contents policy policy')
  · rw [mem_build_iff] at hx ⊢
    obtain ⟨hedge, hends⟩ := hx
    -- The nodes are the same, so the ends of the edge are there.
    have hnode : ∀ id, (g .uniqueOnly).hasNode id = (g .sameFileFirst).hasNode id := by
      intro id
      exact (hasNode_addRelationships _ _ id).trans (hasNode_addRelationships _ _ id).symm
    rw [← hnode, ← hnode]
    exact ⟨edgesOf_subset results _ hedge, hends⟩

end Build

/-- A file calls two names and extends a class. Of the first name there are two definitions in this file
and one before it, of the second there is one in each of the other files, and the class is the only one
of its name. The three policies give three graphs: what is unique is the class alone, and the two others
choose different definitions of the first name. -/
theorem policies_compared_ambiguous :
    let definition := fun (id : Text) (label : Label) (name : Text) =>
      ({ id, label, name, startLine := 0, endLine := 0, isExported := true, start := 0,
         owner := none } : Definition)
    let a : Extraction :=
      { path := "a.ts".toList
        definitions := [definition "f".toList .function "f".toList,
          definition "g".toList .function "g".toList] }
    let b : Extraction :=
      { path := "b.ts".toList
        definitions := [definition "C".toList .classType "C".toList,
          definition "f1".toList .method "f".toList, definition "f2".toList .method "f".toList]
        calls := [⟨"f".toList, "C".toList⟩, ⟨"g".toList, "C".toList⟩]
        heritage := [⟨"C".toList, "C".toList, "D".toList, .extendsType⟩] }
    let c : Extraction :=
      { path := "c.ts".toList
        definitions := [definition "g'".toList .function "g".toList,
          definition "D".toList .classType "D".toList] }
    let g := fun policy : TieBreak => build ⟨policy, 0⟩ [a, b, c] []
    let chosen := fun policy : TieBreak =>
      (g policy).relationships.filter fun r => r.kind != .contains
    (g .uniqueOnly).relationships ⊆ (g .sameFileFirst).relationships ∧
    chosen .uniqueOnly = [⟨"C".toList, "D".toList, .extendsType⟩] ∧
    chosen .sameFileFirst = [⟨"C".toList, "f1".toList, .calls⟩, ⟨"C".toList, "g".toList, .calls⟩,
      ⟨"C".toList, "D".toList, .extendsType⟩] ∧
    chosen .firstDeclared = [⟨"C".toList, "f".toList, .calls⟩, ⟨"C".toList, "g".toList, .calls⟩,
      ⟨"C".toList, "D".toList, .extendsType⟩] := by
  intro definition a b c g chosen
  exact ⟨(policies_compared 0 [a, b, c] []).2.1, by decide +kernel, by decide +kernel,
    by decide +kernel⟩

end Graph

end CodeAtlas
