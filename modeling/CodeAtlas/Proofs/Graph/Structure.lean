import CodeAtlas.Proofs.Graph.WellFormed

set_option autoImplicit false

/-! # Files and what they contain

The first relationships of a graph are read off the definitions alone: a file contains each of its
definitions, and a definition that has an owner is defined by it, if the owner is a node of a kind that
can own. Nothing is resolved here, so the edges are told by the definitions one by one
(`Graph.mem_build_contains_iff`, `Graph.mem_build_defines_iff`).

Of several nodes with one identity the graph has the first (`Graph.node?_nodesOnly`). Where no definition
has the identity of another or of a file (`Graph.DistinctIds`), only files can be left out, and nothing
here can tell which: all that is asked of a node is its kind.
-/

namespace CodeAtlas.Graph

/-! ## Nodes -/

theorem node?_addNode (g : Graph) (n : Node) (id : Text) :
    (g.addNode n).1.node? id = (g.node? id).or ([n].find? fun m => m.id == id) := by
  unfold addNode
  split
  · next htaken =>
    by_cases hid : n.id = id
    · -- The identity is taken by a node that comes before.
      obtain ⟨m, hm⟩ := Option.isSome_iff_exists.mp htaken
      rw [← hid, hm, Option.some_or]
    · rw [List.find?_cons_of_neg (by simpa using hid), List.find?_nil, Option.or_none]
  · exact List.find?_append

theorem node?_addNodes (g : Graph) (ns : List Node) (id : Text) :
    (g.addNodes ns).node? id = (g.node? id).or (ns.find? fun m => m.id == id) := by
  induction ns generalizing g with
  | nil => exact Option.or_none.symm
  | cons n ns ih =>
      show ((g.addNode n).1.addNodes ns).node? id = _
      rw [ih, node?_addNode, Option.or_assoc, ← List.find?_append]
      rfl

/-- **Of the nodes with one identity the first counts.** -/
theorem node?_nodesOnly (o : BuildOptions) (contents : Mapping Text) (results : List Extraction)
    (id : Text) :
    (nodesOnly o contents results).node? id =
      (results.flatMap (nodesOf o contents)).find? fun m => m.id == id := by
  rw [nodesOnly, node?_addNodes]
  rfl

theorem node?_build (o : BuildOptions) (results : List Extraction) (contents : Mapping Text)
    (id : Text) :
    (build o results contents).node? id =
      (results.flatMap (nodesOf o contents)).find? fun m => m.id == id := by
  rw [build, node?_addRelationships, node?_nodesOnly]

/-- The kind of a node. -/
def label? (g : Graph) (id : Text) : Option Label := (g.node? id).map (·.label)

theorem hasNode_eq_isSome_label? (g : Graph) (id : Text) : g.hasNode id = (g.label? id).isSome := by
  rw [hasNode, label?, Option.isSome_map]

theorem mem_nodes_iff {g : Graph} (hg : g.WellFormed) {n : Node} :
    n ∈ g.nodes ↔ g.node? n.id = some n := by
  constructor
  · intro hn
    obtain ⟨m, hm⟩ := Option.isSome_iff_exists.mp (hasNode_iff.mpr ⟨n, hn, rfl⟩)
    have hid : m.id = n.id := by simpa using List.find?_some hm
    rw [hm, List.inj_on_of_nodup_map hg.ids_nodup (List.mem_of_find?_eq_some hm) hn hid]
  · exact List.mem_of_find?_eq_some

/-! ## Distinct identities -/

/-- No definition has the identity of another or of a file. -/
structure DistinctIds (results : List Extraction) : Prop where
  nodup : (results.flatMap fun e => e.definitions.map (·.id)).Nodup
  ne_file : ∀ e ∈ results, ∀ d ∈ e.definitions, ∀ e' ∈ results, d.id ≠ Identity.ofFile e'.path

section Distinct

variable {results : List Extraction}

theorem DistinctIds.nodup_listed (h : DistinctIds results) :
    ((listed results).map (·.definition.id)).Nodup := by
  have hids : (listed results).map (·.definition.id) =
      results.flatMap fun e => e.definitions.map (·.id) := by
    simp [listed, List.map_flatMap, Function.comp_def]
  rw [hids]
  exact h.nodup

/-- **A definition is told by its identity.** -/
theorem DistinctIds.eq_of_id_eq (h : DistinctIds results) {e e' : Extraction} (he : e ∈ results)
    (he' : e' ∈ results) {d d' : Definition} (hd : d ∈ e.definitions) (hd' : d' ∈ e'.definitions)
    (hid : d.id = d'.id) : e.path = e'.path ∧ d = d' := by
  have hmem : (⟨e.path, d⟩ : Declared) ∈ listed results :=
    List.mem_flatMap.mpr ⟨e, he, List.mem_map.mpr ⟨d, hd, rfl⟩⟩
  have hmem' : (⟨e'.path, d'⟩ : Declared) ∈ listed results :=
    List.mem_flatMap.mpr ⟨e', he', List.mem_map.mpr ⟨d', hd', rfl⟩⟩
  have hsame := List.inj_on_of_nodup_map h.nodup_listed hmem hmem' hid
  rwa [Declared.mk.injEq] at hsame

/-- Nodes with one identity are the same node, or both are of files. -/
theorem DistinctIds.eq_or_file (o : BuildOptions) (contents : Mapping Text)
    (h : DistinctIds results) {m n : Node}
    (hm : m ∈ results.flatMap (nodesOf o contents)) (hn : n ∈ results.flatMap (nodesOf o contents))
    (hid : m.id = n.id) :
    m = n ∨ ∃ e ∈ results, ∃ e' ∈ results,
      m = fileNode o e.path ((contents.get? e.path).getD []) ∧
        n = fileNode o e'.path ((contents.get? e'.path).getD []) := by
  obtain ⟨e, he, hm⟩ := List.mem_flatMap.mp hm
  obtain ⟨e', he', hn⟩ := List.mem_flatMap.mp hn
  rcases List.mem_cons.mp hm with rfl | hm
  · rcases List.mem_cons.mp hn with rfl | hn
    · exact Or.inr ⟨e, he, e', he', rfl, rfl⟩
    · obtain ⟨d, hd, rfl⟩ := List.mem_map.mp hn
      exact absurd hid.symm (h.ne_file e' he' d hd e he)
  · obtain ⟨d, hd, rfl⟩ := List.mem_map.mp hm
    rcases List.mem_cons.mp hn with rfl | hn
    · exact absurd hid (h.ne_file e he d hd e' he')
    · obtain ⟨d', hd', rfl⟩ := List.mem_map.mp hn
      obtain ⟨hpath, rfl⟩ := h.eq_of_id_eq he he' hd hd' hid
      rw [hpath]
      exact Or.inl rfl

end Distinct

/-! ## Owners -/

/-- An owner defines a member if it is a node of a kind that can own. -/
theorem ownership_eq_some_iff (g : Graph) (d : Definition) (x : Relationship) :
    g.ownership d = some x ↔
      ∃ owner, d.owner = some owner ∧ owner ≠ [] ∧ (g.label? owner).any Label.isContainer = true ∧
        x = ⟨owner, d.id, .defines⟩ := by
  unfold ownership label?
  split
  · next hnone => simp [hnone]
  · next hempty =>
    -- An empty identity is as good as none.
    simp [hempty]
  · next owner hne howner =>
    simp only [howner, Option.some.injEq, exists_eq_left']
    cases g.node? owner with
    | none => simp
    | some n =>
        by_cases hlabel : n.label.isContainer = true
        · simpa [hlabel, show owner ≠ [] from hne] using eq_comm
        · simp [hlabel]

/-! ## Edges -/

theorem mem_structureOf_iff (g : Graph) (e : Extraction) (x : Relationship) :
    x ∈ g.structureOf e ↔
      ∃ d ∈ e.definitions, x = ⟨Identity.ofFile e.path, d.id, .contains⟩ ∨ g.ownership d = some x := by
  simp [structureOf]

/-- The computed edges of these two kinds come from the definitions. -/
theorem mem_edgesOf_structure_iff (g : Graph) (policy : TieBreak) (results : List Extraction)
    {x : Relationship} (hx : x.kind = .contains ∨ x.kind = .defines) :
    x ∈ g.edgesOf policy results ↔ ∃ e ∈ results, x ∈ g.structureOf e := by
  have hcontradiction : ∀ k : RelationKind, x.kind = k → k = .contains ∨ k = .defines := by
    rintro k rfl
    exact hx
  simp only [edgesOf, List.mem_append, List.mem_flatMap, List.mem_filterMap]
  constructor
  · rintro (((hstructure | ⟨e, -, c, -, hmem⟩) | ⟨e, -, raw, -, hmem⟩) | ⟨e, -, h, -, hmem⟩)
    · exact hstructure
    · obtain ⟨-, hkind, -⟩ := (callEdge_eq_some_iff policy results e.path c x).mp hmem
      simpa using hcontradiction _ hkind
    · simpa using hcontradiction _ (importEdge_kind hmem)
    · obtain ⟨-, hkind, -⟩ := (heritageEdge_eq_some_iff g policy results e.path h x).mp hmem
      rcases g.heritageEdgeKind_eq h x.target with ⟨-, hkind'⟩ | ⟨-, hkind'⟩
      · simpa using hcontradiction _ (hkind.trans hkind')
      · simpa using hcontradiction _ (hkind.trans hkind')
  · exact fun hstructure => Or.inl (Or.inl (Or.inl hstructure))

section Build

variable (o : BuildOptions) (results : List Extraction) (contents : Mapping Text)

theorem label?_build (id : Text) :
    (build o results contents).label? id = (nodesOnly o contents results).label? id := by
  unfold label?
  rw [build, node?_addRelationships]

theorem hasNode_build_file {e : Extraction} (he : e ∈ results) :
    (build o results contents).hasNode (Identity.ofFile e.path) = true := by
  rw [build, hasNode_addRelationships]
  refine hasNode_addNodes (Or.inr ⟨fileNode o e.path ((contents.get? e.path).getD []), ?_, rfl⟩)
  exact List.mem_flatMap.mpr ⟨e, he, List.mem_cons_self⟩

theorem hasNode_build_definition {e : Extraction} (he : e ∈ results) {d : Definition}
    (hd : d ∈ e.definitions) : (build o results contents).hasNode d.id = true := by
  rw [build, hasNode_addRelationships]
  have hlisted : (⟨e.path, d⟩ : Declared) ∈ listed results :=
    List.mem_flatMap.mpr ⟨e, he, List.mem_map.mpr ⟨d, hd, rfl⟩⟩
  exact hasNode_nodesOnly_of_mem hlisted

/-- **A file contains its definitions** and nothing else. -/
theorem mem_build_contains_iff (s t : Text) :
    ⟨s, t, .contains⟩ ∈ (build o results contents).relationships ↔
      ∃ e ∈ results, ∃ d ∈ e.definitions, s = Identity.ofFile e.path ∧ t = d.id := by
  rw [mem_build_iff, mem_edgesOf_structure_iff _ _ _ (Or.inl rfl)]
  constructor
  · rintro ⟨⟨e, he, hmem⟩, -⟩
    obtain ⟨d, hd, heq | howner⟩ := (mem_structureOf_iff _ _ _).mp hmem
    · rw [Relationship.mk.injEq] at heq
      exact ⟨e, he, d, hd, heq.1, heq.2.1⟩
    · obtain ⟨owner, -, -, -, heq⟩ := (ownership_eq_some_iff _ _ _).mp howner
      simp at heq
  · rintro ⟨e, he, d, hd, rfl, rfl⟩
    exact ⟨⟨e, he, (mem_structureOf_iff _ _ _).mpr ⟨d, hd, Or.inl rfl⟩⟩,
      hasNode_build_file o results contents he, hasNode_build_definition o results contents he hd⟩

/-- **A definition is defined by its owner**, if that is a node of a kind that can own, and by nothing
else. -/
theorem mem_build_defines_iff (s t : Text) :
    ⟨s, t, .defines⟩ ∈ (build o results contents).relationships ↔
      ∃ e ∈ results, ∃ d ∈ e.definitions, d.owner = some s ∧ s ≠ [] ∧
        ((build o results contents).label? s).any Label.isContainer = true ∧ t = d.id := by
  rw [mem_build_iff, mem_edgesOf_structure_iff _ _ _ (Or.inr rfl)]
  simp only [label?_build]
  constructor
  · rintro ⟨⟨e, he, hmem⟩, -⟩
    obtain ⟨d, hd, heq | howner⟩ := (mem_structureOf_iff _ _ _).mp hmem
    · simp at heq
    · obtain ⟨owner, hrecorded, hne, hlabel, heq⟩ := (ownership_eq_some_iff _ _ _).mp howner
      rw [Relationship.mk.injEq] at heq
      obtain ⟨rfl, rfl, -⟩ := heq
      exact ⟨e, he, d, hd, hrecorded, hne, hlabel, rfl⟩
  · rintro ⟨e, he, d, hd, howner, hne, hlabel, rfl⟩
    refine ⟨⟨e, he, (mem_structureOf_iff _ _ _).mpr ⟨d, hd, Or.inr ?_⟩⟩, ?_,
      hasNode_build_definition o results contents he hd⟩
    · exact (ownership_eq_some_iff _ _ _).mpr ⟨s, howner, hne, hlabel, rfl⟩
    · rw [hasNode_eq_isSome_label?, label?_build]
      exact Option.isSome_of_any hlabel

end Build

end CodeAtlas.Graph
