import CodeAtlas.Proofs.Extraction.Consistent
import CodeAtlas.Proofs.Graph.Distinct
import CodeAtlas.Proofs.Graph.Structure

set_option autoImplicit false

/-! # Files, containers and members

A scanner records the owner of a definition when it comes upon it, and the builder looks the owner up
among the nodes. Between the two an owner could get lost: it might be no node, or be one that cannot own,
or its identity might be that of another definition. None of this happens where identities are distinct
(`Graph.mem_build_defines_owner_iff`), since an owner is a container of the same file.

An owner starts before what it owns, so nothing owns itself, however many steps there are between. The
relationships of owners and members make a forest (`Graph.containment_forest`).
-/

namespace CodeAtlas

/-- Everything has at most one parent, and nothing is its own ancestor. -/
structure IsForest {α : Type} (R : α → α → Prop) : Prop where
  parent_unique : ∀ a b c, R a c → R b c → a = b
  acyclic : ∀ a, ¬ Relation.TransGen R a a

namespace Graph

/-- The relationships of a kind that lead to a node. -/
def incoming (g : Graph) (kind : RelationKind) (target : Text) : List Relationship :=
  g.relationships.filter fun r => r.kind == kind && r.target == target

/-- Relationships do not repeat, so those that lead to a node are told by their sources, if there is at
most one. -/
theorem incoming_eq {g : Graph} (hg : g.WellFormed) {kind : RelationKind} {target : Text}
    (source : Option Text) (h : ∀ s, ⟨s, target, kind⟩ ∈ g.relationships ↔ source = some s) :
    g.incoming kind target = source.toList.map fun s => ⟨s, target, kind⟩ := by
  have hnodup : (g.incoming kind target).Nodup := (List.Nodup.of_map _ hg.relationships_nodup).filter _
  have hmem : ∀ r, r ∈ g.incoming kind target ↔
      r ∈ source.toList.map fun s => (⟨s, target, kind⟩ : Relationship) := by
    rintro ⟨s, t, k⟩
    simp only [incoming, List.mem_filter, Bool.and_eq_true, beq_iff_eq, List.mem_map, Option.mem_toList,
      Relationship.mk.injEq]
    constructor
    · rintro ⟨hr, rfl, rfl⟩
      exact ⟨s, (h s).mp hr, rfl, rfl, rfl⟩
    · rintro ⟨s', hs, rfl, rfl, rfl⟩
      exact ⟨(h s').mpr hs, rfl, rfl⟩
  cases source with
  | none => exact List.eq_nil_iff_forall_not_mem.mpr fun r hr => by simpa using (hmem r).mp hr
  | some s =>
      have hperm := (List.perm_ext_iff_of_nodup hnodup (List.nodup_singleton _)).mpr hmem
      exact List.perm_singleton.mp hperm

/-! ## Members and their owners -/

/-- An owner is a definition of the same file of a kind that can own, and starts before what it owns. -/
def Owned (results : List Extraction) : Prop :=
  ∀ e ∈ results, ∀ d ∈ e.definitions, ∀ s, d.owner = some s → s ≠ [] ∧
    ∃ c ∈ e.definitions, c.id = s ∧ c.label.isContainer = true ∧ c.start < d.start

section Build

variable (o : BuildOptions) (contents : Mapping Text) {results : List Extraction} {e : Extraction}
  {d : Definition}

/-- The node with the identity of a definition is of its kind. -/
theorem label?_build_definition (h : DistinctIds results) (he : e ∈ results) (hd : d ∈ e.definitions) :
    (build o results contents).label? d.id = some d.label := by
  have hmem : definitionNode o e.path ((contents.get? e.path).getD []) d ∈
      results.flatMap (nodesOf o contents) :=
    List.mem_flatMap.mpr ⟨e, he, List.mem_cons_of_mem _ (List.mem_map.mpr ⟨d, hd, rfl⟩)⟩
  obtain ⟨n, hn⟩ := Option.isSome_iff_exists.mp (hasNode_build_definition o results contents he hd)
  have hfound := hn
  rw [node?_build] at hfound
  have hid : n.id = d.id := by simpa using List.find?_some hfound
  rw [label?, hn]
  obtain rfl | ⟨e', he', -, -, rfl, -⟩ :=
    h.eq_or_file o contents (List.mem_of_find?_eq_some hfound) hmem hid
  · rfl
  · exact absurd hid.symm (h.ne_file e he d hd e' he')

/-- **A definition is contained in its file** and in nothing else. -/
theorem mem_build_contains_file_iff (h : DistinctIds results) (he : e ∈ results)
    (hd : d ∈ e.definitions) (s : Text) :
    ⟨s, d.id, .contains⟩ ∈ (build o results contents).relationships ↔
      some (Identity.ofFile e.path) = some s := by
  rw [mem_build_contains_iff, Option.some_inj]
  constructor
  · rintro ⟨e', he', d', hd', rfl, hid⟩
    rw [(h.eq_of_id_eq he he' hd hd' hid).1]
  · rintro rfl
    exact ⟨e, he, d, hd, rfl, rfl⟩

/-- **A definition is defined by its owner** and by nothing else: no owner gets lost. -/
theorem mem_build_defines_owner_iff (h : DistinctIds results) (howned : Owned results)
    (he : e ∈ results) (hd : d ∈ e.definitions) (s : Text) :
    ⟨s, d.id, .defines⟩ ∈ (build o results contents).relationships ↔ d.owner = some s := by
  rw [mem_build_defines_iff]
  constructor
  · rintro ⟨e', he', d', hd', howner, -, -, hid⟩
    rwa [(h.eq_of_id_eq he he' hd hd' hid).2]
  · intro howner
    obtain ⟨hne, c, hc, rfl, hlabel, -⟩ := howned e he d hd s howner
    refine ⟨e, he, d, hd, howner, hne, ?_, rfl⟩
    rwa [label?_build_definition o contents h he hc]

/-! ## The forest -/

/-- An ancestor starts before its descendants. -/
theorem start_lt_of_transGen (h : DistinctIds results) (howned : Owned results) {a b : Text}
    (hab : Relation.TransGen (fun a b => ⟨a, b, .defines⟩ ∈ (build o results contents).relationships)
      a b) :
    ∃ e ∈ results, ∃ c ∈ e.definitions, ∃ e' ∈ results, ∃ d ∈ e'.definitions,
      c.id = a ∧ d.id = b ∧ c.start < d.start := by
  have hstep : ∀ {a b : Text}, ⟨a, b, .defines⟩ ∈ (build o results contents).relationships →
      ∃ e ∈ results, ∃ c ∈ e.definitions, ∃ d ∈ e.definitions,
        c.id = a ∧ d.id = b ∧ c.start < d.start := by
    intro a b hmem
    obtain ⟨e, he, d, hd, howner, -, -, rfl⟩ := (mem_build_defines_iff o results contents a b).mp hmem
    obtain ⟨-, c, hc, hid, -, hlt⟩ := howned e he d hd a howner
    exact ⟨e, he, c, hc, d, hd, hid, rfl, hlt⟩
  induction hab with
  | single hmem =>
      obtain ⟨e, he, c, hc, d, hd, hrest⟩ := hstep hmem
      exact ⟨e, he, c, hc, e, he, d, hd, hrest⟩
  | tail _ hmem ih =>
      obtain ⟨e, he, c, hc, e', he', d, hd, hca, hdb, hlt⟩ := ih
      obtain ⟨e'', he'', d', hd', x, hx, hdb', hxc, hlt'⟩ := hstep hmem
      obtain ⟨-, rfl⟩ := h.eq_of_id_eq he' he'' hd hd' (hdb.trans hdb'.symm)
      exact ⟨e, he, c, hc, e'', he'', x, hx, hca, hxc, hlt.trans hlt'⟩

/-- **Owners and members make a forest.** -/
theorem isForest_defines (h : DistinctIds results) (howned : Owned results) :
    IsForest fun a b => ⟨a, b, .defines⟩ ∈ (build o results contents).relationships where
  parent_unique a b c hac hbc := by
    obtain ⟨e, he, d, hd, -, -, -, rfl⟩ := (mem_build_defines_iff o results contents a c).mp hac
    rw [mem_build_defines_owner_iff o contents h howned he hd] at hac hbc
    exact Option.some_inj.mp (hac.symm.trans hbc)
  acyclic a haa := by
    obtain ⟨e, he, c, hc, e', he', d, hd, hca, hda, hlt⟩ := start_lt_of_transGen o contents h howned haa
    obtain ⟨-, rfl⟩ := h.eq_of_id_eq he he' hc hd (hca.trans hda.symm)
    exact lt_irrefl _ hlt

end Build

/-! ## Files -/

section Files

variable (fails : Language → Bool) {files : List SourceFile}

theorem owned_ofFile (files : List SourceFile) :
    Owned (files.map fun f => Extraction.ofFile fails f.path f.content) := by
  intro e he d hd s howner
  obtain ⟨f, -, rfl⟩ := List.mem_map.mp he
  obtain ⟨l, hextract, -⟩ := Extraction.exists_language_of_mem hd
  rw [hextract] at hd ⊢
  obtain ⟨c, hc, rfl, hrest⟩ := (l.consistent_extract f.path f.content).owner d hd s howner
  obtain ⟨-, q, hid, -⟩ := Language.exists_key_of_mem hc
  refine ⟨?_, c, hc, rfl, hrest⟩
  rw [hid]
  exact List.append_ne_nil_of_right_ne_nil _ (List.cons_ne_nil _ _)

/-- Every definition of a file has an identity of its own. -/
theorem distinctIds_ofFile (hpaths : (files.map (·.path)).Nodup)
    (hfree : ∀ f ∈ files, Identity.separator ∉ f.path)
    (hkeys : Digest.NoCollision (files.flatMap (Extraction.keysOf fails))) :
    DistinctIds (files.map fun f => Extraction.ofFile fails f.path f.content) where
  nodup := by
    have hnodup := nodup_map_id_nodesOf {} fails [] hpaths hfree hkeys
    rw [List.map_flatMap] at hnodup
    refine hnodup.sublist (List.Sublist.flatMap_right _ fun e _ => ?_)
    have hids : (nodesOf {} [] e).map (·.id) =
        Identity.ofFile e.path :: e.definitions.map (·.id) := by
      simp [nodesOf, fileNode, definitionNode]
    rw [hids]
    exact List.sublist_cons_self _ _
  ne_file e he d hd e' he' := by
    obtain ⟨f, -, rfl⟩ := List.mem_map.mp he
    obtain ⟨l, hextract, -⟩ := Extraction.exists_language_of_mem hd
    rw [hextract] at hd
    obtain ⟨hlabel, q, hid, -⟩ := Language.exists_key_of_mem hd
    rw [hid]
    exact Identity.ofDefinition_ne_ofFile hlabel _ _ _ _

end Files

/-- **Files contain their definitions, and owners define their members.** Take files with different
paths, none with a separator, that the digest takes no two of whose keys to one value. Every node but
those of files has exactly one relationship from a file, which is that of its path. Every definition that
has an owner has exactly one relationship from an owner, which is the one on record; it is a definition
of the same file of a kind that can own, and starts before it. A definition without an owner has none.
So owners and members make a forest. -/
theorem containment_forest (o : BuildOptions) (fails : Language → Bool) (files : List SourceFile)
    (contents : Mapping Text) (hpaths : (files.map (·.path)).Nodup)
    (hfree : ∀ f ∈ files, Identity.separator ∉ f.path)
    (hkeys : Digest.NoCollision (files.flatMap (Extraction.keysOf fails))) :
    let results := files.map fun f => Extraction.ofFile fails f.path f.content
    let g := build o results contents
    (∀ n ∈ g.nodes, n.label ≠ .file →
      fileNode o n.path ((contents.get? n.path).getD []) ∈ g.nodes ∧
        g.incoming .contains n.id = [⟨Identity.ofFile n.path, n.id, .contains⟩]) ∧
    (∀ e ∈ results, ∀ d ∈ e.definitions,
      g.incoming .defines d.id = d.owner.toList.map (fun owner => ⟨owner, d.id, .defines⟩) ∧
      ∀ owner, d.owner = some owner →
        ∃ c ∈ e.definitions, c.id = owner ∧ c.label.isContainer = true ∧ c.start < d.start) ∧
    IsForest fun a b => ⟨a, b, .defines⟩ ∈ g.relationships := by
  intro results g
  have hdistinct : DistinctIds results := distinctIds_ofFile fails hpaths hfree hkeys
  have howned : Owned results := owned_ofFile fails files
  have hwellFormed : g.WellFormed := wellFormed_build o results contents
  have hnodes : g.nodes = results.flatMap (nodesOf o contents) :=
    nodes_build (nodup_map_id_nodesOf o fails contents hpaths hfree hkeys)
  refine ⟨fun n hn hlabel => ?_, fun e he d hd => ⟨?_, fun s howner => ?_⟩,
    isForest_defines o contents hdistinct howned⟩
  · rw [hnodes] at hn ⊢
    obtain ⟨e, he, hn⟩ := List.mem_flatMap.mp hn
    rcases List.mem_cons.mp hn with rfl | hn
    · exact absurd rfl hlabel
    · obtain ⟨d, hd, rfl⟩ := List.mem_map.mp hn
      refine ⟨List.mem_flatMap.mpr ⟨e, he, List.mem_cons_self⟩, ?_⟩
      exact incoming_eq hwellFormed _ (mem_build_contains_file_iff o contents hdistinct he hd)
  · exact incoming_eq hwellFormed _ (mem_build_defines_owner_iff o contents hdistinct howned he hd)
  · exact (howned e he d hd s howner).2

/-- A function in a method in a class in a namespace, and a file with a class of the same name. -/
theorem containment_forest_nested :
    let files : List SourceFile :=
      [⟨"a.ts".toList, "namespace N\x7bclass A\x7bf()\x7bfunction g()\x7b\x7d\x7d\x7d\x7d".toList⟩,
        ⟨"b.sol".toList, "contract A\x7bstruct S\x7b\x7d\x7d".toList⟩]
    let results := files.map fun f => Extraction.ofFile (fun _ => false) f.path f.content
    let g := build {} results []
    (∀ n ∈ g.nodes, n.label ≠ .file →
      fileNode {} n.path ((Mapping.get? [] n.path).getD []) ∈ g.nodes ∧
        g.incoming .contains n.id = [⟨Identity.ofFile n.path, n.id, .contains⟩]) ∧
    (∀ e ∈ results, ∀ d ∈ e.definitions,
      g.incoming .defines d.id = d.owner.toList.map (fun owner => ⟨owner, d.id, .defines⟩) ∧
      ∀ owner, d.owner = some owner →
        ∃ c ∈ e.definitions, c.id = owner ∧ c.label.isContainer = true ∧ c.start < d.start) ∧
    IsForest (fun a b => ⟨a, b, .defines⟩ ∈ g.relationships) ∧
    (results.map fun e => e.definitions.map fun d => (d.name, (d.owner.map fun owner =>
      (e.definitions.filter (·.id == owner)).map (·.name)).getD [])) =
      [[("N".toList, []), ("A".toList, ["N".toList]), ("f".toList, ["A".toList]), ("g".toList, [])],
        [("A".toList, []), ("S".toList, ["A".toList])]] := by
  intro files results g
  obtain ⟨hcontains, hdefines, hforest⟩ := containment_forest {} (fun _ => false) files []
    (by decide) (by decide) (by decide +kernel)
  exact ⟨hcontains, hdefines, hforest, by decide +kernel⟩

end Graph

end CodeAtlas
