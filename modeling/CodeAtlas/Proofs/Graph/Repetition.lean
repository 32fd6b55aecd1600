import CodeAtlas.Proofs.Graph.Structure

set_option autoImplicit false

/-! # Files that come again

A result that was merged into a graph can be merged again and changes nothing: neither a node nor a
relationship, and no order (`Graph.build_append_of_subset`). Two kinds of facts carry this.

* What is added a second time is left out, since its identity is taken, or it is there already, or its
  ends are still missing (`Graph.addNodes_again`, `Graph.addRelationships_again`). All nodes come before
  all relationships, so an end that was missing the first time is missing the second time.
* Nothing else that the builder collects counts a file twice. Each identity is declared once
  (`Graph.declarations_append`), so that a name that was unique stays so; and of the known paths only the
  first of each is looked at (`Import.resolve?_append`).
-/

namespace CodeAtlas

/-- What is found in a list is found before elements of the list come again. -/
theorem find?_append_of_subset {α : Type} {p : α → Bool} {l l' : List α} (h : l' ⊆ l) :
    (l ++ l').find? p = l.find? p := by
  rw [List.find?_append]
  cases hfound : l.find? p with
  | some a => rfl
  | none =>
      have hnone : l'.find? p = none :=
        List.find?_eq_none.mpr fun a ha => List.find?_eq_none.mp hfound a (h ha)
      rw [hnone]
      rfl

/-! ## Known paths -/

namespace Import

variable {known again : List Text}

theorem bySuffix_append (h : again ⊆ known) (attempts : List Text) :
    bySuffix (known ++ again) attempts = bySuffix known attempts := by
  unfold bySuffix
  simp only [find?_append_of_subset h]

/-- **An import does not depend on how often a path is known.** -/
theorem resolve?_append (h : again ⊆ known) (importer raw : Text) (language : Option Language) :
    resolve? importer raw (known ++ again) language = resolve? importer raw known language := by
  have hcontains : (known ++ again).contains = known.contains := by
    funext path
    rw [Bool.eq_iff_iff, List.contains_iff_mem, List.contains_iff_mem, List.mem_append]
    exact or_iff_left_of_imp fun hpath => h hpath
  unfold resolve?
  simp only [hcontains, bySuffix_append h]

end Import

namespace Graph

/-! ## Additions that were made before -/

theorem addNodes_append (g : Graph) (ns ms : List Node) :
    g.addNodes (ns ++ ms) = (g.addNodes ns).addNodes ms :=
  List.foldl_append

theorem addRelationships_append (g : Graph) (rs qs : List Relationship) :
    g.addRelationships (rs ++ qs) = (g.addRelationships rs).addRelationships qs :=
  List.foldl_append

/-- Nodes whose identities are taken are left out. -/
theorem addNodes_eq_self {g : Graph} {ns : List Node} (h : ∀ n ∈ ns, g.hasNode n.id = true) :
    g.addNodes ns = g := by
  induction ns with
  | nil => rfl
  | cons n ns ih =>
      have hfirst : (g.addNode n).1 = g := by
        unfold addNode
        rw [if_pos (h n List.mem_cons_self)]
      show (g.addNode n).1.addNodes ns = g
      rw [hfirst]
      exact ih fun m hm => h m (List.mem_cons_of_mem n hm)

/-- Relationships that are there already are left out, and so are those without ends. -/
theorem addRelationships_eq_self {g : Graph} {rs : List Relationship}
    (h : ∀ r ∈ rs, g.hasNode r.source = true → g.hasNode r.target = true → r ∈ g.relationships) :
    g.addRelationships rs = g := by
  induction rs with
  | nil => rfl
  | cons r rs ih =>
      have hfirst : (g.addRelationship r).1 = g := by
        have hrefused : ¬ g.Allows (.relationship r) := by
          rintro ⟨hsource, htarget, hnew⟩
          exact hnew (h r List.mem_cons_self (hasNode_iff.mpr hsource) (hasNode_iff.mpr htarget))
        exact congrArg Prod.fst (add_of_not_allows hrefused)
      show (g.addRelationship r).1.addRelationships rs = g
      rw [hfirst]
      exact ih fun q hq => h q (List.mem_cons_of_mem r hq)

theorem addNodes_again {ns ms : List Node} (h : ms ⊆ ns) (g : Graph) :
    (g.addNodes ns).addNodes ms = g.addNodes ns :=
  addNodes_eq_self fun n hn => hasNode_addNodes (Or.inr ⟨n, h hn, rfl⟩)

theorem addRelationships_again {rs qs : List Relationship} (h : qs ⊆ rs) (g : Graph) :
    (g.addRelationships rs).addRelationships qs = g.addRelationships rs := by
  refine addRelationships_eq_self fun q hq hsource htarget => ?_
  -- No node was added in the meantime, so the ends were there the first time.
  rw [hasNode_addRelationships] at hsource htarget
  exact (mem_addRelationships_iff g rs q).mpr (Or.inr ⟨h hq, hsource, htarget⟩)

/-! ## Declarations -/

/-- Definitions whose identities came before are not declared again. -/
theorem declarationsFrom_append {seen : List Text} {ds again : List Declared}
    (h : ∀ d ∈ again, d.definition.id ∈ seen ∨ ∃ x ∈ ds, x.definition.id = d.definition.id) :
    declarationsFrom seen (ds ++ again) = declarationsFrom seen ds := by
  induction ds generalizing seen with
  | nil =>
      -- All identities have been seen.
      show declarationsFrom seen again = []
      induction again with
      | nil => rfl
      | cons d again ih =>
          obtain ⟨hd, hrest⟩ := List.forall_mem_cons.mp h
          have hseen : d.definition.id ∈ seen := by simpa using hd
          rw [declarationsFrom, if_pos (List.contains_iff_mem.mpr hseen)]
          exact ih hrest
  | cons a ds ih =>
      rw [List.cons_append, declarationsFrom, declarationsFrom]
      by_cases ha : a.definition.id ∈ seen
      · rw [if_pos (List.contains_iff_mem.mpr ha), if_pos (List.contains_iff_mem.mpr ha)]
        refine ih fun d hd => ?_
        rcases h d hd with hseen | ⟨x, hx, hid⟩
        · exact Or.inl hseen
        · rcases List.mem_cons.mp hx with rfl | hx
          · exact Or.inl (hid ▸ ha)
          · exact Or.inr ⟨x, hx, hid⟩
      · have ha' : ¬ seen.contains a.definition.id = true := by simpa using ha
        rw [if_neg ha', if_neg ha']
        refine congrArg (a :: ·) (ih fun d hd => ?_)
        rcases h d hd with hseen | ⟨x, hx, hid⟩
        · exact Or.inl (List.mem_cons_of_mem _ hseen)
        · rcases List.mem_cons.mp hx with rfl | hx
          · exact Or.inl (hid ▸ List.mem_cons_self)
          · exact Or.inr ⟨x, hx, hid⟩

section Again

variable {results again : List Extraction}

/-- What comes of the files that come again came of the files. -/
theorem flatMap_subset {β : Type} (h : again ⊆ results) (f : Extraction → List β) :
    again.flatMap f ⊆ results.flatMap f := by
  intro b hb
  obtain ⟨e, he, hb⟩ := List.mem_flatMap.mp hb
  exact List.mem_flatMap.mpr ⟨e, h he, hb⟩

/-- **A definition is declared once**, however often its file comes. -/
theorem declarations_append (h : again ⊆ results) :
    declarations (results ++ again) = declarations results := by
  show declarationsFrom [] (listed (results ++ again)) = declarationsFrom [] (listed results)
  have hlisted : listed (results ++ again) = listed results ++ listed again := List.flatMap_append
  rw [hlisted]
  exact declarationsFrom_append fun d hd => Or.inr ⟨d, flatMap_subset h _ hd, rfl⟩

/-! ## The graph -/

theorem nodesOnly_append (o : BuildOptions) (contents : Mapping Text) (h : again ⊆ results) :
    nodesOnly o contents (results ++ again) = nodesOnly o contents results := by
  unfold nodesOnly
  rw [List.flatMap_append, addNodes_append, addNodes_again (flatMap_subset h _)]

theorem importEdge_append (h : again ⊆ results) (e : Extraction) (raw : Text) :
    importEdge ((results ++ again).map (·.path)) e raw =
      importEdge (results.map (·.path)) e raw := by
  unfold importEdge
  rw [List.map_append, Import.resolve?_append (List.map_subset _ h)]

/-- The relationships of the files that come again stand behind those of the same kind, where they
are left out. -/
theorem addRelationships_edgesOf_append (g : Graph) (policy : TieBreak) (h : again ⊆ results) :
    g.addRelationships (g.edgesOf policy (results ++ again)) =
      g.addRelationships (g.edgesOf policy results) := by
  simp only [edgesOf, declarations_append h, importEdge_append h, List.flatMap_append,
    addRelationships_append, addRelationships_again (flatMap_subset h _)]

/-- **Merging is idempotent.** Merge the results of any files, and then results that are among them, in
any order and any number of times. The graph is that of the files alone: the same nodes in the same
order and the same relationships in the same order, whatever the contents and the policy. -/
theorem build_append_of_subset (o : BuildOptions) (contents : Mapping Text)
    (h : ∀ e ∈ again, e ∈ results) :
    build o (results ++ again) contents = build o results contents := by
  unfold build
  rw [nodesOnly_append o contents h]
  exact addRelationships_edgesOf_append _ _ h

end Again

/-- A class in one file calls a function that only the other file declares, and extends a class there.
Both files come again, one of them twice. The function is still the only one of its name, so that the
call keeps its edge; a second function of that name would have taken it away. -/
theorem build_append_of_subset_unique :
    let definition := fun (id : Text) (label : Label) (name : Text) (owner : Option Text) =>
      ({ id, label, name, startLine := 0, endLine := 0, isExported := true, start := 0,
         owner } : Definition)
    let a : Extraction :=
      { path := "src/a.ts".toList
        language := some .typescript
        definitions := [definition "A".toList .classType "A".toList none,
          definition "m".toList .method "m".toList (some "A".toList)]
        imports := ["./b".toList]
        calls := [⟨"f".toList, "m".toList⟩]
        heritage := [⟨"A".toList, "A".toList, "B".toList, .extendsType⟩] }
    let b : Extraction :=
      { path := "src/b.ts".toList
        language := some .typescript
        definitions := [definition "B".toList .classType "B".toList none,
          definition "f".toList .function "f".toList none] }
    let c : Extraction :=
      { path := "src/c.ts".toList
        definitions := [definition "f'".toList .function "f".toList none] }
    let contents : Mapping Text := [("src/a.ts".toList, "class A extends B".toList)]
    let o : BuildOptions := { policy := .uniqueOnly }
    let g := build o [a, b] contents
    (∀ e ∈ [b, a, b], e ∈ [a, b]) ∧
    build o ([a, b] ++ [b, a, b]) contents = g ∧
    g.nodes.map (·.id) =
      [Identity.ofFile a.path, "A".toList, "m".toList, Identity.ofFile b.path, "B".toList,
        "f".toList] ∧
    g.relationships.filter (fun r => r.kind != .contains) =
      [⟨"A".toList, "m".toList, .defines⟩, ⟨"m".toList, "f".toList, .calls⟩,
        ⟨Identity.ofFile a.path, Identity.ofFile b.path, .imports⟩,
        ⟨"A".toList, "B".toList, .extendsType⟩] ∧
    ⟨"m".toList, "f".toList, .calls⟩ ∉ (build o ([a, b] ++ [c]) contents).relationships := by
  intro definition a b c contents o g
  have hagain : ∀ e ∈ [b, a, b], e ∈ [a, b] := by simp
  exact ⟨hagain, build_append_of_subset o contents hagain, by decide +kernel, by decide +kernel,
    by decide +kernel⟩

end Graph

end CodeAtlas
