import CodeAtlas.Archive.Read
import CodeAtlas.Proofs.Extraction.Distinct
import CodeAtlas.Proofs.Graph.WellFormed

set_option autoImplicit false

/-! # Identities across files are distinct

Within a file the scanner sees to it that identities are distinct. Across files nobody looks. What keeps
their identities apart is that a key holds the path, after the label and before the name. A separator
follows it, so it can be read back from the key unless it has a separator itself
(`Identity.path_eq_of_key_eq`), and files with different paths generate different keys.

The builder leaves out a node whose identity is taken. If no two files share a path, and the digest takes
no two of their keys to one value, none is left out, and the graph has the nodes of all files, one file
after another (`Graph.nodes_of_files`).
-/

namespace CodeAtlas

/-! ## Reading the path back -/

namespace Identity

theorem separator_notMem_labelName (l : Label) : separator ∉ l.name := by
  cases l <;> decide

theorem key_file (path name : Text) (qualifier : Option Text) :
    key Label.file.name path name qualifier = Label.file.name ++ separator :: path := by
  unfold key
  rw [if_pos rfl]
  simp

/-- **A key tells the path**, if the path has no separator. -/
theorem path_eq_of_key_eq {l : Label} {p p' n n' : Text} {q q' : Option Text} (hp : separator ∉ p)
    (hp' : separator ∉ p') (h : key l.name p n q = key l.name p' n' q') : p = p' := by
  by_cases hl : l = .file
  · -- The path is the last part of the key.
    rw [hl, key_file, key_file] at h
    exact List.cons_injective (List.append_cancel_left h)
  · rw [key_eq hl, key_eq hl] at h
    obtain ⟨-, hrest⟩ :=
      append_mark_inj (separator_notMem_labelName l) (separator_notMem_labelName l) h
    exact (append_mark_inj hp hp' hrest).1

/-- Identities from different paths are the same only if a path has a separator. -/
theorem separator_mem_of_eq {keys : List Text} (hkeys : Digest.NoCollision keys) {l l' : Label}
    {p p' n n' : Text} {q q' : Option Text} (hkey : key l.name p n q ∈ keys)
    (hkey' : key l'.name p' n' q' ∈ keys) (hne : p ≠ p')
    (h : ofDefinition l p n q = ofDefinition l' p' n' q') : separator ∈ p ∨ separator ∈ p' := by
  -- Equal identities have one label and equal digests, and so come from one key.
  obtain ⟨rfl, hdigest⟩ := ofDefinition_inj h
  by_contra hfree
  rw [not_or] at hfree
  exact hne (path_eq_of_key_eq hfree.1 hfree.2 (hkeys _ hkey _ hkey' hdigest))

end Identity

/-! ## One file -/

namespace Extraction

/-- The keys that are generated for a file: its own and those of its scanner. -/
def keysOf (fails : Language → Bool) (f : SourceFile) : List Text :=
  Identity.key Label.file.name f.path [] none ::
    match Language.ofPath? f.path with
    | none => []
    | some l => if fails l then [] else (l.scan f.path f.content).keys

/-- The identities that come from a file: its own and those of its definitions. -/
def idsOf (fails : Language → Bool) (f : SourceFile) : List Text :=
  Identity.ofFile f.path :: (ofFile fails f.path f.content).definitions.map (·.id)

variable {fails : Language → Bool} {f : SourceFile}

theorem path_ofFile (fails : Language → Bool) (path source : Text) :
    (ofFile fails path source).path = path := by
  unfold ofFile
  split
  · rfl
  · split
    · rfl
    · rw [Language.extract_eq]
      exact Language.path_scan _ _ _

/-- A file that has definitions was extracted by the scanner that fits. -/
theorem exists_language_of_mem {d : Definition}
    (h : d ∈ (ofFile fails f.path f.content).definitions) :
    ∃ l : Language, ofFile fails f.path f.content = l.extract f.path f.content ∧
      keysOf fails f =
        Identity.key Label.file.name f.path [] none :: (l.scan f.path f.content).keys := by
  unfold ofFile keysOf at *
  cases hfits : Language.ofPath? f.path with
  | none => simp [hfits] at h
  | some l =>
      cases hfails : fails l with
      | true => simp [hfits, hfails] at h
      | false => exact ⟨l, by simp [hfails], by simp [hfails]⟩

theorem label_ne_file_of_mem {d : Definition} (h : d ∈ (ofFile fails f.path f.content).definitions) :
    d.label ≠ .file := by
  obtain ⟨l, hextract, -⟩ := exists_language_of_mem h
  rw [hextract] at h
  exact (Language.exists_key_of_mem h).1

theorem exists_key_of_mem_idsOf {x : Text} (h : x ∈ idsOf fails f) :
    ∃ l n q, x = Identity.ofDefinition l f.path n q ∧
      Identity.key l.name f.path n q ∈ keysOf fails f := by
  rcases List.mem_cons.mp h with rfl | h
  · exact ⟨.file, [], none, rfl, List.mem_cons_self⟩
  · obtain ⟨d, hd, rfl⟩ := List.mem_map.mp h
    obtain ⟨l, hextract, hkeys⟩ := exists_language_of_mem hd
    rw [hextract] at hd
    obtain ⟨-, q, hid, hkey⟩ := Language.exists_key_of_mem hd
    rw [hkeys]
    exact ⟨d.label, d.name, q, hid, List.mem_cons_of_mem _ hkey⟩

/-- The nodes of a file have distinct identities. -/
theorem nodup_idsOf (hkeys : Digest.NoCollision (keysOf fails f)) : (idsOf fails f).Nodup := by
  unfold idsOf
  by_cases hempty : (ofFile fails f.path f.content).definitions = []
  · rw [hempty]
    exact List.nodup_singleton _
  · obtain ⟨d, hd⟩ := List.exists_mem_of_ne_nil _ hempty
    obtain ⟨l, hextract, heq⟩ := exists_language_of_mem hd
    rw [hextract]
    have hkeyed := l.keyed_scan f.path f.content
    have hperm := l.definitions_extract_perm f.path f.content
    refine List.nodup_cons.mpr ⟨fun hmem => ?_, ?_⟩
    · -- A definition is no file.
      obtain ⟨d', hd', hid⟩ := List.mem_map.mp hmem
      obtain ⟨hlabel, q, hid', -⟩ := Language.exists_key_of_mem hd'
      exact Identity.ofDefinition_ne_ofFile hlabel _ _ _ _ (hid'.symm.trans hid)
    · refine (hperm.map _).nodup_iff.mpr (hkeyed.distinct (hkeys.mono ?_))
      rw [heq]
      exact List.subset_cons_self _ _

/-- Files with different paths, none with a separator, have no identity in common. -/
theorem disjoint_idsOf {g : SourceFile} (hne : f.path ≠ g.path) (hf : Identity.separator ∉ f.path)
    (hg : Identity.separator ∉ g.path)
    (hkeys : Digest.NoCollision (keysOf fails f ++ keysOf fails g)) :
    (idsOf fails f).Disjoint (idsOf fails g) := by
  intro x hx hx'
  obtain ⟨l, n, q, rfl, hkey⟩ := exists_key_of_mem_idsOf hx
  obtain ⟨l', n', q', hid, hkey'⟩ := exists_key_of_mem_idsOf hx'
  have hclash := Identity.separator_mem_of_eq hkeys (List.mem_append_left _ hkey)
    (List.mem_append_right _ hkey') hne hid
  exact hclash.elim hf hg

end Extraction

/-! ## All files -/

namespace Graph

theorem nodes_addNodes {g : Graph} {ns : List Node} (h : ((g.nodes ++ ns).map (·.id)).Nodup) :
    (g.addNodes ns).nodes = g.nodes ++ ns := by
  induction ns generalizing g with
  | nil => exact (List.append_nil _).symm
  | cons n ns ih =>
      -- The identity of the next node is free, so that it is put at the end.
      have hallowed : g.Allows (.node n) := by
        intro m hm hid
        rw [List.map_append, List.nodup_append] at h
        exact h.2.2 m.id (List.mem_map_of_mem hm) n.id (by simp) hid
      have hadd : (g.addNode n).1 = { g with nodes := g.nodes ++ [n] } :=
        congrArg Prod.fst (add_of_allows hallowed)
      show ((g.addNode n).1.addNodes ns).nodes = _
      rw [hadd, ih]
      · simp
      · simpa using h

/-- If no two of its nodes share an identity, the graph has them all. -/
theorem nodes_build {o : BuildOptions} {results : List Extraction} {contents : Mapping Text}
    (h : ((results.flatMap (nodesOf o contents)).map (·.id)).Nodup) :
    (build o results contents).nodes = results.flatMap (nodesOf o contents) := by
  unfold build
  rw [nodes_addRelationships, nodesOnly, nodes_addNodes (by simpa [empty] using h)]
  rfl

section Files

variable (o : BuildOptions) (fails : Language → Bool) (contents : Mapping Text)

theorem map_id_nodesOf (f : SourceFile) :
    (nodesOf o contents (Extraction.ofFile fails f.path f.content)).map (·.id) =
      Extraction.idsOf fails f := by
  simp [nodesOf, Extraction.idsOf, Extraction.path_ofFile, fileNode, definitionNode]

/-- Of the nodes of a file one is a file node, -/
theorem filter_file_nodesOf (f : SourceFile) :
    (nodesOf o contents (Extraction.ofFile fails f.path f.content)).filter (·.label == .file) =
      [fileNode o f.path ((contents.get? f.path).getD [])] := by
  simp only [nodesOf, Extraction.path_ofFile]
  rw [List.filter_cons_of_pos (by rfl), List.filter_eq_nil_iff.mpr]
  intro n hn
  obtain ⟨d, hd, rfl⟩ := List.mem_map.mp hn
  simpa [definitionNode] using Extraction.label_ne_file_of_mem hd

/-- and the others are those of its definitions. -/
theorem filter_definition_nodesOf (f : SourceFile) :
    let e := Extraction.ofFile fails f.path f.content
    (nodesOf o contents e).filter (·.label != .file) =
      e.definitions.map (definitionNode o e.path ((contents.get? e.path).getD [])) := by
  intro e
  simp only [nodesOf]
  rw [List.filter_cons_of_neg (by simp [fileNode]), List.filter_eq_self]
  intro n hn
  obtain ⟨d, hd, rfl⟩ := List.mem_map.mp hn
  simpa [definitionNode] using Extraction.label_ne_file_of_mem hd

/-- The nodes of files with different paths, none with a separator, have distinct identities. -/
theorem nodup_map_id_nodesOf {files : List SourceFile} (hpaths : (files.map (·.path)).Nodup)
    (hfree : ∀ f ∈ files, Identity.separator ∉ f.path)
    (hkeys : Digest.NoCollision (files.flatMap (Extraction.keysOf fails))) :
    (((files.map fun f => Extraction.ofFile fails f.path f.content).flatMap
      (nodesOf o contents)).map (·.id)).Nodup := by
  have hids : ((files.map fun f => Extraction.ofFile fails f.path f.content).flatMap
      (nodesOf o contents)).map (·.id) = files.flatMap (Extraction.idsOf fails) := by
    rw [List.flatMap_map, List.map_flatMap]
    exact List.flatMap_congr fun f _ => map_id_nodesOf o fails contents f
  have hmono : ∀ f ∈ files, Extraction.keysOf fails f ⊆ files.flatMap (Extraction.keysOf fails) :=
    fun f hf key hkey => List.mem_flatMap.mpr ⟨f, hf, hkey⟩
  rw [hids, List.nodup_flatMap]
  -- No file repeats an identity, and no two files share one.
  refine ⟨fun f hf => Extraction.nodup_idsOf (hkeys.mono (hmono f hf)), ?_⟩
  have hdistinct : files.Pairwise fun f g => f.path ≠ g.path := List.pairwise_map.mp hpaths
  refine hdistinct.imp_of_mem fun {f g} hf hg hne => ?_
  exact Extraction.disjoint_idsOf hne (hfree f hf) (hfree g hg)
    (hkeys.mono (List.append_subset.mpr ⟨hmono f hf, hmono g hg⟩))

end Files

/-- **Identities do not clash across files.** Take files that the digest takes no two of whose keys to
one value. A definition of one file and a definition of another, with a different path, have the same
identity only if one of the two paths has a separator, whichever scanners extract them. So if the paths
of any number of files are different and have no separator, the graph has the nodes of all files and
their identities are distinct: one file node for each file and one node for each definition, in the
order in which they were extracted. -/
theorem nodes_of_files :
    (∀ (l₁ l₂ : Language) (p₁ p₂ s₁ s₂ : Text), p₁ ≠ p₂ →
      Digest.NoCollision ((l₁.scan p₁ s₁).keys ++ (l₂.scan p₂ s₂).keys) →
        ∀ d₁ ∈ (l₁.extract p₁ s₁).definitions, ∀ d₂ ∈ (l₂.extract p₂ s₂).definitions,
          d₁.id = d₂.id → Identity.separator ∈ p₁ ∨ Identity.separator ∈ p₂) ∧
    ∀ (o : BuildOptions) (fails : Language → Bool) (files : List SourceFile) (contents : Mapping Text),
      (files.map (·.path)).Nodup → (∀ f ∈ files, Identity.separator ∉ f.path) →
      Digest.NoCollision (files.flatMap (Extraction.keysOf fails)) →
        let results := files.map fun f => Extraction.ofFile fails f.path f.content
        let g := build o results contents
        let content := fun path => (contents.get? path).getD []
        (g.nodes.map (·.id)).Nodup ∧
        g.nodes = results.flatMap (nodesOf o contents) ∧
        g.nodes.filter (·.label == .file) = files.map (fun f => fileNode o f.path (content f.path)) ∧
        g.nodes.filter (·.label != .file) = results.flatMap fun e =>
          e.definitions.map (definitionNode o e.path (content e.path)) := by
  refine ⟨fun l₁ l₂ p₁ p₂ s₁ s₂ hne hkeys d₁ h₁ d₂ h₂ hid => ?_, ?_⟩
  · obtain ⟨-, q₁, hid₁, hkey₁⟩ := Language.exists_key_of_mem h₁
    obtain ⟨-, q₂, hid₂, hkey₂⟩ := Language.exists_key_of_mem h₂
    exact Identity.separator_mem_of_eq hkeys (List.mem_append_left _ hkey₁)
      (List.mem_append_right _ hkey₂) hne (hid₁.symm.trans (hid.trans hid₂))
  · intro o fails files contents hpaths hfree hkeys results g content
    have hnodup := nodup_map_id_nodesOf o fails contents hpaths hfree hkeys
    have hnodes : g.nodes = results.flatMap (nodesOf o contents) := nodes_build hnodup
    refine ⟨by rwa [hnodes], hnodes, ?_, ?_⟩
    · rw [hnodes, List.filter_flatMap, List.flatMap_map, List.map_eq_flatMap]
      exact List.flatMap_congr fun f _ => filter_file_nodesOf o fails contents f
    · rw [hnodes, List.filter_flatMap, List.flatMap_map, List.flatMap_map]
      exact List.flatMap_congr fun f _ => filter_definition_nodesOf o fails contents f

/-- The path of the second file reads like that of the first with a name after it, and the module of the
second has the identity of the one that the first has in its module. Two other files declare functions
of one name, which are kept apart. -/
theorem nodes_of_files_namesakes :
    let path₁ : Text := "a.ts".toList
    let path₂ : Text := "a.ts\x1fb.ts".toList
    let nested := Language.extract .typescript path₁ "namespace X\x7bnamespace b.ts\x7b\x7d\x7d".toList
    let outer := Language.extract .typescript path₂ "namespace X\x7b\x7d".toList
    let fails : Language → Bool := fun _ => false
    let files : List SourceFile :=
      [⟨"a.js".toList, "function f()\x7b\x7d".toList⟩, ⟨"b.js".toList, "function f()\x7b\x7d".toList⟩]
    let results := files.map fun f => Extraction.ofFile fails f.path f.content
    let g := build {} results []
    (∃ d₁ ∈ nested.definitions, ∃ d₂ ∈ outer.definitions, d₁.id = d₂.id) ∧
    (Identity.separator ∈ path₁ ∨ Identity.separator ∈ path₂) ∧
    (results.map fun e => e.definitions.map (·.name)) = [["f".toList], ["f".toList]] ∧
    (g.nodes.map (·.id)).Nodup ∧ g.nodes = results.flatMap (nodesOf {} []) := by
  intro path₁ path₂ nested outer fails files results g
  obtain ⟨hpair, hfiles⟩ := nodes_of_files
  have hsame : ∃ d₁ ∈ nested.definitions, ∃ d₂ ∈ outer.definitions, d₁.id = d₂.id := by
    decide +kernel
  have hseparator : Identity.separator ∈ path₁ ∨ Identity.separator ∈ path₂ := by
    obtain ⟨d₁, h₁, d₂, h₂, hid⟩ := hsame
    exact hpair .typescript .typescript path₁ path₂ _ _ (by decide) (by decide +kernel) d₁ h₁ d₂ h₂ hid
  have hkeys : Digest.NoCollision (files.flatMap (Extraction.keysOf fails)) := by
    decide +kernel
  obtain ⟨hnodup, hnodes, -⟩ := hfiles {} fails files [] (by decide) (by decide) hkeys
  exact ⟨hsame, hseparator, by decide +kernel, hnodup, hnodes⟩

end Graph

end CodeAtlas
