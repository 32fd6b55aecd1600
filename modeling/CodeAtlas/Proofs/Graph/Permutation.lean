import CodeAtlas.Proofs.Graph.Distinct
import CodeAtlas.Proofs.Graph.Structure

set_option autoImplicit false

/-! # The order of the files

The builder works on lists: of two definitions with one identity the first counts, and of several
candidates of one name a policy takes one by its place. If no definition has the identity of another or
of a file, there is nothing to be first, and a policy that only takes what is unique does not look at
places. So the order of the files decides nothing but imports (`Graph.build_perm`).

Two files may still have one identity, if the digest takes their keys to one value. They are nodes of the
same kind, so that no relationship tells which of them is there.
-/

namespace CodeAtlas

/-! ## Lists in another order -/

/-- What is found first does not depend on the order, as far as all that may be found agrees. -/
theorem map_find?_perm {α β : Type} {l l' : List α} (hperm : l.Perm l') {p : α → Bool} {f : α → β}
    (hagree : ∀ a ∈ l, ∀ b ∈ l, p a = true → p b = true → f a = f b) :
    (l.find? p).map f = (l'.find? p).map f := by
  cases hfound : l.find? p with
  | none =>
      have hnone : l'.find? p = none :=
        List.find?_eq_none.mpr fun a ha => List.find?_eq_none.mp hfound a (hperm.mem_iff.mpr ha)
      rw [hnone]
  | some a =>
      have ha := List.mem_of_find?_eq_some hfound
      have hpa := List.find?_some hfound
      obtain ⟨b, hfound'⟩ := Option.isSome_iff_exists.mp
        (List.find?_isSome.mpr ⟨a, hperm.mem_iff.mp ha, hpa⟩)
      have hb := hperm.mem_iff.mpr (List.mem_of_find?_eq_some hfound')
      rw [hfound', Option.map_some, Option.map_some, hagree a ha b hb hpa (List.find?_some hfound')]

theorem theOnly_perm {α : Type} {l l' : List α} (hperm : l.Perm l') : theOnly l = theOnly l' := by
  have hlength := hperm.length_eq
  match l, l' with
  | [], [] => rfl
  | [a], [b] => rw [List.singleton_perm_singleton.mp hperm]
  | _ :: _ :: _, _ :: _ :: _ => rfl
  | [], _ :: _ => simp at hlength
  | _ :: _, [] => simp at hlength
  | [_], _ :: _ :: _ => simp at hlength
  | _ :: _ :: _, [_] => simp at hlength

/-- **What is unique does not depend on the order.** -/
theorem TieBreak.choose_uniqueOnly_perm (file : Text) {cs cs' : List Candidate}
    (hperm : cs.Perm cs') : uniqueOnly.choose file cs = uniqueOnly.choose file cs' := by
  have hhere := hperm.filter fun c => c.path == file
  unfold choose
  simp only [theOnly_perm hperm, theOnly_perm hhere, hhere.isEmpty_eq]

namespace Graph

section Order

variable {results results' : List Extraction}

theorem DistinctIds.perm (h : DistinctIds results) (hperm : results.Perm results') :
    DistinctIds results' where
  nodup := (hperm.flatMap_right _).nodup_iff.mp h.nodup
  ne_file e he d hd e' he' := h.ne_file e (hperm.mem_iff.mpr he) d hd e' (hperm.mem_iff.mpr he')

/-! ## References -/

theorem listed_perm (hperm : results.Perm results') : (listed results).Perm (listed results') :=
  hperm.flatMap_right _

theorem declarationsFrom_eq {seen : List Text} {ds : List Declared}
    (hnodup : (ds.map (·.definition.id)).Nodup) (hseen : ∀ d ∈ ds, d.definition.id ∉ seen) :
    declarationsFrom seen ds = ds := by
  induction ds generalizing seen with
  | nil => rfl
  | cons d ds ih =>
      obtain ⟨hd, hds⟩ := List.nodup_cons.mp hnodup
      have hnew : ¬ seen.contains d.definition.id = true := by
        simpa using hseen d List.mem_cons_self
      rw [declarationsFrom, if_neg hnew, ih hds]
      intro x hx
      rw [List.mem_cons, not_or]
      exact ⟨fun heq => hd (List.mem_map.mpr ⟨x, hx, heq⟩), hseen x (List.mem_cons_of_mem _ hx)⟩

/-- Every definition counts. -/
theorem DistinctIds.declarations_eq (h : DistinctIds results) :
    declarations results = listed results :=
  declarationsFrom_eq h.nodup_listed fun _ _ => List.not_mem_nil

theorem means_perm (h : DistinctIds results) (hperm : results.Perm results') (p : Label → Bool)
    (file name t : Text) :
    Means .uniqueOnly results p file name t ↔ Means .uniqueOnly results' p file name t := by
  have hcandidates :
      (candidates ((declarations results).filter fun d => p d.definition.label) name).Perm
        (candidates ((declarations results').filter fun d => p d.definition.label) name) := by
    rw [h.declarations_eq, (h.perm hperm).declarations_eq]
    exact (((listed_perm hperm).filter _).filter _).map _
  rw [← choose_candidates_iff, ← choose_candidates_iff,
    TieBreak.choose_uniqueOnly_perm file hcandidates]

/-! ## Nodes -/

section Nodes

variable (o : BuildOptions) (contents : Mapping Text)

/-- The kind of a node does not depend on the order, -/
theorem label?_build_perm (h : DistinctIds results) (hperm : results.Perm results') (id : Text) :
    (build o results contents).label? id = (build o results' contents).label? id := by
  unfold label?
  rw [node?_build, node?_build]
  refine map_find?_perm (hperm.flatMap_right _) fun m hm n hn hidm hidn => ?_
  have hid : m.id = n.id := (eq_of_beq hidm).trans (eq_of_beq hidn).symm
  obtain rfl | ⟨e, -, e', -, rfl, rfl⟩ := h.eq_or_file o contents hm hn hid
  · rfl
  · rfl

theorem hasNode_build_perm (h : DistinctIds results) (hperm : results.Perm results') (id : Text) :
    (build o results contents).hasNode id = (build o results' contents).hasNode id := by
  rw [hasNode_eq_isSome_label?, hasNode_eq_isSome_label?, label?_build_perm o contents h hperm]

/-- and neither does the node, unless two files have its identity. -/
theorem node?_build_perm (h : DistinctIds results) (hperm : results.Perm results') {id : Text}
    (hfiles : ∀ e ∈ results, ∀ e' ∈ results, Identity.ofFile e.path = id →
      Identity.ofFile e'.path = id → e.path = e'.path) :
    (build o results contents).node? id = (build o results' contents).node? id := by
  have hfind : ∀ m ∈ results.flatMap (nodesOf o contents), ∀ n ∈ results.flatMap (nodesOf o contents),
      (m.id == id) = true → (n.id == id) = true → m = n := by
    intro m hm n hn hidm hidn
    have hid : m.id = n.id := (eq_of_beq hidm).trans (eq_of_beq hidn).symm
    obtain rfl | ⟨e, he, e', he', rfl, rfl⟩ := h.eq_or_file o contents hm hn hid
    · rfl
    · rw [hfiles e he e' he' (eq_of_beq hidm) (eq_of_beq hidn)]
  rw [node?_build, node?_build]
  simpa only [Option.map_id'] using
    map_find?_perm (f := fun n : Node => n) (hperm.flatMap_right _) hfind

end Nodes

/-! ## Relationships -/

/-- The kind of an edge to a parent is told by the kinds of its two nodes. -/
theorem heritageEdgeKind_congr {g g' : Graph} (hlabel : ∀ id, g.label? id = g'.label? id)
    (entry : Heritage) (t : Text) : g.heritageEdgeKind entry t = g'.heritageEdgeKind entry t := by
  have himplements : g.Implements entry t ↔ g'.Implements entry t := by
    show _ ∨ g.label? entry.classId = _ ∧ g.label? t = _ ↔
      _ ∨ g'.label? entry.classId = _ ∧ g'.label? t = _
    rw [hlabel, hlabel]
  rcases g.heritageEdgeKind_eq entry t with ⟨himpl, hkind⟩ | ⟨hnot, hkind⟩
  · rw [hkind, (g'.heritageEdgeKind_eq_implementsType_iff entry t).mpr (himplements.mp himpl)]
  · rw [hkind, (g'.heritageEdgeKind_eq_extendsType_iff entry t).mpr (mt himplements.mpr hnot)]

section Edges

variable (o : BuildOptions) (contents : Mapping Text)

/-- What is read off the definitions does not depend on the order, whatever the policy, -/
theorem mem_build_structure_perm (h : DistinctIds results) (hperm : results.Perm results')
    {r : Relationship} (hkind : r.kind = .contains ∨ r.kind = .defines) :
    r ∈ (build o results contents).relationships ↔ r ∈ (build o results' contents).relationships := by
  obtain ⟨s, t, kind⟩ := r
  obtain rfl | rfl := hkind
  · simp only [mem_build_contains_iff, hperm.mem_iff]
  · simp only [mem_build_defines_iff, label?_build_perm o contents h hperm, hperm.mem_iff]

/-- and neither does what is resolved, as far as it is unique. -/
theorem mem_build_reference_perm (h : DistinctIds results) (hperm : results.Perm results')
    (hpolicy : o.policy = .uniqueOnly) {r : Relationship}
    (hkind : r.kind = .calls ∨ r.kind = .extendsType ∨ r.kind = .implementsType) :
    r ∈ (build o results contents).relationships ↔ r ∈ (build o results' contents).relationships := by
  obtain ⟨s, t, kind⟩ := r
  rcases hkind with rfl | hkind
  · simp only [mem_build_calls_iff, hpolicy, means_perm h hperm, hasNode_build_perm o contents h hperm,
      hperm.mem_iff]
  · simp only [mem_build_heritage_iff _ _ _ _ _ hkind, hpolicy, means_perm h hperm,
      hasNode_build_perm o contents h hperm, hperm.mem_iff,
      heritageEdgeKind_congr (label?_build_perm o contents h hperm)]

end Edges

end Order

/-- Two files with one identity have one digest, and so one key. -/
theorem path_eq_of_ofFile_eq {keys : List Text} (hkeys : Digest.NoCollision keys) {p p' : Text}
    (hp : Identity.key Label.file.name p [] none ∈ keys)
    (hp' : Identity.key Label.file.name p' [] none ∈ keys)
    (h : Identity.ofFile p = Identity.ofFile p') : p = p' := by
  have hid : Identity.ofDefinition .file p [] none = Identity.ofDefinition .file p' [] none := h
  have hkey := hkeys _ hp _ hp' (Identity.ofDefinition_inj hid).2
  rw [Identity.key_file, Identity.key_file] at hkey
  exact List.cons_injective (List.append_cancel_left hkey)

/-- **The order of the files decides nothing but imports**, if only what is unique is taken. Take the
same files in two orders, and let no definition have the identity of another or of a file. The two graphs
have the same relationships except for imports, and the same nodes except for those of files; if the
digest takes no two of the files' keys to one value, they have the same nodes altogether. -/
theorem build_perm (limit : Int) (contents : Mapping Text) {results results' : List Extraction}
    (hperm : results.Perm results') (hids : DistinctIds results) :
    let o : BuildOptions := { policy := .uniqueOnly, maxContent := limit }
    let g := build o results contents
    let g' := build o results' contents
    (∀ r : Relationship, r.kind ≠ .imports → (r ∈ g.relationships ↔ r ∈ g'.relationships)) ∧
    (∀ n : Node, (∀ e ∈ results, n.id ≠ Identity.ofFile e.path) → (n ∈ g.nodes ↔ n ∈ g'.nodes)) ∧
    (Digest.NoCollision (results.map fun e => Identity.key Label.file.name e.path [] none) →
      ∀ n : Node, n ∈ g.nodes ↔ n ∈ g'.nodes) := by
  intro o g g'
  refine ⟨fun r hkind => ?_, fun n hfile => ?_, fun hkeys n => ?_⟩
  · by_cases hstructure : r.kind = .contains ∨ r.kind = .defines
    · exact mem_build_structure_perm o contents hids hperm hstructure
    · refine mem_build_reference_perm o contents hids hperm rfl ?_
      cases hr : r.kind <;> simp_all
  · rw [mem_nodes_iff (wellFormed_build _ _ _), mem_nodes_iff (wellFormed_build _ _ _),
      node?_build_perm o contents hids hperm]
    exact fun e he _ _ hid => absurd hid.symm (hfile e he)
  · rw [mem_nodes_iff (wellFormed_build _ _ _), mem_nodes_iff (wellFormed_build _ _ _),
      node?_build_perm o contents hids hperm]
    intro e he e' he' hid hid'
    exact path_eq_of_ofFile_eq hkeys (List.mem_map.mpr ⟨e, he, rfl⟩) (List.mem_map.mpr ⟨e', he', rfl⟩)
      (hid.trans hid'.symm)

/-- A method calls two functions, one of which is declared twice. There is an edge for the other call
only, and the class implements the only interface of the name, in whatever order the files come. A policy
that takes the first declaration takes another one when the order is reversed. -/
theorem build_perm_ambiguous :
    let definition := fun (id : Text) (label : Label) (name : Text) (owner : Option Text) =>
      ({ id, label, name, startLine := 0, endLine := 0, isExported := false, start := 0,
         owner } : Definition)
    let a : Extraction :=
      { path := "a.ts".toList
        definitions := [definition "C".toList .classType "C".toList none,
          definition "m".toList .method "m".toList (some "C".toList)]
        calls := [⟨"f".toList, "m".toList⟩, ⟨"g".toList, "m".toList⟩]
        heritage := [⟨"C".toList, "C".toList, "I".toList, .extendsType⟩] }
    let b : Extraction :=
      { path := "b.ts".toList
        definitions := [definition "f".toList .function "f".toList none,
          definition "g".toList .function "g".toList none] }
    let c : Extraction :=
      { path := "c.ts".toList
        definitions := [definition "g'".toList .function "g".toList none,
          definition "I".toList .interfaceType "I".toList none] }
    let o : BuildOptions := { policy := .uniqueOnly, maxContent := 0 }
    let first : BuildOptions := { policy := .firstDeclared, maxContent := 0 }
    let g := build o [a, b, c] []
    let g' := build o [c, b, a] []
    let call : Relationship := ⟨"m".toList, "g".toList, .calls⟩
    (∀ r : Relationship, r.kind ≠ .imports → (r ∈ g.relationships ↔ r ∈ g'.relationships)) ∧
    (∀ n : Node, n ∈ g.nodes ↔ n ∈ g'.nodes) ∧
    g.relationships.filter (fun r => r.kind != .contains) =
      [⟨"C".toList, "m".toList, .defines⟩, ⟨"m".toList, "f".toList, .calls⟩,
        ⟨"C".toList, "I".toList, .implementsType⟩] ∧
    g.relationships ≠ g'.relationships ∧
    call ∈ (build first [a, b, c] []).relationships ∧
      call ∉ (build first [c, b, a] []).relationships := by
  intro definition a b c o first g g' call
  have hperm : [a, b, c].Perm [c, b, a] := (List.reverse_perm [a, b, c]).symm
  have hids : DistinctIds [a, b, c] := ⟨by decide +kernel, by decide +kernel⟩
  obtain ⟨hedges, hdefinitions, hnodes⟩ := build_perm 0 [] hperm hids
  exact ⟨hedges, hnodes (by decide +kernel), by decide +kernel, by decide +kernel, by decide +kernel,
    by decide +kernel⟩

end Graph

end CodeAtlas
