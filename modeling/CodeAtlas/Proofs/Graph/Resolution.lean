import CodeAtlas.Graph.Build
import Mathlib.Data.List.Basic
import Mathlib.Tactic

set_option autoImplicit false

/-! # What a reference means

The builder resolves a call or a parent against an index of all definitions. This module says what
the outcome is without an index: a definition *counts* if none before it, file after file, has its
identity (`FirstAt`); the candidates of a reference are the definitions of its name that count; and a
policy picks one of them by its place among the candidates (`TieBreak.Picks`). Places are positions in
the list of all definitions, so nothing here depends on how the candidates are collected.

`Enumerates C l` ties the two views together: the list `l` holds what the predicate `C` holds of, in
the order of the places. Every list that the builder computes on the way enumerates a predicate
of the specification.

The main result, `references_resolved`, is that the graph has exactly the edges that references mean.
-/

namespace CodeAtlas

/-! ## Places -/

/-- The elements at the places where the predicate holds, in order. -/
def Enumerates {α : Type} (C : Nat → α → Prop) (l : List α) : Prop :=
  ∃ ps : List (Nat × α), ps.map (·.2) = l ∧ ps.Pairwise (fun p q => p.1 < q.1) ∧
    ∀ i a, C i a ↔ (i, a) ∈ ps

/-- The element at the first place. -/
def IsFirst {α : Type} (C : Nat → α → Prop) (a : α) : Prop :=
  ∃ i, C i a ∧ ∀ j b, C j b → i ≤ j

/-- The element at the only place. -/
def IsOnly {α : Type} (C : Nat → α → Prop) (a : α) : Prop :=
  ∃ i, C i a ∧ ∀ j b, C j b → j = i

namespace Enumerates

variable {α : Type} {C D : Nat → α → Prop} {l : List α}

theorem congr (h : Enumerates C l) (hCD : ∀ i a, D i a ↔ C i a) : Enumerates D l := by
  obtain ⟨ps, hmap, hsorted, hmem⟩ := h
  exact ⟨ps, hmap, hsorted, fun i a => (hCD i a).trans (hmem i a)⟩

/-- Keeping some elements keeps their places. -/
theorem filter (h : Enumerates C l) (p : α → Bool) :
    Enumerates (fun i a => C i a ∧ p a = true) (l.filter p) := by
  obtain ⟨ps, rfl, hsorted, hmem⟩ := h
  refine ⟨ps.filter fun q => p q.2, ?_, hsorted.filter _, fun i a => ?_⟩
  · rw [List.filter_map]
    rfl
  · show C i a ∧ p a = true ↔ _
    rw [List.mem_filter, hmem i a]

/-- One more place at the front moves the others up by one. -/
theorem shift {C : Nat → α → Prop} (h : Enumerates (fun i a => C (i + 1) a) l)
    (hzero : ∀ a, ¬ C 0 a) : Enumerates C l := by
  obtain ⟨ps, rfl, hsorted, hmem⟩ := h
  refine ⟨ps.map fun q => (q.1 + 1, q.2), by simp, ?_, fun i a => ?_⟩
  · refine hsorted.map _ fun p q hpq => ?_
    omega
  · cases i with
    | zero => simp [hzero a]
    | succ i => simp [hmem i a]

theorem cons {C : Nat → α → Prop} {a : α} (h : Enumerates (fun i b => C (i + 1) b) l)
    (hzero : ∀ b, C 0 b ↔ b = a) : Enumerates C (a :: l) := by
  obtain ⟨ps, rfl, hsorted, hmem⟩ := h
  refine ⟨(0, a) :: ps.map fun q => (q.1 + 1, q.2), by simp, ?_, fun i b => ?_⟩
  · refine List.pairwise_cons.mpr ⟨fun q hq => ?_, hsorted.map _ fun p q hpq => by omega⟩
    obtain ⟨p, -, rfl⟩ := List.mem_map.mp hq
    exact Nat.succ_pos _
  · cases i with
    | zero => simp [hzero b]
    | succ i => simp [hmem i b]

theorem eq_nil_iff (h : Enumerates C l) : l = [] ↔ ∀ i a, ¬ C i a := by
  obtain ⟨ps, rfl, -, hmem⟩ := h
  rw [List.map_eq_nil_iff]
  constructor
  · rintro rfl i a hC
    simpa using (hmem i a).mp hC
  · intro hnone
    refine List.eq_nil_iff_forall_not_mem.mpr fun q hq => ?_
    exact hnone q.1 q.2 ((hmem q.1 q.2).mpr hq)

/-- The head of the list is the element at the first place. -/
theorem head?_eq_some_iff (h : Enumerates C l) {a : α} : l.head? = some a ↔ IsFirst C a := by
  obtain ⟨ps, rfl, hsorted, hmem⟩ := h
  cases ps with
  | nil =>
      have hnone : ¬ IsFirst C a := by
        rintro ⟨i, hC, -⟩
        simpa using (hmem i a).mp hC
      simpa using hnone
  | cons p ps =>
      rw [List.map_cons, List.head?_cons, Option.some_inj]
      rw [List.pairwise_cons] at hsorted
      constructor
      · rintro rfl
        refine ⟨p.1, (hmem p.1 p.2).mpr List.mem_cons_self, fun j b hC => ?_⟩
        rcases List.mem_cons.mp ((hmem j b).mp hC) with heq | hq
        · rw [← heq]
        · exact Nat.le_of_lt (hsorted.1 _ hq)
      · rintro ⟨i, hC, hfirst⟩
        -- The first place is not after that of the head, and all others are.
        have hle : i ≤ p.1 := hfirst p.1 p.2 ((hmem p.1 p.2).mpr List.mem_cons_self)
        rcases List.mem_cons.mp ((hmem i a).mp hC) with heq | hq
        · rw [← heq]
        · have hlt := hsorted.1 _ hq
          simp only at hlt
          omega

/-- The list has one element exactly if there is one place. -/
theorem theOnly_eq_some_iff (h : Enumerates C l) {a : α} : theOnly l = some a ↔ IsOnly C a := by
  obtain ⟨ps, rfl, hsorted, hmem⟩ := h
  match ps with
  | [] =>
      have hnone : ¬ IsOnly C a := by
        rintro ⟨i, hC, -⟩
        simpa using (hmem i a).mp hC
      simpa [theOnly] using hnone
  | [p] =>
      rw [List.map_singleton, theOnly, Option.some_inj]
      constructor
      · rintro rfl
        refine ⟨p.1, (hmem p.1 p.2).mpr List.mem_cons_self, fun j b hC => ?_⟩
        rw [← List.mem_singleton.mp ((hmem j b).mp hC)]
      · rintro ⟨i, hC, -⟩
        rw [← List.mem_singleton.mp ((hmem i a).mp hC)]
  | p :: q :: ps =>
      have hnone : ¬ IsOnly C a := by
        rintro ⟨i, -, honly⟩
        have hp := honly p.1 p.2 ((hmem p.1 p.2).mpr (by simp))
        have hq := honly q.1 q.2 ((hmem q.1 q.2).mpr (by simp))
        have hlt := (List.pairwise_cons.mp hsorted).1 q List.mem_cons_self
        omega
      simpa [theOnly] using hnone

end Enumerates

namespace TieBreak

/-! ## Policies -/

/-- What a policy picks for a reference in a file. The candidates are given by their places. -/
def Picks (policy : TieBreak) (file : Text) (C : Nat → Graph.Declared → Prop)
    (d : Graph.Declared) : Prop :=
  let here := fun i x => C i x ∧ x.path = file
  match policy with
  | firstDeclared => IsFirst C d
  | sameFileFirst => IsFirst here d ∨ (∀ i x, ¬ here i x) ∧ IsFirst C d
  | uniqueOnly => IsOnly here d ∨ (∀ i x, ¬ here i x) ∧ IsOnly C d

/-- What is picked has a place among the candidates. -/
theorem Picks.exists_place {policy : TieBreak} {file : Text} {C : Nat → Graph.Declared → Prop}
    {d : Graph.Declared} (h : policy.Picks file C d) : ∃ i, C i d := by
  cases policy with
  | firstDeclared =>
      obtain ⟨i, hC, -⟩ := h
      exact ⟨i, hC⟩
  | sameFileFirst =>
      obtain ⟨i, ⟨hC, -⟩, -⟩ | ⟨-, i, hC, -⟩ := h
      · exact ⟨i, hC⟩
      · exact ⟨i, hC⟩
  | uniqueOnly =>
      obtain ⟨i, ⟨hC, -⟩, -⟩ | ⟨-, i, hC, -⟩ := h
      · exact ⟨i, hC⟩
      · exact ⟨i, hC⟩

theorem theOnly_map {α β : Type} (f : α → β) (l : List α) : theOnly (l.map f) = (theOnly l).map f := by
  match l with
  | [] => rfl
  | [_] => rfl
  | _ :: _ :: _ => rfl

/-- **The policies choose what they pick.** -/
theorem choose_eq_some_iff (policy : TieBreak) (file : Text) {C : Nat → Graph.Declared → Prop}
    {l : List Graph.Declared} (h : Enumerates C l) (t : Text) :
    policy.choose file (l.map fun d => ⟨d.path, d.definition.id⟩) = some t ↔
      ∃ d, policy.Picks file C d ∧ d.definition.id = t := by
  -- The candidates in the file of the reference have their own places.
  have hhere : Enumerates (fun i x => C i x ∧ x.path = file) (l.filter fun d => d.path == file) :=
    (h.filter fun d => d.path == file).congr fun i x => by simp
  have hfilter : (l.map fun d => (⟨d.path, d.definition.id⟩ : Candidate)).filter
      (fun c => c.path == file) =
      (l.filter fun d => d.path == file).map fun d => ⟨d.path, d.definition.id⟩ := by
    rw [List.filter_map]
    rfl
  have hempty := hhere.eq_nil_iff
  unfold choose Picks
  simp only [hfilter, List.isEmpty_iff, List.map_eq_nil_iff, List.head?_map, theOnly_map,
    Option.map_map]
  cases policy with
  | firstDeclared =>
      simp only [Option.map_eq_some_iff, h.head?_eq_some_iff, Function.comp_apply]
  | sameFileFirst =>
      simp only [← hhere.head?_eq_some_iff, ← h.head?_eq_some_iff, ← hempty]
      by_cases hnil : (l.filter fun d => d.path == file) = []
      · simp [hnil, Option.map_eq_some_iff]
      · simp [hnil, Option.map_eq_some_iff]
  | uniqueOnly =>
      simp only [← hhere.theOnly_eq_some_iff, ← h.theOnly_eq_some_iff, ← hempty]
      by_cases hnil : (l.filter fun d => d.path == file) = []
      · simp [hnil, theOnly, Option.map_eq_some_iff]
      · simp [hnil, Option.map_eq_some_iff]

end TieBreak

namespace Graph

/-! ## Candidates -/

/-- The definitions of all files with the paths of their files, file after file. -/
def listed (results : List Extraction) : List Declared :=
  results.flatMap fun e => e.definitions.map fun d => ⟨e.path, d⟩

/-- The definition at a place of the list, if none before it has its identity. -/
def FirstAt (ds : List Declared) (i : Nat) (d : Declared) : Prop :=
  ds[i]? = some d ∧ ∀ (j : Nat) (x : Declared), j < i → ds[j]? = some x →
    x.definition.id ≠ d.definition.id

/-- What a reference by name in a file means, among the definitions with certain labels. -/
def Means (policy : TieBreak) (results : List Extraction) (p : Label → Bool) (file name t : Text) :
    Prop :=
  ∃ d, policy.Picks file
    (fun i x => FirstAt (listed results) i x ∧ p x.definition.label = true ∧
      x.definition.name = name) d ∧ d.definition.id = t

/-- Does an edge from a class to a parent say that the parent is implemented? -/
def Implements (g : Graph) (h : Heritage) (t : Text) : Prop :=
  h.kind = .implementsType ∨
    ((g.node? h.classId).map (·.label) = some .classType ∧
      (g.node? t).map (·.label) = some .interfaceType)

theorem enumerates_declarationsFrom (seen : List Text) (ds : List Declared) :
    Enumerates (fun i d => FirstAt ds i d ∧ d.definition.id ∉ seen) (declarationsFrom seen ds) := by
  induction ds generalizing seen with
  | nil =>
      refine ⟨[], rfl, List.Pairwise.nil, fun i d => ?_⟩
      simp [FirstAt]
  | cons a ds ih =>
      -- A definition further on counts if it does among the others and differs from the head.
      have hsucc : ∀ (i : Nat) (d : Declared), FirstAt (a :: ds) (i + 1) d ↔
          FirstAt ds i d ∧ a.definition.id ≠ d.definition.id := by
        intro i d
        simp only [FirstAt, List.getElem?_cons_succ]
        constructor
        · rintro ⟨hget, hbefore⟩
          refine ⟨⟨hget, fun j x hj hx => ?_⟩, hbefore 0 a (Nat.succ_pos i) rfl⟩
          exact hbefore (j + 1) x (by omega) (by simpa using hx)
        · rintro ⟨⟨hget, hbefore⟩, hhead⟩
          refine ⟨hget, fun j x hj hx => ?_⟩
          cases j with
          | zero =>
              obtain rfl : a = x := by simpa using hx
              exact hhead
          | succ j => exact hbefore j x (by omega) (by simpa using hx)
      have hzero : ∀ d : Declared, FirstAt (a :: ds) 0 d ↔ d = a := by
        intro d
        simp [FirstAt, eq_comm]
      by_cases hseen : a.definition.id ∈ seen
      · rw [declarationsFrom, if_pos (by simpa using hseen)]
        refine Enumerates.shift ((ih seen).congr fun i d => ?_) fun d => ?_
        · rw [hsucc]
          constructor
          · rintro ⟨⟨hfirst, -⟩, hnot⟩
            exact ⟨hfirst, hnot⟩
          · rintro ⟨hfirst, hnot⟩
            refine ⟨⟨hfirst, fun heq => ?_⟩, hnot⟩
            rw [heq] at hseen
            exact hnot hseen
        · rw [hzero]
          rintro ⟨rfl, hnot⟩
          exact hnot hseen
      · rw [declarationsFrom, if_neg (by simpa using hseen)]
        refine Enumerates.cons ((ih (a.definition.id :: seen)).congr fun i d => ?_) fun d => ?_
        · rw [hsucc, List.mem_cons, not_or, ne_comm]
          tauto
        · rw [hzero]
          constructor
          · exact fun h => h.1
          · rintro rfl
            exact ⟨rfl, hseen⟩

/-- The definitions of a name and of certain labels that count. -/
theorem enumerates_candidates (results : List Extraction) (p : Label → Bool) (name : Text) :
    Enumerates
      (fun i d => FirstAt (listed results) i d ∧ p d.definition.label = true ∧
        d.definition.name = name)
      (((declarations results).filter fun d => p d.definition.label).filter fun d =>
        d.definition.name == name) := by
  have hall : Enumerates (fun i d => FirstAt (listed results) i d ∧ d.definition.id ∉ [])
      (declarations results) := enumerates_declarationsFrom [] (listed results)
  refine ((hall.filter fun d => p d.definition.label).filter fun d =>
    d.definition.name == name).congr fun i d => ?_
  simp [and_assoc]

/-- **A reference resolves to what it means.** -/
theorem choose_candidates_iff (policy : TieBreak) (results : List Extraction) (p : Label → Bool)
    (file name t : Text) :
    policy.choose file
        (candidates ((declarations results).filter fun d => p d.definition.label) name) = some t ↔
      Means policy results p file name t :=
  policy.choose_eq_some_iff file (enumerates_candidates results p name) t

/-! ## Nodes -/

theorem hasNode_iff {g : Graph} {id : Text} : g.hasNode id = true ↔ ∃ n ∈ g.nodes, n.id = id := by
  simp [hasNode, node?]

theorem hasNode_addNode (g : Graph) (n : Node) : (g.addNode n).1.hasNode n.id = true := by
  unfold addNode
  by_cases h : g.hasNode n.id = true
  · rw [if_pos h]
    exact h
  · rw [if_neg h]
    exact hasNode_iff.mpr ⟨n, by simp, rfl⟩

theorem hasNode_addNode_of_hasNode {g : Graph} {id : Text} (h : g.hasNode id = true) (n : Node) :
    (g.addNode n).1.hasNode id = true := by
  unfold addNode
  split
  · exact h
  · obtain ⟨m, hm, hid⟩ := hasNode_iff.mp h
    exact hasNode_iff.mpr ⟨m, List.mem_append_left _ hm, hid⟩

theorem hasNode_addNodes {g : Graph} {ns : List Node} {id : Text}
    (h : g.hasNode id = true ∨ ∃ n ∈ ns, n.id = id) : (g.addNodes ns).hasNode id = true := by
  induction ns generalizing g with
  | nil => simpa [addNodes] using h
  | cons n ns ih =>
      refine ih ?_
      rcases h with h | ⟨m, hm, rfl⟩
      · exact Or.inl (hasNode_addNode_of_hasNode h n)
      · rcases List.mem_cons.mp hm with rfl | hm
        · exact Or.inl (hasNode_addNode g m)
        · exact Or.inr ⟨m, hm, rfl⟩

/-- Every definition has a node. -/
theorem hasNode_nodesOnly_of_mem {o : BuildOptions} {contents : Mapping Text}
    {results : List Extraction} {d : Declared} (h : d ∈ listed results) :
    (nodesOnly o contents results).hasNode d.definition.id = true := by
  obtain ⟨e, he, hd⟩ := List.mem_flatMap.mp h
  obtain ⟨x, hx, rfl⟩ := List.mem_map.mp hd
  refine hasNode_addNodes (Or.inr ⟨definitionNode o e.path ((contents.get? e.path).getD []) x, ?_, rfl⟩)
  refine List.mem_flatMap.mpr ⟨e, he, ?_⟩
  exact List.mem_cons_of_mem _ (List.mem_map.mpr ⟨x, hx, rfl⟩)


/-! ## Edges -/

/-- Adding relationships leaves the nodes alone. -/
theorem nodes_addRelationships (g : Graph) (rs : List Relationship) :
    (g.addRelationships rs).nodes = g.nodes := by
  induction rs generalizing g with
  | nil => rfl
  | cons r rs ih =>
      have hstep : (g.addRelationship r).1.nodes = g.nodes := by
        unfold addRelationship
        split <;> rfl
      exact (ih (g.addRelationship r).1).trans hstep

theorem node?_addRelationships (g : Graph) (rs : List Relationship) (id : Text) :
    (g.addRelationships rs).node? id = g.node? id := by
  unfold node?
  rw [nodes_addRelationships]

theorem hasNode_addRelationships (g : Graph) (rs : List Relationship) (id : Text) :
    (g.addRelationships rs).hasNode id = g.hasNode id := by
  unfold hasNode
  rw [node?_addRelationships]

theorem mem_addRelationship_iff (g : Graph) (r x : Relationship) :
    x ∈ (g.addRelationship r).1.relationships ↔
      x ∈ g.relationships ∨ x = r ∧ g.hasNode x.source = true ∧ g.hasNode x.target = true := by
  unfold addRelationship
  split
  · next h =>
    -- Nothing is added: an end is missing, or the relationship is there already.
    constructor
    · exact Or.inl
    · rintro (hx | ⟨rfl, hsource, htarget⟩)
      · exact hx
      · simpa [hsource, htarget] using h
  · next h =>
    have hends : (g.hasNode r.source = true ∧ g.hasNode r.target = true) ∧
        r ∉ g.relationships := by simpa using h
    rw [List.mem_append, List.mem_singleton]
    constructor
    · rintro (hx | rfl)
      · exact Or.inl hx
      · exact Or.inr ⟨rfl, hends.1⟩
    · rintro (hx | ⟨hx, -⟩)
      · exact Or.inl hx
      · exact Or.inr hx

/-- The relationships of a graph after adding some: those with both ends. -/
theorem mem_addRelationships_iff (g : Graph) (rs : List Relationship) (x : Relationship) :
    x ∈ (g.addRelationships rs).relationships ↔
      x ∈ g.relationships ∨ x ∈ rs ∧ g.hasNode x.source = true ∧ g.hasNode x.target = true := by
  induction rs generalizing g with
  | nil => simp [addRelationships]
  | cons r rs ih =>
      have hstep : ∀ id, (g.addRelationship r).1.hasNode id = g.hasNode id := by
        intro id
        exact hasNode_addRelationships g [r] id
      show x ∈ ((g.addRelationship r).1.addRelationships rs).relationships ↔ _
      rw [ih, mem_addRelationship_iff, hstep, hstep, List.mem_cons]
      tauto

theorem relationships_addNodes (g : Graph) (ns : List Node) :
    (g.addNodes ns).relationships = g.relationships := by
  induction ns generalizing g with
  | nil => rfl
  | cons n ns ih =>
      have hstep : (g.addNode n).1.relationships = g.relationships := by
        unfold addNode
        split <;> rfl
      exact (ih (g.addNode n).1).trans hstep

/-- A relationship of the built graph is one of the computed ones with both ends in the graph. -/
theorem mem_build_iff (o : BuildOptions) (results : List Extraction) (contents : Mapping Text)
    (x : Relationship) :
    x ∈ (build o results contents).relationships ↔
      x ∈ (nodesOnly o contents results).edgesOf o.policy results ∧
        (build o results contents).hasNode x.source = true ∧
        (build o results contents).hasNode x.target = true := by
  have hnone : (nodesOnly o contents results).relationships = [] := relationships_addNodes _ _
  simp only [build, mem_addRelationships_iff, hasNode_addRelationships, hnone]
  simp

theorem kind_of_mem_structureOf {g : Graph} {e : Extraction} {x : Relationship}
    (h : x ∈ g.structureOf e) : x.kind = .contains ∨ x.kind = .defines := by
  obtain ⟨d, -, hx⟩ := List.mem_flatMap.mp h
  rcases List.mem_cons.mp hx with rfl | hx
  · exact Or.inl rfl
  · -- The second relationship, if there is one, is that of an owner.
    have howner : g.ownership d = some x := by simpa using hx
    unfold ownership at howner
    split at howner
    · simp at howner
    · simp at howner
    · split at howner
      · rw [Option.ite_none_right_eq_some, Option.some_inj] at howner
        exact Or.inr (by rw [← howner.2])
      · simp at howner

theorem callEdge_eq_some_iff (policy : TieBreak) (results : List Extraction) (path : Text) (c : Call)
    (x : Relationship) :
    callEdge policy (declarations results) path c = some x ↔
      x.source = c.source ∧ x.kind = .calls ∧ x.target ≠ x.source ∧
        Means policy results (fun _ => true) path c.name x.target := by
  have hmeans := choose_candidates_iff policy results (fun _ => true) path c.name
  rw [List.filter_true] at hmeans
  unfold callEdge
  cases hchoose : policy.choose path (candidates (declarations results) c.name) with
  | none => simp [← hmeans, hchoose]
  | some t =>
      obtain ⟨source, target, kind⟩ := x
      simp only [← hmeans, hchoose, Option.some_inj, Option.ite_none_left_eq_some,
        Relationship.mk.injEq, beq_iff_eq]
      constructor
      · rintro ⟨hne, rfl, rfl, rfl⟩
        exact ⟨rfl, rfl, hne, rfl⟩
      · rintro ⟨rfl, rfl, hne, rfl⟩
        exact ⟨hne, rfl, rfl, rfl⟩

theorem importEdge_kind {known : List Text} {e : Extraction} {raw : Text} {x : Relationship}
    (h : importEdge known e raw = some x) : x.kind = .imports := by
  unfold importEdge at h
  split at h
  · rw [Option.ite_none_left_eq_some, Option.some_inj] at h
    rw [← h.2]
  · simp at h

/-- The kind of an edge to a parent. -/
theorem heritageEdgeKind_eq (g : Graph) (h : Heritage) (t : Text) :
    (g.Implements h t ∧ g.heritageEdgeKind h t = .implementsType) ∨
      (¬ g.Implements h t ∧ g.heritageEdgeKind h t = .extendsType) := by
  unfold heritageEdgeKind Implements
  cases hkind : h.kind with
  | implementsType => simp
  | extendsType | other =>
      cases hchild : g.node? h.classId with
      | none => simp
      | some child =>
          cases hparent : g.node? t with
          | none => simp
          | some parent =>
              by_cases hlabels : child.label = .classType ∧ parent.label = .interfaceType
              · simp [hlabels]
              · simp [hlabels]

theorem heritageEdgeKind_eq_implementsType_iff (g : Graph) (h : Heritage) (t : Text) :
    g.heritageEdgeKind h t = .implementsType ↔ g.Implements h t := by
  rcases g.heritageEdgeKind_eq h t with ⟨himpl, hkind⟩ | ⟨hnot, hkind⟩
  · simp [himpl, hkind]
  · simp [hnot, hkind]

theorem heritageEdgeKind_eq_extendsType_iff (g : Graph) (h : Heritage) (t : Text) :
    g.heritageEdgeKind h t = .extendsType ↔ ¬ g.Implements h t := by
  rcases g.heritageEdgeKind_eq h t with ⟨himpl, hkind⟩ | ⟨hnot, hkind⟩
  · simp [himpl, hkind]
  · simp [hnot, hkind]

theorem heritageEdge_eq_some_iff (g : Graph) (policy : TieBreak) (results : List Extraction)
    (path : Text) (h : Heritage) (x : Relationship) :
    g.heritageEdge policy ((declarations results).filter fun d => d.definition.label.isType) path h =
        some x ↔
      x.source = h.classId ∧ x.kind = g.heritageEdgeKind h x.target ∧ x.target ≠ x.source ∧
        Means policy results Label.isType path h.parent x.target := by
  have hmeans := choose_candidates_iff policy results Label.isType path h.parent
  unfold heritageEdge
  cases hchoose : policy.choose path (candidates
      ((declarations results).filter fun d => d.definition.label.isType) h.parent) with
  | none => simp [← hmeans, hchoose]
  | some t =>
      obtain ⟨source, target, kind⟩ := x
      simp only [← hmeans, hchoose, Option.some_inj, Option.ite_none_left_eq_some,
        Relationship.mk.injEq, beq_iff_eq]
      constructor
      · rintro ⟨hne, rfl, rfl, rfl⟩
        exact ⟨rfl, rfl, hne, rfl⟩
      · rintro ⟨rfl, rfl, hne, rfl⟩
        exact ⟨hne, rfl, rfl, rfl⟩

/-! ## The edges of references -/

/-- What a reference means is a node of the graph. -/
theorem Means.hasNode_build {policy : TieBreak} {results : List Extraction} {p : Label → Bool}
    {file name t : Text} (h : Means policy results p file name t) (o : BuildOptions)
    (contents : Mapping Text) : (build o results contents).hasNode t = true := by
  obtain ⟨d, hpick, rfl⟩ := h
  obtain ⟨i, ⟨hget, -⟩, -⟩ := hpick.exists_place
  have hmem : d ∈ listed results := List.mem_of_getElem? hget
  rw [build, hasNode_addRelationships]
  exact hasNode_nodesOnly_of_mem hmem

/-- The computed edges by kind: the kind tells which pass an edge comes from. -/
theorem mem_edgesOf_calls_iff (g : Graph) (policy : TieBreak) (results : List Extraction)
    (s t : Text) :
    (⟨s, t, .calls⟩ : Relationship) ∈ g.edgesOf policy results ↔
      ∃ e ∈ results, ∃ c ∈ e.calls, callEdge policy (declarations results) e.path c =
        some ⟨s, t, .calls⟩ := by
  simp only [edgesOf, List.mem_append, List.mem_flatMap, List.mem_filterMap]
  constructor
  · rintro (((⟨e, -, hx⟩ | hcall) | ⟨e, -, raw, -, hx⟩) | ⟨e, -, h, -, hx⟩)
    · simpa using kind_of_mem_structureOf hx
    · exact hcall
    · simpa using importEdge_kind hx
    · obtain ⟨-, hkind, -⟩ := (heritageEdge_eq_some_iff g policy results e.path h _).mp hx
      rcases g.heritageEdgeKind_eq h t with ⟨-, hkind'⟩ | ⟨-, hkind'⟩
      · simp [hkind'] at hkind
      · simp [hkind'] at hkind
  · intro hcall
    exact Or.inl (Or.inl (Or.inr hcall))

theorem mem_edgesOf_heritage_iff (g : Graph) (policy : TieBreak) (results : List Extraction)
    (x : Relationship) (hx : x.kind = .extendsType ∨ x.kind = .implementsType) :
    x ∈ g.edgesOf policy results ↔
      ∃ e ∈ results, ∃ h ∈ e.heritage, g.heritageEdge policy
        ((declarations results).filter fun d => d.definition.label.isType) e.path h = some x := by
  have hcontradiction : ∀ k : RelationKind, x.kind = k → k = .extendsType ∨ k = .implementsType := by
    rintro k rfl
    exact hx
  simp only [edgesOf, List.mem_append, List.mem_flatMap, List.mem_filterMap]
  constructor
  · rintro (((⟨e, -, hmem⟩ | ⟨e, -, c, -, hmem⟩) | ⟨e, -, raw, -, hmem⟩) | hheritage)
    · rcases kind_of_mem_structureOf hmem with hkind | hkind
      · simpa using hcontradiction _ hkind
      · simpa using hcontradiction _ hkind
    · obtain ⟨-, hkind, -⟩ := (callEdge_eq_some_iff policy results e.path c x).mp hmem
      simpa using hcontradiction _ hkind
    · simpa using hcontradiction _ (importEdge_kind hmem)
    · exact hheritage
  · exact Or.inr

theorem mem_build_calls_iff (o : BuildOptions) (results : List Extraction) (contents : Mapping Text)
    (s t : Text) :
    ⟨s, t, .calls⟩ ∈ (build o results contents).relationships ↔
      ∃ e ∈ results, ∃ c ∈ e.calls, c.source = s ∧ (build o results contents).hasNode s = true ∧
        t ≠ s ∧ Means o.policy results (fun _ => true) e.path c.name t := by
  rw [mem_build_iff, mem_edgesOf_calls_iff]
  constructor
  · rintro ⟨⟨e, he, c, hc, hedge⟩, hs, -⟩
    obtain ⟨hsource, -, hne, hmeans⟩ := (callEdge_eq_some_iff _ _ _ _ _).mp hedge
    exact ⟨e, he, c, hc, hsource.symm, hs, hne, hmeans⟩
  · rintro ⟨e, he, c, hc, rfl, hs, hne, hmeans⟩
    have hedge := (callEdge_eq_some_iff o.policy results e.path c ⟨c.source, t, .calls⟩).mpr
      ⟨rfl, rfl, hne, hmeans⟩
    exact ⟨⟨e, he, c, hc, hedge⟩, hs, hmeans.hasNode_build o contents⟩

/-- The nodes are complete before the first edge is added, so the kind of an edge may be read off the
finished graph. -/
theorem heritageEdgeKind_build (o : BuildOptions) (results : List Extraction)
    (contents : Mapping Text) (h : Heritage) (t : Text) :
    (build o results contents).heritageEdgeKind h t =
      (nodesOnly o contents results).heritageEdgeKind h t := by
  simp only [heritageEdgeKind, build, node?_addRelationships]

theorem mem_build_heritage_iff (o : BuildOptions) (results : List Extraction)
    (contents : Mapping Text) (s t : Text) {kind : RelationKind}
    (hkind : kind = .extendsType ∨ kind = .implementsType) :
    ⟨s, t, kind⟩ ∈ (build o results contents).relationships ↔
      ∃ e ∈ results, ∃ h ∈ e.heritage, h.classId = s ∧
        (build o results contents).hasNode s = true ∧ t ≠ s ∧
        Means o.policy results Label.isType e.path h.parent t ∧
        (build o results contents).heritageEdgeKind h t = kind := by
  rw [mem_build_iff, mem_edgesOf_heritage_iff _ _ _ _ hkind]
  simp only [heritageEdgeKind_build]
  constructor
  · rintro ⟨⟨e, he, h, hh, hedge⟩, hs, -⟩
    obtain ⟨hsource, hedgeKind, hne, hmeans⟩ := (heritageEdge_eq_some_iff _ _ _ _ _ _).mp hedge
    exact ⟨e, he, h, hh, hsource.symm, hs, hne, hmeans, hedgeKind.symm⟩
  · rintro ⟨e, he, h, hh, rfl, hs, hne, hmeans, hedgeKind⟩
    have hedge := (heritageEdge_eq_some_iff (nodesOnly o contents results) o.policy results e.path h
      ⟨h.classId, t, kind⟩).mpr ⟨rfl, hedgeKind.symm, hne, hmeans⟩
    exact ⟨⟨e, he, h, hh, hedge⟩, hs, hmeans.hasNode_build o contents⟩

/-- **The graph has exactly the edges that references mean.** There is a call edge for a call whose
source is a node and that means another node, and for nothing else. There is an edge to a parent for
an entry of the heritage under the same conditions, where only classes and interfaces can be meant; it
says that the parent is implemented if the entry does, or if a class names an interface. -/
theorem references_resolved (o : BuildOptions) (results : List Extraction) (contents : Mapping Text)
    (s t : Text) :
    (⟨s, t, .calls⟩ ∈ (build o results contents).relationships ↔
      ∃ e ∈ results, ∃ c ∈ e.calls, c.source = s ∧ (build o results contents).hasNode s = true ∧
        t ≠ s ∧ Means o.policy results (fun _ => true) e.path c.name t) ∧
    (⟨s, t, .implementsType⟩ ∈ (build o results contents).relationships ↔
      ∃ e ∈ results, ∃ h ∈ e.heritage, h.classId = s ∧
        (build o results contents).hasNode s = true ∧ t ≠ s ∧
        Means o.policy results Label.isType e.path h.parent t ∧
        (build o results contents).Implements h t) ∧
    (⟨s, t, .extendsType⟩ ∈ (build o results contents).relationships ↔
      ∃ e ∈ results, ∃ h ∈ e.heritage, h.classId = s ∧
        (build o results contents).hasNode s = true ∧ t ≠ s ∧
        Means o.policy results Label.isType e.path h.parent t ∧
        ¬ (build o results contents).Implements h t) := by
  refine ⟨mem_build_calls_iff o results contents s t, ?_, ?_⟩
  · rw [mem_build_heritage_iff o results contents s t (Or.inr rfl)]
    simp only [heritageEdgeKind_eq_implementsType_iff]
  · rw [mem_build_heritage_iff o results contents s t (Or.inl rfl)]
    simp only [heritageEdgeKind_eq_extendsType_iff]

end Graph

end CodeAtlas
