import CodeAtlas.Proofs.Graph.Resolution
import CodeAtlas.Proofs.Identity
import Mathlib.Data.List.Count

set_option autoImplicit false

/-! # Graphs stay well formed

A graph grows by two operations only. What one of them does is said once (`Graph.add_of_allows`,
`Graph.add_of_not_allows`): an addition that the graph allows is put at the end, and any other leaves
the graph as it is. Everything else is read off these two cases. The identities of nodes stay distinct,
relationships keep both their ends and do not repeat (`Graph.WellFormed`), nothing is taken out
(`Graph.IsPrefix`), and the counts of a graph add up.

The builder makes additions and nothing else (`Graph.build_eq_addAll`), so all of this holds of every
graph it builds.
-/

namespace CodeAtlas

/-! ## Counting -/

namespace Mapping

/-- The sum of all counts. -/
def total (m : Mapping Nat) : Nat := (m.map (·.2)).sum

theorem get?_insert {β : Type} (m : Mapping β) (k k' : Text) (v : β) :
    (m.insert k v).get? k' = if k' = k then some v else m.get? k' := by
  unfold get?
  induction m with
  | nil =>
      by_cases h : k' = k
      · simp [insert, h]
      · simp [insert, h]
  | cons p m ih =>
      obtain ⟨a, b⟩ := p
      by_cases hak : a = k
      · by_cases h : k' = k
        · simp [insert, hak, h]
        · have hne : (k' == k) = false := by simpa using h
          simp [insert, hak, h, List.lookup_cons, hne]
      · rw [insert, if_neg hak, List.lookup_cons, List.lookup_cons, ih]
        by_cases h : k' = k
        · have hka : (k == a) = false := by simpa using Ne.symm hak
          simp [h, hka]
        · simp [h]

theorem total_insert (m : Mapping Nat) (k : Text) (v : Nat) :
    (m.insert k v).total + (m.get? k).getD 0 = m.total + v := by
  unfold get?
  induction m with
  | nil => simp [insert, total]
  | cons p m ih =>
      obtain ⟨a, b⟩ := p
      by_cases hak : a = k
      · simp [insert, total, hak]
        omega
      · have hka : (k == a) = false := by simpa using Ne.symm hak
        rw [insert, if_neg hak, List.lookup_cons, hka]
        simp only [total, List.map_cons, List.sum_cons] at ih ⊢
        omega

theorem total_increment (m : Mapping Nat) (k : Text) : (m.increment k).total = m.total + 1 := by
  have hinsert := m.total_insert k ((m.get? k).getD 0 + 1)
  unfold increment
  omega

theorem total_foldl_increment (m : Mapping Nat) (l : List Text) :
    (l.foldl increment m).total = m.total + l.length := by
  induction l generalizing m with
  | nil => rfl
  | cons k l ih =>
      rw [List.foldl_cons, ih, total_increment, List.length_cons]
      omega

/-- **The counts add up** to the number of texts that were counted. -/
theorem total_tally (l : List Text) : (tally l).total = l.length := by
  rw [tally, total_foldl_increment]
  exact Nat.zero_add _

theorem getD_get?_foldl_increment (m : Mapping Nat) (l : List Text) (k : Text) :
    ((l.foldl increment m).get? k).getD 0 = (m.get? k).getD 0 + l.count k := by
  induction l generalizing m with
  | nil => rfl
  | cons a l ih =>
      rw [List.foldl_cons, ih, increment, get?_insert, List.count_cons]
      by_cases h : k = a
      · simp [h]
        omega
      · have hne : (a == k) = false := by simpa using Ne.symm h
        simp [h, hne]

/-- **Each count is the number of occurrences.** -/
theorem getD_get?_tally (l : List Text) (k : Text) : ((tally l).get? k).getD 0 = l.count k := by
  rw [tally, getD_get?_foldl_increment]
  exact Nat.zero_add _

end Mapping

theorem RelationKind.name_injective : Function.Injective RelationKind.name := by
  intro a b h
  cases a <;> cases b <;> first | rfl | exact absurd h (by decide)

/-! ## Additions -/

/-- Something that is to be added to a graph. -/
inductive Addition where
  | node (n : Node)
  | relationship (r : Relationship)

namespace Graph

/-- Add something, unless it is not allowed. -/
def add (g : Graph) : Addition → Graph × Bool
  | .node n => g.addNode n
  | .relationship r => g.addRelationship r

/-- The graph that is left when one thing after another was added. -/
def addAll (g : Graph) (as : List Addition) : Graph := as.foldl (fun g a => (g.add a).1) g

/-- The graph with something put at its end. -/
def append (g : Graph) : Addition → Graph
  | .node n => { g with nodes := g.nodes ++ [n] }
  | .relationship r => { g with relationships := g.relationships ++ [r] }

/-- A node is allowed if its identity is free, and a relationship if it is new and both its ends are
nodes. -/
def Allows (g : Graph) : Addition → Prop
  | .node n => ∀ m ∈ g.nodes, m.id ≠ n.id
  | .relationship r =>
    (∃ m ∈ g.nodes, m.id = r.source) ∧ (∃ m ∈ g.nodes, m.id = r.target) ∧ r ∉ g.relationships

theorem add_of_allows {g : Graph} {a : Addition} (h : g.Allows a) : g.add a = (g.append a, true) := by
  cases a with
  | node n =>
      have hfree : ¬ g.hasNode n.id = true := by
        rw [hasNode_iff]
        rintro ⟨m, hm, hid⟩
        exact h m hm hid
      exact if_neg hfree
  | relationship r =>
      obtain ⟨hsource, htarget, hnew⟩ := h
      refine if_neg ?_
      simp [hasNode_iff.mpr hsource, hasNode_iff.mpr htarget, hnew]

theorem add_of_not_allows {g : Graph} {a : Addition} (h : ¬ g.Allows a) : g.add a = (g, false) := by
  cases a with
  | node n =>
      refine if_pos (hasNode_iff.mpr ?_)
      by_contra hnone
      exact h fun m hm hid => hnone ⟨m, hm, hid⟩
  | relationship r =>
      refine if_pos ?_
      by_contra hends
      simp only [Bool.or_eq_true, Bool.not_eq_true', List.contains_iff_mem, not_or,
        Bool.not_eq_false] at hends
      exact h ⟨hasNode_iff.mp hends.1.1, hasNode_iff.mp hends.1.2, hends.2⟩

/-- Nothing was put at the end of a graph that is as it was. -/
theorem append_ne (g : Graph) (a : Addition) : g.append a ≠ g := by
  intro h
  cases a with
  | node n => simpa [append] using congrArg (·.nodes.length) h
  | relationship r => simpa [append] using congrArg (·.relationships.length) h

/-- **What an addition answers.** It answers true exactly if it is allowed, and then it is put at the
end; if not, the graph is left as it was. -/
theorem add_answer (g : Graph) (a : Addition) :
    ((g.add a).2 = true ↔ g.Allows a) ∧ ((g.add a).2 = true ↔ (g.add a).1 = g.append a) ∧
      ((g.add a).2 = false ↔ (g.add a).1 = g) := by
  by_cases h : g.Allows a
  · rw [add_of_allows h]
    simp [h, g.append_ne a]
  · rw [add_of_not_allows h]
    simp [h, (g.append_ne a).symm]

/-! ## What stays as it is -/

/-- The other graph has the nodes and relationships of this one first, in the same order. -/
def IsPrefix (g g' : Graph) : Prop := g.nodes <+: g'.nodes ∧ g.relationships <+: g'.relationships

theorem isPrefix_append (g : Graph) (a : Addition) : g.IsPrefix (g.append a) := by
  cases a with
  | node n => exact ⟨List.prefix_append _ _, List.prefix_refl _⟩
  | relationship r => exact ⟨List.prefix_refl _, List.prefix_append _ _⟩

theorem isPrefix_add (g : Graph) (a : Addition) : g.IsPrefix (g.add a).1 := by
  by_cases h : g.Allows a
  · rw [add_of_allows h]
    exact g.isPrefix_append a
  · rw [add_of_not_allows h]
    exact ⟨List.prefix_refl _, List.prefix_refl _⟩

theorem isPrefix_addAll (g : Graph) (as : List Addition) : g.IsPrefix (g.addAll as) := by
  induction as generalizing g with
  | nil => exact ⟨List.prefix_refl _, List.prefix_refl _⟩
  | cons a as ih =>
      have hfirst := g.isPrefix_add a
      have hrest := ih (g.add a).1
      exact ⟨hfirst.1.trans hrest.1, hfirst.2.trans hrest.2⟩

/-! ## The invariant -/

/-- Identities are distinct, relationships join nodes, and no two of them agree in source, target and
kind. -/
structure WellFormed (g : Graph) : Prop where
  ids_nodup : (g.nodes.map (·.id)).Nodup
  ends_mem : ∀ r ∈ g.relationships,
    (∃ n ∈ g.nodes, n.id = r.source) ∧ ∃ n ∈ g.nodes, n.id = r.target
  relationships_nodup : (g.relationships.map fun r => (r.source, r.target, r.kind)).Nodup

theorem wellFormed_empty : empty.WellFormed := by
  constructor <;> simp [empty]

/-- What is allowed can be put at the end. -/
theorem WellFormed.append {g : Graph} (h : g.WellFormed) {a : Addition} (ha : g.Allows a) :
    (g.append a).WellFormed := by
  cases a with
  | node n =>
      refine ⟨?_, fun r hr => ?_, h.relationships_nodup⟩
      · show ((g.nodes ++ [n]).map (·.id)).Nodup
        rw [List.map_append, List.nodup_append]
        refine ⟨h.ids_nodup, List.nodup_singleton _, fun x hx y hy => ?_⟩
        obtain ⟨m, hm, rfl⟩ := List.mem_map.mp hx
        rw [List.mem_singleton.mp hy]
        exact ha m hm
      · -- The ends of what is there are still there.
        obtain ⟨⟨m, hm, hsource⟩, m', hm', htarget⟩ := h.ends_mem r hr
        exact ⟨⟨m, List.mem_append_left _ hm, hsource⟩, m', List.mem_append_left _ hm', htarget⟩
  | relationship r =>
      obtain ⟨hsource, htarget, hnew⟩ := ha
      refine ⟨h.ids_nodup, fun r' hr' => ?_, ?_⟩
      · rcases List.mem_append.mp hr' with hr' | hr'
        · exact h.ends_mem r' hr'
        · rw [List.mem_singleton.mp hr']
          exact ⟨hsource, htarget⟩
      · show ((g.relationships ++ [r]).map _).Nodup
        rw [List.map_append, List.nodup_append]
        refine ⟨h.relationships_nodup, List.nodup_singleton _, fun x hx y hy heq => ?_⟩
        obtain ⟨r', hr', rfl⟩ := List.mem_map.mp hx
        rw [List.mem_singleton.mp hy, Prod.mk.injEq, Prod.mk.injEq] at heq
        obtain ⟨hsource', htarget', hkind'⟩ := heq
        have hsame : r' = r := by
          cases r'
          cases r
          rw [Relationship.mk.injEq]
          exact ⟨hsource', htarget', hkind'⟩
        exact hnew (hsame ▸ hr')

theorem WellFormed.add {g : Graph} (h : g.WellFormed) (a : Addition) : (g.add a).1.WellFormed := by
  by_cases ha : g.Allows a
  · rw [add_of_allows ha]
    exact h.append ha
  · rw [add_of_not_allows ha]
    exact h

theorem WellFormed.addAll {g : Graph} (h : g.WellFormed) (as : List Addition) :
    (g.addAll as).WellFormed := by
  induction as generalizing g with
  | nil => exact h
  | cons a as ih => exact ih (h.add a)

/-! ## Counts -/

/-- The counts of a graph are the numbers of its nodes of each label and of its relationships of each
kind, and they add up to the numbers of all. -/
structure Stats.Counts (s : Stats) (g : Graph) : Prop where
  node : ∀ l : Label, (s.nodes.get? l.name).getD 0 = (g.nodes.map (·.label)).count l
  relationship : ∀ k : RelationKind,
    (s.relationships.get? k.name).getD 0 = (g.relationships.map (·.kind)).count k
  nodes_total : s.nodes.total = g.nodeCount
  relationships_total : s.relationships.total = g.edgeCount

theorem counts_stats (g : Graph) : Stats.Counts g.stats g where
  node l := by
    have hmap : g.nodes.map (·.label.name) = (g.nodes.map (·.label)).map Label.name := by
      rw [List.map_map]
      rfl
    show ((Mapping.tally (g.nodes.map (·.label.name))).get? l.name).getD 0 = _
    rw [Mapping.getD_get?_tally, hmap, List.count_map_of_injective _ _ Label.name_injective]
  relationship k := by
    have hmap : g.relationships.map (·.kind.name) =
        (g.relationships.map (·.kind)).map RelationKind.name := by
      rw [List.map_map]
      rfl
    show ((Mapping.tally (g.relationships.map (·.kind.name))).get? k.name).getD 0 = _
    rw [Mapping.getD_get?_tally, hmap, List.count_map_of_injective _ _ RelationKind.name_injective]
  nodes_total := by
    show (Mapping.tally (g.nodes.map (·.label.name))).total = g.nodes.length
    rw [Mapping.total_tally, List.length_map]
  relationships_total := by
    show (Mapping.tally (g.relationships.map (·.kind.name))).total = g.relationships.length
    rw [Mapping.total_tally, List.length_map]

/-! ## Built graphs -/

/-- **The builder only adds**: first all nodes, then all relationships. -/
theorem build_eq_addAll (o : BuildOptions) (results : List Extraction) (contents : Mapping Text) :
    build o results contents =
      empty.addAll ((results.flatMap (nodesOf o contents)).map .node ++
        ((nodesOnly o contents results).edgesOf o.policy results).map .relationship) := by
  rw [addAll, List.foldl_append, List.foldl_map, List.foldl_map]
  rfl

theorem wellFormed_build (o : BuildOptions) (results : List Extraction) (contents : Mapping Text) :
    (build o results contents).WellFormed := by
  rw [build_eq_addAll]
  exact wellFormed_empty.addAll _

/-- Nodes come from additions only. -/
theorem mem_nodes_addAll {g : Graph} {as : List Addition} {n : Node} (hn : n ∈ (g.addAll as).nodes) :
    n ∈ g.nodes ∨ .node n ∈ as := by
  induction as generalizing g with
  | nil => exact Or.inl hn
  | cons a as ih =>
      rcases ih (g := (g.add a).1) hn with hn | hn
      · by_cases ha : g.Allows a
        · rw [add_of_allows ha] at hn
          cases a with
          | node m =>
              rcases List.mem_append.mp hn with hn | hn
              · exact Or.inl hn
              · rw [List.mem_singleton.mp hn]
                exact Or.inr List.mem_cons_self
          | relationship r => exact Or.inl hn
        · rw [add_of_not_allows ha] at hn
          exact Or.inl hn
      · exact Or.inr (List.mem_cons_of_mem a hn)

theorem mem_nodes_build {o : BuildOptions} {results : List Extraction} {contents : Mapping Text}
    {n : Node} (hn : n ∈ (build o results contents).nodes) :
    ∃ e ∈ results, n ∈ nodesOf o contents e := by
  rw [build_eq_addAll] at hn
  rcases mem_nodes_addAll hn with hn | hn
  · simp [empty] at hn
  · simpa using hn

/-- **Graphs stay well formed.** After any sequence of additions to the empty graph, identities are
distinct, relationships join nodes and do not repeat, and the counts add up. Any further addition
answers true exactly if it is put at the end, which it is if it is allowed, and leaves the graph as it
was otherwise; whatever is added later, the graph stays at the front unchanged. A graph that is built
from files is the outcome of such a sequence. -/
theorem additions_wellFormed (as : List Addition) :
    (empty.addAll as).WellFormed ∧ Stats.Counts (empty.addAll as).stats (empty.addAll as) ∧
      (∀ a, let g := empty.addAll as
        ((g.add a).2 = true ↔ g.Allows a) ∧ ((g.add a).2 = true ↔ (g.add a).1 = g.append a) ∧
          ((g.add a).2 = false ↔ (g.add a).1 = g)) ∧
      (∀ more, (empty.addAll as).IsPrefix (empty.addAll (as ++ more))) ∧
      ∀ o results contents, ∃ as', build o results contents = empty.addAll as' := by
  refine ⟨wellFormed_empty.addAll as, counts_stats _, add_answer _, fun more => ?_,
    fun o results contents => ⟨_, build_eq_addAll o results contents⟩⟩
  have hmore : empty.addAll (as ++ more) = (empty.addAll as).addAll more := List.foldl_append
  rw [hmore]
  exact isPrefix_addAll _ more

end Graph

end CodeAtlas
