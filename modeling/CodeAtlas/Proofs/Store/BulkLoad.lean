import CodeAtlas.Proofs.Comment.Alignment
import CodeAtlas.Proofs.Extraction.Distinct
import CodeAtlas.Proofs.Graph.WellFormed
import CodeAtlas.Proofs.Store.Database
import CodeAtlas.Proofs.Store.Readiness
import CodeAtlas.Proofs.Text.Lines

set_option autoImplicit false

/-! # Loading a built graph

A built graph can be loaded whenever its tables can be written. They are read back field by field
(`Table.body_nodes`, `Table.body_edges`). Every node has an identity that is not empty and occurs once,
and its lines are numbers that can be stored (`StoredNode.isStorable_build`), so the engine takes all
rows in; every relationship then finds both its ends. A table with no row under its header is not copied
at all, which leaves the same database as copying no rows would.

`Store.reset_load` says that what is stored is the graph and nothing else, whatever the store was used
for before and whichever engine runs the database, as long as it does what is relied on. What cannot be
written is not loaded (`Store.load_unwritten`).
-/

namespace CodeAtlas

/-! ## A graph as rows -/

/-- The row that a node is stored as. -/
def StoredNode.ofNode (n : Node) : StoredNode :=
  { id := n.id
    label := some n.label.name
    name := Database.textOf n.name
    path := Database.textOf n.path
    startLine := some n.startLine
    endLine := some n.endLine
    isExported := some n.isExported
    content := n.content.bind Database.textOf }

/-- The edge that a relationship is stored as. -/
def NamedEdge.ofRelationship (r : Relationship) : NamedEdge :=
  ⟨r.source, r.target, some r.kind.name⟩

/-- The rows of a graph. -/
def Tables.ofGraph (g : Graph) : Tables :=
  { nodes := g.nodes.map StoredNode.ofNode
    edges := g.relationships.map NamedEdge.ofRelationship }

theorem plain_textOf (t : Text) :
    ((Database.textOf t).elim Table.Field.absent Table.Field.text).plain = t := by
  cases t <;> rfl

/-- A node is written as its row. -/
theorem StoredNode.plain_fields_ofNode (n : Node) :
    (ofNode n).fields.map Table.Field.plain = (Table.nodeFields n).map Table.Field.plain := by
  have hcontent : ((n.content.bind Database.textOf).elim Table.Field.absent Table.Field.text).plain =
      (n.content.elim Table.Field.absent Table.Field.text).plain := by
    cases n.content with
    | none => rfl
    | some t => exact plain_textOf t
  simp only [fields, ofNode, Table.nodeFields, List.map_cons, List.map_nil, plain_textOf, hcontent]
  rfl

theorem map_id_ofNode (nodes : List Node) :
    (nodes.map StoredNode.ofNode).map (·.id) = nodes.map (·.id) := by
  rw [List.map_map]
  rfl

/-! ## Tables with and without rows -/

namespace Table

theorem hasRows_append {head body : Text} (hhead : '\n' ∉ head) :
    hasRows (head ++ '\n' :: body) = !(Text.trim body).isEmpty := by
  have hdrop : (head ++ '\n' :: body).dropWhile (· != '\n') = '\n' :: body := by
    rw [List.dropWhile_append_of_pos fun c hc => ?_]
    · rfl
    · have hne : c ≠ '\n' := fun h => hhead (h ▸ hc)
      simpa using hne
  rw [hasRows, hdrop, List.drop_one, List.tail_cons]

/-- A text that is trimmed to nothing is blank. -/
theorem isBlank_of_trim_eq_nil {t : Text} (h : Text.trim t = []) :
    ∀ c ∈ t, Text.isBlank c = true := by
  unfold Text.trim Text.dropRight at h
  rw [List.reverse_eq_nil_iff, List.dropWhile_eq_nil_iff] at h
  intro c hc
  rw [← List.takeWhile_append_dropWhile (p := Text.isBlank) (l := t), List.mem_append] at hc
  rcases hc with hc | hc
  · exact List.mem_takeWhile_imp hc
  · exact h c (List.mem_reverse.mpr hc)

/-- Behind the first line break there is at least what follows any other one. -/
theorem mem_afterBreak (head : Text) {body : Text} {c : Char} (hc : c ∈ body) :
    c ∈ ((head ++ '\n' :: body).dropWhile (· != '\n')).drop 1 := by
  induction head with
  | nil => exact hc
  | cons x head ih =>
      by_cases hx : x = '\n'
      · rw [hx, List.cons_append, List.dropWhile_cons_of_neg (by decide)]
        exact List.mem_append_right head (List.mem_cons_of_mem '\n' hc)
      · rwa [List.cons_append, List.dropWhile_cons_of_pos (by simpa using hx)]

/-- Quoting loses no character. -/
theorem mem_write {f : Field} {c : Char} (hc : c ∈ f.plain) (delimiter : Text) :
    c ∈ f.write delimiter := by
  have hquote : ∀ t : Text, c ∈ t → c ∈ quote delimiter t := by
    intro t ht
    unfold quote
    split
    · have hdouble : c ∈ doubleQuotes t := by
        refine List.mem_flatMap.mpr ⟨c, ht, ?_⟩
        split <;> simp_all
      exact List.mem_append_left ['"'] (List.mem_cons_of_mem '"' hdouble)
    · exact ht
  cases f with
  | absent => exact hc
  | flag b => exact hc
  | number n => exact hquote _ hc
  | text t => exact hquote _ hc

theorem mem_row {fields : List Field} {f : Field} (hf : f ∈ fields) {c : Char}
    (hc : c ∈ f.plain) (delimiter : Text) : c ∈ row delimiter fields := by
  have hwritten : f.write delimiter <:+: delimiter.intercalate (fields.map (Field.write delimiter)) :=
    Text.infix_intercalate (List.mem_map_of_mem hf)
  exact List.mem_append_left _ (hwritten.mem (mem_write hc delimiter))

/-- A row that shows something: some field of it has a character that is not blank. -/
def Visible (fields : List Field) : Prop :=
  ∃ f ∈ fields, ∃ c ∈ f.plain, Text.isBlank c = false

theorem visible_nodeFields (n : Node) : Visible (nodeFields n) := by
  refine ⟨.flag n.isExported, by simp [nodeFields], 'e', ?_, by decide⟩
  cases n.isExported <;> decide

theorem visible_edgeFields (r : Relationship) : Visible (edgeFields r) := by
  refine ⟨.text r.kind.name, by simp [edgeFields], 'S', ?_, by decide⟩
  cases r.kind <;> decide

/-- **A table that seems to have no rows has none**, whatever the delimiter is. -/
theorem eq_nil_of_hasRows {α : Type} {delimiter : Text} {columns : List Text}
    {fieldsOf : α → List Field} (hfields : ∀ a, Visible (fieldsOf a)) {items : List α}
    (h : hasRows (row delimiter (columns.map .text) ++
      items.flatMap fun a => row delimiter (fieldsOf a)) = false) : items = [] := by
  rw [hasRows, Bool.not_eq_false', List.isEmpty_iff] at h
  have hblank := isBlank_of_trim_eq_nil h
  cases items with
  | nil => rfl
  | cons a items =>
      obtain ⟨f, hf, c, hc, hvisible⟩ := hfields a
      have hmem : c ∈ (a :: items).flatMap fun a => row delimiter (fieldsOf a) :=
        List.mem_flatMap.mpr ⟨a, List.mem_cons_self, mem_row hf hc delimiter⟩
      rw [row, List.append_assoc, List.singleton_append] at hblank
      rw [hblank c (mem_afterBreak _ hmem)] at hvisible
      cases hvisible

/-- **A table has rows exactly if it has items**, for no row is blank. -/
theorem hasRows_table {α : Type} {columns : List Text} {fieldsOf : α → List Field}
    (hcolumns : '\n' ∉ [','].intercalate (columns.map fun c => (Field.text c).write [',']))
    (hfields : ∀ a, Visible (fieldsOf a)) (items : List α) :
    hasRows (row [','] (columns.map .text) ++
      items.flatMap fun a => row [','] (fieldsOf a)) = !items.isEmpty := by
  cases items with
  | nil =>
      have hheader : row [','] (columns.map .text) =
          [','].intercalate (columns.map fun c => (Field.text c).write [',']) ++ ['\n'] := by
        rw [row, List.map_map]
        rfl
      rw [hheader, List.append_assoc, List.singleton_append, hasRows_append hcolumns]
      rfl
  | cons a items =>
      apply eq_true_of_ne_false
      intro hnone
      exact absurd (eq_nil_of_hasRows hfields hnone) (List.cons_ne_nil a items)

theorem hasRows_nodes (g : Graph) : hasRows (nodes [','] g) = !g.nodes.isEmpty :=
  hasRows_table (by decide) visible_nodeFields g.nodes

theorem hasRows_edges (g : Graph) : hasRows (edges [','] g) = !g.relationships.isEmpty :=
  hasRows_table (by decide) visible_edgeFields g.relationships

/-- **The rows of the node table** are those of the graph. -/
theorem body_nodes {d : Char} (hd : Separates d) (g : Graph) :
    body d (nodes [d] g) = (Tables.ofGraph g).nodes.map fun n => n.fields.map Field.plain := by
  rw [body, nodes, read_table hd nodeColumns (by simp [nodeColumns]) nodeFields
    (fun n => by simp [nodeFields]), List.drop_one, List.tail_cons, Tables.ofGraph, List.map_map]
  exact List.map_congr_left fun n _ => (StoredNode.plain_fields_ofNode n).symm

theorem body_edges {d : Char} (hd : Separates d) (g : Graph) :
    body d (edges [d] g) = (Tables.ofGraph g).edges.map fun e => e.fields.map Field.plain := by
  rw [body, edges, read_table hd edgeColumns (by simp [edgeColumns]) edgeFields
    (fun r => by simp [edgeFields]), List.drop_one, List.tail_cons, Tables.ofGraph, List.map_map]
  rfl

end Table

/-! ## Every built graph can be stored -/

theorem Text.lineOf_le (t : Text) (i : Int) : lineOf t i ≤ t.length := by
  calc lineOf t i ≤ (t.take i.toNat).length := List.count_le_length
    _ ≤ t.length := List.length_take_le' _ _

/-- The lines of a definition are lines of a text of this length. -/
def Definition.WithinLines (length : Nat) (d : Definition) : Prop :=
  (∃ n ≤ length, d.startLine = (n : Nat)) ∧ ∃ n ≤ length, d.endLine = (n : Nat)

namespace Scan

/-- What is true of lines at every point of a scan. -/
structure Lined (outline : Text) (s : Scan) : Prop where
  outline_eq : s.outline = outline
  withinLines : ∀ d ∈ s.definitions, d.WithinLines outline.length

theorem Lined.step {Body : Text → Extent → Prop} {outline : Text} {s t : Scan}
    (hstep : Step Body s t) (h : s.Lined outline) : t.Lined outline := by
  cases hstep with
  | addImport path =>
      simp only [Scan.addImport]
      split
      · exact h
      · exact { h with }
  | @define d hd =>
      by_cases hseen : (d.label, d.name, d.start) ∈ s.seen
      · rwa [define_of_seen hseen]
      · rw [define_of_not_seen hseen]
        refine { h with withinLines := fun x hx => ?_ }
        rcases List.mem_append.mp hx with hx | hx
        · exact h.withinLines x hx
        · rw [List.mem_singleton.mp hx, ← h.outline_eq]
          exact ⟨⟨_, Text.lineOf_le _ _, rfl⟩, _, Text.lineOf_le _ _, rfl⟩
  | addContainer hx e =>
      unfold Scan.addContainer
      split
      · exact { h with }
      · exact h
  | addScope hx he =>
      unfold Scan.addScope
      split
      · split
        · exact { h with }
        · exact h
      · exact h
  | addHeritage hx clauses kind => exact { h with }

end Scan

theorem Language.withinLines_extract (l : Language) (path source : Text) :
    ∀ d ∈ (l.extract path source).definitions, d.WithinLines source.length := by
  intro d hd
  have hlined : (l.scan path source).Lined (l.commentStyle.outline source) :=
    (l.run_scan path source).invariant Scan.Lined.step ⟨rfl, by simp⟩
  have hlength : (l.commentStyle.outline source).length = source.length :=
    ((l.commentStyle.blanked_code source).trans (l.commentStyle.blanked_outline source)).length_eq
  rw [← hlength]
  exact hlined.withinLines d ((l.definitions_extract_perm path source).mem_iff.mp hd)

/-- What is extracted from one file: nothing but the file itself, or what is found in a text that fits
in memory. -/
inductive Extraction.IsResult : Extraction → Prop where
  | unread (path : Text) (language : Option Language) :
      IsResult { path := path, language := language }
  | scanned (l : Language) (path source : Text) (h : source.length < 2 ^ 63) :
      IsResult (l.extract path source)

theorem Extraction.isResult_ofFile (fails : Language → Bool) (path : Text) {source : Text}
    (h : source.length < 2 ^ 63) : (ofFile fails path source).IsResult := by
  unfold ofFile
  split
  · exact .unread path none
  · split
    · exact .unread path _
    · exact .scanned _ path source h

namespace StoredNode

/-- A node is stored as a row that can be stored, if it has an identity and its lines are in range. -/
theorem isStorable_ofNode {n : Node} (hid : n.id ≠ [])
    (hstart : ∃ k < 2 ^ 63, n.startLine = (k : Nat)) (hend : ∃ k < 2 ^ 63, n.endLine = (k : Nat)) :
    (ofNode n).IsStorable := by
  have htext : ∀ t : Text, Database.textOf t ≠ some [] := by
    intro t
    cases t <;> simp [Database.textOf]
  have hlabel : some n.label.name ≠ some [] := by
    cases n.label <;> decide
  have hcontent : n.content.bind Database.textOf ≠ some [] := by
    cases n.content with
    | none => simp
    | some t => exact htext t
  exact
    { id_ne_nil := hid
      label_ne := hlabel
      name_ne := htext _
      path_ne := htext _
      startLine := fun k hk => by
        obtain ⟨m, hm, heq⟩ := hstart
        obtain rfl := Option.some.inj hk
        omega
      endLine := fun k hk => by
        obtain ⟨m, hm, heq⟩ := hend
        obtain rfl := Option.some.inj hk
        omega
      content_ne := hcontent }

theorem isStorable_fileNode (o : BuildOptions) (path : Text) {content : Text}
    (h : content.length < 2 ^ 63) : (ofNode (Graph.fileNode o path content)).IsStorable := by
  refine isStorable_ofNode ?_ ⟨0, by decide, rfl⟩ ⟨(Text.lines content).length - 1, ?_, ?_⟩
  · simp [Graph.fileNode, Identity.ofFile, Identity.ofParts]
  · have hlines : (Text.lines content).length = content.count '\n' + 1 := Text.length_splitOn _ _
    have hcount : content.count '\n' ≤ content.length := List.count_le_length
    omega
  · rfl

/-- **A built graph can be stored.** -/
theorem isStorable_build {o : BuildOptions} {results : List Extraction}
    {contents : Mapping Text} (hresults : ∀ e ∈ results, e.IsResult)
    (hcontents : ∀ c ∈ contents, c.2.length < 2 ^ 63) :
    ∀ n ∈ (Graph.build o results contents).nodes, (ofNode n).IsStorable := by
  intro n hn
  obtain ⟨e, he, hn⟩ := Graph.mem_nodes_build hn
  rcases List.mem_cons.mp hn with rfl | hn
  · refine isStorable_fileNode o e.path ?_
    cases hget : contents.get? e.path with
    | none => simp
    | some content =>
        obtain ⟨l₁, l₂, heq, -⟩ := List.lookup_eq_some_iff.mp hget
        exact hcontents (e.path, content) (by simp [heq])
  · obtain ⟨d, hd, rfl⟩ := List.mem_map.mp hn
    cases hresults e he with
    | unread path language => simp at hd
    | scanned l path source hsource =>
        have hscan := (l.definitions_extract_perm path source).mem_iff.mp hd
        obtain ⟨q, -, hid, -⟩ := (l.keyed_scan path source).keyed d hscan
        obtain ⟨⟨first, hfirst, hstart⟩, last, hlast, hend⟩ :=
          l.withinLines_extract path source d hd
        refine isStorable_ofNode ?_ ⟨first, Nat.lt_of_le_of_lt hfirst hsource, hstart⟩
          ⟨last, Nat.lt_of_le_of_lt hlast hsource, hend⟩
        show d.id ≠ []
        simp [hid, Identity.ofDefinition, Identity.ofParts]

end StoredNode

/-! ## Loading both tables -/

section

variable [Engine] {laws : Engine.Laws}

namespace Engine.Laws

theorem TakesIn.copyTable_nodes (ht : laws.TakesIn) {g : Graph} (hg : g.WellFormed)
    (hnodes : ∀ n ∈ g.nodes, (StoredNode.ofNode n).IsStorable) {db : State} (h : laws.Holds db {}) :
    ∃ db', Store.copyTable false (Engine.copyNodes db [',']) (Table.nodes [','] g) db = (db', true) ∧
      laws.Holds db' { nodes := (Tables.ofGraph g).nodes } := by
  unfold Store.copyTable
  rw [Table.hasRows_nodes]
  cases hempty : g.nodes.isEmpty with
  | true =>
      refine ⟨db, rfl, ?_⟩
      rw [Tables.ofGraph, List.isEmpty_iff.mp hempty]
      exact h
  | false =>
      refine ht.copyNodes h (Table.body_nodes (by decide) g) (List.forall_mem_map.mpr hnodes) ?_
      show ((g.nodes.map StoredNode.ofNode).map (·.id)).Nodup
      rw [map_id_ofNode]
      exact hg.ids_nodup

theorem TakesIn.copyTable_edges (ht : laws.TakesIn) {g : Graph} (hg : g.WellFormed) {db : State}
    (h : laws.Holds db { nodes := (Tables.ofGraph g).nodes }) :
    ∃ db', Store.copyTable false (Engine.copyEdges db [',']) (Table.edges [','] g) db = (db', true) ∧
      laws.Holds db' (.ofGraph g) := by
  unfold Store.copyTable
  rw [Table.hasRows_edges]
  cases hempty : g.relationships.isEmpty with
  | true =>
      refine ⟨db, rfl, ?_⟩
      rw [Tables.ofGraph, List.isEmpty_iff.mp hempty]
      exact h
  | false =>
      refine ht.copyEdges h (Table.body_edges (by decide) g) ?_
      refine List.forall_mem_map.mpr fun r hr => ?_
      have hkind : some r.kind.name ≠ some [] := by
        cases r.kind <;> decide
      have hids : ∀ n ∈ g.nodes, n.id ∈ (Tables.ofGraph g).nodes.map (·.id) := by
        intro n hn
        show n.id ∈ (g.nodes.map StoredNode.ofNode).map (·.id)
        rw [map_id_ofNode]
        exact List.mem_map_of_mem hn
      -- Every relationship of the graph finds the rows of its ends.
      obtain ⟨⟨n, hn, hsource⟩, m, hm, htarget⟩ := hg.ends_mem r hr
      have hsource' := hids n hn
      have htarget' := hids m hm
      rw [hsource] at hsource'
      rw [htarget] at htarget'
      exact ⟨hkind, hsource', htarget'⟩

theorem hasSize_of_holds {db : State} {g : Graph} (h : laws.Holds db (.ofGraph g)) :
    laws.HasSize db g :=
  ⟨.ofGraph g, h, List.length_map _, List.length_map _⟩

end Engine.Laws

/-! ## From every state -/

namespace Store

/-- A store without a connection takes a graph in, if its tables can be written. -/
theorem load_graph (ht : laws.TakesIn) {s : Store} (hs : s.IsPlain) (hnone : s.connection = none) {g : Graph}
    (hg : g.WellFormed) (hnodes : ∀ n ∈ g.nodes, (StoredNode.ofNode n).IsStorable) {faults : Faults}
    (hfaults : faults.OnlyWriting)
    (hwritten : faults (.writeTable (Table.nodes s.delimiter g)) = false)
    (hwritten' : faults (.writeTable (Table.edges s.delimiter g)) = false) :
    ∃ s' db, s.load faults (Table.nodes s.delimiter g) (Table.edges s.delimiter g)
        = (s', ⟨true, g.nodeCount⟩) ∧
      s'.isReady = true ∧ s'.connection = some ⟨db, true⟩ ∧ laws.Holds db (.ofGraph g) := by
  obtain ⟨medium, delimiter, connection, ready, loading⟩ := s
  obtain ⟨rfl, rfl⟩ := hs
  obtain rfl : connection = none := hnone
  -- The nodes come into empty tables, the edges to the nodes.
  obtain ⟨db₁, hcopy₁, hholds₁⟩ := ht.copyTable_nodes hg hnodes laws.holds_new
  obtain ⟨db₂, hcopy₂, hholds₂⟩ := ht.copyTable_edges hg hholds₁
  have hcount := (Engine.Laws.hasSize_of_holds hholds₂).countNodes_eq
  refine ⟨{ connection := some ⟨db₂, true⟩, ready := true }, db₂, ?_, rfl, rfl, hholds₂⟩
  have hok : ∀ c, (∀ table, c ≠ .writeTable table) → faults c = false := hfaults
  simp [load, loadTables, openUp, found, hok, hwritten, hwritten', hcopy₁, hcopy₂, hcount]

/-- **What cannot be written is not loaded**, and the store is not ready then. -/
theorem load_unwritten (s : Store) {faults : Faults} {nodes edges : Text}
    (h : faults (.writeTable nodes) = true ∨ faults (.writeTable edges) = true) :
    (s.load faults nodes edges).2 = .failed ∧ (s.load faults nodes edges).1.isReady = false := by
  have hfailed : (s.load faults nodes edges).2 = .failed := by
    have hnone : ∀ s : Store, (s.loadTables faults nodes edges).2 = none := by
      intro s
      unfold loadTables
      split
      · rfl
      · split
        · rfl
        · rw [if_pos (by simpa using h)]
    unfold load
    split
    · rfl
    · next heq =>
      have hcount := hnone { s with loading := true, ready := false }
      rw [heq] at hcount
      cases hcount
  exact ⟨hfailed, by rw [isReady_load, hfailed]; rfl⟩

/-- The counts of a store that is ready are those of its database. -/
theorem stats_of_hasSize {s : Store} {db : Engine.State} {g : Graph} (hready : s.isReady = true)
    (hconn : s.connection = some ⟨db, true⟩) (h : laws.HasSize db g) {faults : Faults}
    (hfaults : faults .runQuery = false) : s.stats faults = ⟨g.nodeCount, g.edgeCount⟩ := by
  simp [stats, hready, hconn, hfaults, h.countNodes_eq, h.countEdges_eq]

/-- **Every built graph whose tables can be written is loaded faithfully, from every state.** Take any
engine that does what is relied on and takes sound tables in, any session of a store in memory, with any
calls failing on the way, and any graph that is built from extracted files. From then on no call fails,
but a table may be of the kind that cannot be written. Resetting the store succeeds. If both tables of
the graph can be written, loading them succeeds with the number of its nodes; the store is then ready,
it holds the graph and nothing else, and its counts are those of the graph. Otherwise the load fails,
and the store is not ready. Texts are taken to fit in memory, so that every line has a number that can
be stored. -/
theorem reset_load (ht : laws.TakesIn) (ops : List (Operation × Faults)) (o : BuildOptions)
    (results : List Extraction) (contents : Mapping Text) (hresults : ∀ e ∈ results, e.IsResult)
    (hcontents : ∀ c ∈ contents, c.2.length < 2 ^ 63) (faults : Faults)
    (hfaults : faults.OnlyWriting) :
    let s := ({} : Store).performAll ops
    let g := Graph.build o results contents
    ∃ s₁, s.reset faults = (s₁, .ok ()) ∧
      let nodes := Table.nodes s₁.delimiter g
      let edges := Table.edges s₁.delimiter g
      (faults (.writeTable nodes) = false → faults (.writeTable edges) = false →
        ∃ s₂ db, s₁.load faults nodes edges = (s₂, ⟨true, g.nodeCount⟩) ∧ s₂.isReady = true ∧
          s₂.connection = some ⟨db, true⟩ ∧ laws.Holds db (.ofGraph g) ∧
          s₂.stats faults = ⟨g.nodeCount, g.edgeCount⟩) ∧
      (faults (.writeTable nodes) = true ∨ faults (.writeTable edges) = true →
        (s₁.load faults nodes edges).2 = .failed ∧ (s₁.load faults nodes edges).1.isReady = false) := by
  intro s g
  have hplain : s.IsPlain := IsPlain.performAll ⟨rfl, rfl⟩ ops
  obtain ⟨s₁, hreset, hplain₁, hnone⟩ := hplain.reset_onlyWriting hfaults
  refine ⟨s₁, hreset, fun hnodes hedges => ?_, s₁.load_unwritten⟩
  obtain ⟨s₂, db, hload, hready, hconn, hholds⟩ := load_graph ht hplain₁ hnone
    (Graph.wellFormed_build o results contents) (StoredNode.isStorable_build hresults hcontents)
    hfaults hnodes hedges
  exact ⟨s₂, db, hload, hready, hconn, hholds,
    stats_of_hasSize hready hconn (Engine.Laws.hasSize_of_holds hholds) (hfaults _ (by simp))⟩

end Store

end

namespace Store

section

attribute [local instance] Database.plain

/-- A session in which a load is refused halfway, with the node table in, and the database cannot be
closed. -/
def brokenSession : List (Operation × Faults) :=
  [(.load "id,label,name,filePath,startLine,endLine,isExported,content\na,,,,,,,\n".toList
      "sourceId,targetId,type\na,b,CALLS\n".toList, .none),
    (.query "MATCH (n:CodeNode) RETURN count(n) AS cnt".toList [], .none),
    (.close, fun c => c == .closeDatabase)]

/-- After such a session, with a file that has a quoted line break and one that is not read. -/
theorem reset_load_broken :
    let files := [Extraction.ofFile (fun _ => false) "a.js".toList "function f() \x7b\n \"\n\x7d".toList,
      Extraction.ofFile (fun _ => false) "b.md".toList [','] ]
    let contents := [("a.js".toList, "function f() \x7b\n \"\n\x7d".toList)]
    let g := Graph.build {} files contents
    Database.laws.TakesIn ∧ (∀ e ∈ files, e.IsResult) ∧ (∀ c ∈ contents, c.2.length < 2 ^ 63) ∧
      Faults.none.OnlyWriting ∧ ∃ s₁ s₂ db,
        (({} : Store).performAll brokenSession).reset .none = (s₁, .ok ()) ∧
        s₁.load .none (Table.nodes s₁.delimiter g) (Table.edges s₁.delimiter g)
          = (s₂, ⟨true, g.nodeCount⟩) ∧
        s₂.isReady = true ∧ s₂.connection = some ⟨db, true⟩ ∧ Database.Holds db (.ofGraph g) ∧
        s₂.stats .none = ⟨g.nodeCount, g.edgeCount⟩ := by
  intro files contents g
  have hfiles : ∀ e ∈ files, e.IsResult := by
    intro e he
    rcases List.mem_pair.mp he with rfl | rfl
    · exact Extraction.isResult_ofFile _ _ (by decide)
    · exact Extraction.isResult_ofFile _ _ (by decide)
  have hcontents : ∀ c ∈ contents, c.2.length < 2 ^ 63 := by
    decide
  have hfaults : Faults.none.OnlyWriting := fun _ _ => rfl
  obtain ⟨s₁, hreset, hloaded, -⟩ :=
    reset_load Database.takesIn brokenSession {} files contents hfiles hcontents .none hfaults
  obtain ⟨s₂, db, hload⟩ := hloaded rfl rfl
  exact ⟨Database.takesIn, hfiles, hcontents, hfaults, s₁, s₂, db, hreset, hload⟩

/-- The writing of a table fails on a character that has no encoding. The characters of a text all have
one, so the replacement character stands for it. -/
def unwritable : Faults := .ofWriting (·.contains '\uFFFD')

/-- **A file with such a character is in the graph but not in the store**: the load fails, although the
store is new and the engine does what is relied on. -/
theorem load_unwritable :
    let files := [Extraction.ofFile (fun _ => false) "a.md".toList ['\uFFFD'] ]
    let g := Graph.build {} files [("a.md".toList, ['\uFFFD'])]
    (∀ e ∈ files, e.IsResult) ∧ unwritable.OnlyWriting ∧ g.nodeCount = 1 ∧
      ∃ s₁, ({} : Store).reset unwritable = (s₁, .ok ()) ∧
        let r := s₁.load unwritable (Table.nodes s₁.delimiter g) (Table.edges s₁.delimiter g)
        r.2 = ⟨false, 0⟩ ∧ r.1.isReady = false ∧ r.1.stats unwritable = ⟨0, 0⟩ := by
  intro files g
  have hfiles : ∀ e ∈ files, e.IsResult := by
    intro e he
    rw [List.mem_singleton.mp he]
    exact Extraction.isResult_ofFile _ _ (by decide)
  have hfaults : unwritable.OnlyWriting := by
    intro c hc
    cases c with
    | writeTable table => exact absurd rfl (hc table)
    | _ => rfl
  have hunwritten : unwritable (.writeTable (Table.nodes [','] g)) = true := by
    decide +kernel
  obtain ⟨hfailed, hready⟩ :=
    ({} : Store).load_unwritten (.inl hunwritten)
  exact ⟨hfiles, hfaults, by decide +kernel, {}, rfl, hfailed, hready,
    stats_of_not_ready hready unwritable⟩

end

end Store

end CodeAtlas
