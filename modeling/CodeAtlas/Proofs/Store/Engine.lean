import CodeAtlas.Proofs.Table.RoundTrip
import CodeAtlas.Store.Database

set_option autoImplicit false

/-! # What is relied on of an engine

An engine is free in what a database is and in how it works. What a store relies on is that the two
tables of a database have rows, and that copying a table into them adds one for each row that is read
from it or refuses it (`Engine.Laws`). That a store can be filled at all needs more: a table with nothing
wrong in it is not refused (`Engine.Laws.TakesIn`). The laws speak of the rows (`Tables`) through a
relation that the engine brings with it, so that a database that has lost a table holds no rows at all.

A table that is copied is text. Under a header row it has one row for each record, with the texts of its
values (`StoredNode.fields`, `NamedEdge.fields`); a missing value has no text.
-/

namespace CodeAtlas

/-- The rows of both tables. -/
structure Tables where
  nodes : List StoredNode := []
  edges : List NamedEdge := []

/-! ## Records as rows -/

/-- The values of a node row in the order of its columns. -/
def StoredNode.fields (n : StoredNode) : List Table.Field :=
  [.text n.id, n.label.elim .absent .text, n.name.elim .absent .text, n.path.elim .absent .text,
    n.startLine.elim .absent .number, n.endLine.elim .absent .number,
    n.isExported.elim .absent .flag, n.content.elim .absent .text]

/-- The values of an edge. -/
def NamedEdge.fields (e : NamedEdge) : List Table.Field :=
  [.text e.source, .text e.target, e.kind.elim .absent .text]

/-- A node row that can be stored: it has an identity, its numbers take sixty-four bits, and a text that
is there is not empty. -/
structure StoredNode.IsStorable (n : StoredNode) : Prop where
  id_ne_nil : n.id ≠ []
  label_ne : n.label ≠ some []
  name_ne : n.name ≠ some []
  path_ne : n.path ≠ some []
  startLine : ∀ k ∈ n.startLine, -2 ^ 63 ≤ k ∧ k < 2 ^ 63
  endLine : ∀ k ∈ n.endLine, -2 ^ 63 ≤ k ∧ k < 2 ^ 63
  content_ne : n.content ≠ some []

/-- The rows of a table under its header. -/
def Table.body (d : Char) (table : Text) : List (List Text) := (Table.read d table).drop 1

/-! ## The laws -/

namespace Engine

variable [Engine]

/-- **What is relied on of every engine.** Some of its databases hold the rows of two tables, among them a
new one in memory once its tables are created, and the rows of these can be counted. A table that is in
has come in with one record for each row. -/
structure Laws where
  /-- A database has both tables, with these rows. -/
  Holds : State → Tables → Prop
  holds_new : Holds (createTables (new false)) {}
  countNodes_eq : ∀ {db t}, Holds db t → countNodes db = some t.nodes.length
  countEdges_eq : ∀ {db t}, Holds db t → countEdges db = some t.edges.length
  of_copyNodes : ∀ {db db' t d table}, Holds db t → Table.Separates d →
    copyNodes db [d] table = (db', true) →
    ∃ rows, rows.length = (Table.body d table).length ∧ Holds db' { t with nodes := t.nodes ++ rows }
  of_copyEdges : ∀ {db db' t d table}, Holds db t → Table.Separates d →
    copyEdges db [d] table = (db', true) →
    ∃ rows, rows.length = (Table.body d table).length ∧ Holds db' { t with edges := t.edges ++ rows }

/-- **A sound table is taken in.** A node table comes in if its identities are new, an edge table if its
ends are all there, and then the database has exactly their rows besides what it had. -/
structure Laws.TakesIn (laws : Laws) : Prop where
  copyNodes : ∀ {db t table rows}, laws.Holds db t →
    Table.body ',' table = rows.map (fun n => n.fields.map Table.Field.plain) →
    (∀ n ∈ rows, StoredNode.IsStorable n) → ((t.nodes ++ rows).map (·.id)).Nodup →
    ∃ db', Engine.copyNodes db [','] table = (db', true) ∧
      laws.Holds db' { t with nodes := t.nodes ++ rows }
  copyEdges : ∀ {db t table rows}, laws.Holds db t →
    Table.body ',' table = rows.map (fun e => e.fields.map Table.Field.plain) →
    (∀ e ∈ rows, e.kind ≠ some [] ∧ e.source ∈ t.nodes.map (·.id) ∧ e.target ∈ t.nodes.map (·.id)) →
    ∃ db', Engine.copyEdges db [','] table = (db', true) ∧
      laws.Holds db' { t with edges := t.edges ++ rows }

/-- Delimiters with which tables are taken in exactly or not at all: a single one that tells the fields
apart, or one that the engine does not take. -/
def IsExactDelimiter (delimiter : Text) : Prop :=
  (∃ d, delimiter = [d] ∧ Table.Separates d) ∨
    ∀ db table, (copyNodes db delimiter table).2 = false ∧ (copyEdges db delimiter table).2 = false

namespace Laws

variable (laws : Laws)

/-- A question that leaves the rows of every database as they are, whether it is answered or not. -/
def OnlyReads (words : Text) : Prop :=
  ∀ db t params, laws.Holds db t → laws.Holds (ask db words params).1 t

/-- The database has as many nodes and edges as a graph has nodes and relationships. -/
def HasSize (db : State) (g : Graph) : Prop :=
  ∃ t, laws.Holds db t ∧ t.nodes.length = g.nodeCount ∧ t.edges.length = g.edgeCount

variable {laws}

theorem HasSize.countNodes_eq {db : State} {g : Graph} (h : laws.HasSize db g) :
    countNodes db = some g.nodeCount := by
  obtain ⟨t, ht, hnodes, -⟩ := h
  rw [laws.countNodes_eq ht, hnodes]

theorem HasSize.countEdges_eq {db : State} {g : Graph} (h : laws.HasSize db g) :
    countEdges db = some g.edgeCount := by
  obtain ⟨t, ht, -, hedges⟩ := h
  rw [laws.countEdges_eq ht, hedges]

theorem HasSize.ask {db : State} {g : Graph} (h : laws.HasSize db g) {words : Text}
    (hwords : laws.OnlyReads words) (params : Mapping Text) :
    laws.HasSize (Engine.ask db words params).1 g := by
  obtain ⟨t, ht, hsize⟩ := h
  exact ⟨t, hwords db t params ht, hsize⟩

end Laws

end Engine

end CodeAtlas
