import CodeAtlas.Label
import CodeAtlas.Mapping

set_option autoImplicit false

/-! # The knowledge graph

Nodes have distinct identities, relationships join nodes of the graph, and no relationship occurs
twice. Both are kept in the order in which they were added, and nothing is ever taken out: adding
what is not allowed leaves the graph as it was and says so.
-/

namespace CodeAtlas

structure Node where
  id : Text
  label : Label
  name : Text
  path : Text
  startLine : Int
  endLine : Int
  isExported : Bool := false
  content : Option Text := none
deriving DecidableEq

structure Relationship where
  source : Text
  target : Text
  kind : RelationKind
deriving DecidableEq

structure Graph where
  nodes : List Node := []
  relationships : List Relationship := []
deriving DecidableEq

/-- How many nodes there are of each label, and relationships of each kind, in the order in which
they occur first. -/
structure Stats where
  nodes : Mapping Nat
  relationships : Mapping Nat

namespace Graph

def empty : Graph := {}

def node? (g : Graph) (id : Text) : Option Node := g.nodes.find? fun n => n.id == id

def hasNode (g : Graph) (id : Text) : Bool := (g.node? id).isSome

/-- Add a node, unless its identity is taken. -/
def addNode (g : Graph) (n : Node) : Graph × Bool :=
  if g.hasNode n.id then (g, false) else ({ g with nodes := g.nodes ++ [n] }, true)

/-- Add a relationship, unless it is there already or one of its ends is not. -/
def addRelationship (g : Graph) (r : Relationship) : Graph × Bool :=
  if !g.hasNode r.source || !g.hasNode r.target || g.relationships.contains r then (g, false)
  else ({ g with relationships := g.relationships ++ [r] }, true)

def nodeCount (g : Graph) : Nat := g.nodes.length

def edgeCount (g : Graph) : Nat := g.relationships.length

/-- The nodes with a given name and label, where given. -/
def find (g : Graph) (name : Option Text) (label : Option Label) : List Node :=
  g.nodes.filter fun n => name.all (· == n.name) && label.all (· == n.label)

def stats (g : Graph) : Stats :=
  { nodes := Mapping.tally (g.nodes.map (·.label.name))
    relationships := Mapping.tally (g.relationships.map (·.kind.name)) }

end Graph

end CodeAtlas
