import CodeAtlas.Extraction.Basic
import CodeAtlas.Graph.Basic
import CodeAtlas.Graph.Import
import CodeAtlas.Identity
import CodeAtlas.Text.Position

set_option autoImplicit false

/-! # Building the graph

The nodes are the files and their definitions. A file contains its definitions, and a definition
defines the members it owns. Calls, imports and heritage are resolved against all files at once;
what cannot be resolved is left out, so every edge joins two nodes.
-/

namespace CodeAtlas

inductive TieBreak where
  /-- The first one in the file of the reference, or else the first one. -/
  | sameFileFirst
  /-- The first one. -/
  | firstDeclared
  /-- The only one in the file of the reference or, if that has none, the only one. -/
  | uniqueOnly
deriving DecidableEq

namespace TieBreak

def all : List TieBreak := [sameFileFirst, firstDeclared, uniqueOnly]

def name : TieBreak → Text
  | sameFileFirst => "same_file_first".toList
  | firstDeclared => "first_declared".toList
  | uniqueOnly => "unique_only".toList

def ofName? (t : Text) : Option TieBreak := all.find? fun p => p.name == t

end TieBreak

/-- A definition that a reference may mean. -/
structure Candidate where
  path : Text
  id : Text
deriving DecidableEq

def theOnly {α : Type} : List α → Option α
  | [a] => some a
  | _ => none

namespace TieBreak

def choose (policy : TieBreak) (file : Text) (candidates : List Candidate) : Option Text :=
  let here := candidates.filter fun c => c.path == file
  match policy with
  | firstDeclared => candidates.head?.map (·.id)
  | uniqueOnly =>
    if here.isEmpty then (theOnly candidates).map (·.id) else (theOnly here).map (·.id)
  | sameFileFirst =>
    if here.isEmpty then candidates.head?.map (·.id) else here.head?.map (·.id)

end TieBreak

structure BuildOptions where
  policy : TieBreak := .sameFileFirst
  /-- The number of characters of a node's content that are kept; zero keeps all, and a negative
  number leaves that many off at the end. -/
  maxContent : Int := 20000

namespace Graph

/-! ## Nodes -/

def cap (limit : Int) (t : Text) : Text :=
  if limit ≠ 0 ∧ limit < t.length then Text.cut limit t else t

def fileNode (o : BuildOptions) (path content : Text) : Node :=
  { id := Identity.ofFile path
    label := .file
    name := Path.baseName path
    path := path
    startLine := 0
    endLine := ((Text.lines content).length - 1 : Nat)
    content := some (cap o.maxContent content) }

/-- The node of a definition, with its lines. -/
def definitionNode (o : BuildOptions) (path content : Text) (d : Definition) : Node :=
  { id := d.id
    label := d.label
    name := d.name
    path := path
    startLine := d.startLine
    endLine := d.endLine
    isExported := d.isExported
    content := some (cap o.maxContent (Text.excerpt content d.startLine d.endLine)) }

def nodesOf (o : BuildOptions) (contents : Mapping Text) (e : Extraction) : List Node :=
  let content := (contents.get? e.path).getD []
  fileNode o e.path content :: e.definitions.map (definitionNode o e.path content)

def addNodes (g : Graph) (ns : List Node) : Graph := ns.foldl (fun g n => (g.addNode n).1) g

def addRelationships (g : Graph) (rs : List Relationship) : Graph :=
  rs.foldl (fun g r => (g.addRelationship r).1) g

/-! ## Structure -/

/-- The relationship between a definition and the node that owns it, if that is a container. -/
def ownership (g : Graph) (d : Definition) : Option Relationship :=
  match d.owner with
  | none | some [] => none
  | some owner =>
    match g.node? owner with
    | some n => if n.label.isContainer then some ⟨owner, d.id, .defines⟩ else none
    | none => none

/-- The relationships of a file to its definitions and of these to each other. -/
def structureOf (g : Graph) (e : Extraction) : List Relationship :=
  e.definitions.flatMap fun d =>
    ⟨Identity.ofFile e.path, d.id, .contains⟩ :: (g.ownership d).toList

/-! ## References -/

/-- A definition with the path of its file. -/
structure Declared where
  path : Text
  definition : Definition

/-- The definitions of all files in order, each identity once. -/
def declarationsFrom : List Text → List Declared → List Declared
  | _, [] => []
  | seen, d :: ds =>
    if seen.contains d.definition.id then declarationsFrom seen ds
    else d :: declarationsFrom (d.definition.id :: seen) ds

/-- The definitions that references may mean. -/
def declarations (results : List Extraction) : List Declared :=
  declarationsFrom [] (results.flatMap fun e => e.definitions.map fun d => ⟨e.path, d⟩)

def candidates (ds : List Declared) (name : Text) : List Candidate :=
  (ds.filter fun d => d.definition.name == name).map fun d => ⟨d.path, d.definition.id⟩

/-- The relationship of a call, unless it resolves to nothing or to its own source. -/
def callEdge (policy : TieBreak) (ds : List Declared) (path : Text) (c : Call) :
    Option Relationship :=
  match policy.choose path (candidates ds c.name) with
  | some t => if t == c.source then none else some ⟨c.source, t, .calls⟩
  | none => none

/-- The relationship of an import, unless it resolves to nothing or to the importing file. -/
def importEdge (known : List Text) (e : Extraction) (raw : Text) : Option Relationship :=
  match Import.resolve? e.path raw known e.language with
  | some p =>
    if p == e.path then none else some ⟨Identity.ofFile e.path, Identity.ofFile p, .imports⟩
  | none => none

/-- The kind of an inheritance edge: a class that extends an interface implements it. -/
def heritageEdgeKind (g : Graph) (h : Heritage) (target : Text) : RelationKind :=
  match h.kind with
  | .implementsType => .implementsType
  | _ =>
    match g.node? h.classId, g.node? target with
    | some child, some parent =>
      if child.label == .classType && parent.label == .interfaceType then .implementsType
      else .extendsType
    | _, _ => .extendsType

/-- The relationship of a class to a parent, unless it resolves to nothing or to the class. -/
def heritageEdge (g : Graph) (policy : TieBreak) (ds : List Declared) (path : Text)
    (h : Heritage) : Option Relationship :=
  match policy.choose path (candidates ds h.parent) with
  | some t => if t == h.classId then none else some ⟨h.classId, t, heritageEdgeKind g h t⟩
  | none => none

/-! ## All together -/

/-- The graph of the nodes alone. -/
def nodesOnly (o : BuildOptions) (contents : Mapping Text) (results : List Extraction) : Graph :=
  empty.addNodes (results.flatMap (nodesOf o contents))

/-- The relationships in the order in which they are added: structure, calls, imports, heritage. -/
def edgesOf (g : Graph) (policy : TieBreak) (results : List Extraction) : List Relationship :=
  let ds := declarations results
  let types := ds.filter fun d => d.definition.label.isType
  let known := results.map (·.path)
  results.flatMap g.structureOf ++
    results.flatMap (fun e => e.calls.filterMap (callEdge policy ds e.path)) ++
    results.flatMap (fun e => e.imports.filterMap (importEdge known e)) ++
    results.flatMap fun e => e.heritage.filterMap (g.heritageEdge policy types e.path)

/-- The graph of the files. Their order decides which of several definitions is the first. -/
def build (o : BuildOptions) (results : List Extraction) (contents : Mapping Text) : Graph :=
  let g := nodesOnly o contents results
  g.addRelationships (g.edgesOf o.policy results)

end Graph

end CodeAtlas
