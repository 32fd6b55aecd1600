import CodeAtlas.Graph.Table
import CodeAtlas.Store.Dialect
import CodeAtlas.Store.Engine

set_option autoImplicit false

/-! # The database

Two tables: nodes with distinct identities and edges between them. A table of rows is taken in as a
whole or not at all. An empty field is no value, and an identity is not empty. The questions that can
be asked are a closed list; anything else is refused.

Edges join rows, and an identity leads to its row by an index. In memory a node table that is refused
for its identities takes these with it out of the index, even if they were there before: their rows
stay, but they are not found again. On a disk the index is safe once a table is in.

There are two engines that run such databases (`Database.engine`). One finds out the dialect of a table
from what is in it, and it is the one that stores use unless they are told otherwise. The other reads
tables as what they are.
-/

namespace CodeAtlas

structure StoredNode where
  id : Text
  label : Option Text
  name : Option Text
  path : Option Text
  startLine : Option Int
  endLine : Option Int
  isExported : Option Bool
  content : Option Text
deriving DecidableEq

structure StoredEdge where
  source : Nat
  target : Nat
  kind : Option Text
deriving DecidableEq

structure NamedEdge where
  source : Text
  target : Text
  kind : Option Text
deriving DecidableEq

/-- The rows of both tables; the edge table can be dropped. -/
structure Database where
  /-- Is the index kept on a disk? -/
  onDisk : Bool := false
  nodes : List StoredNode := []
  /-- The row of every identity that can be found. -/
  index : Mapping Nat := []
  edges : Option (List StoredEdge) := some []
deriving DecidableEq

inductive TableForm where
  /-- As quoted tables with the given delimiter, whatever they hold. -/
  | plain
  /-- In the dialect that they seem to have. -/
  | detected
deriving DecidableEq

namespace Database

/-! ## Values of fields -/

def isPadding (c : Char) : Bool := c == ' ' || (9 ≤ c.toNat && c.toNat ≤ 13)

def unpad (t : Text) : Text := Text.dropRight isPadding (t.dropWhile isPadding)

/-- The least and the greatest integer that can be stored. -/
def isStorable (n : Int) : Bool := -0x8000000000000000 ≤ n && n < 0x8000000000000000

def integer? (t : Text) : Option Int :=
  let number := match unpad t with
    | '-' :: digits => (Text.nat? digits).map fun n => -(n : Int)
    | '0' :: _ :: _ => none
    | digits => (Text.nat? digits).map fun n => (n : Int)
  number.filter isStorable

/-- Read a truth value: a word, its first letter or a digit, in any case. -/
def flag? (t : Text) : Option Bool :=
  let word := (unpad t).map Char.toLower
  if ["true".toList, ['t'], ['1']].contains word then some true
  else if ["false".toList, ['f'], ['0']].contains word then some false
  else none

def textOf (t : Text) : Option Text := if t.isEmpty then none else some t

/-- The value of a field, which an empty one does not have; none if it cannot be read. -/
def value? {α : Type} (read? : Text → Option α) (t : Text) : Option (Option α) :=
  if t.isEmpty then some none else (read? t).map some

/-! ## Taking rows in -/

def node? : List Text → Option StoredNode
  | [id, label, name, path, startLine, endLine, isExported, content] =>
    match value? integer? startLine, value? integer? endLine, value? flag? isExported with
    | some first, some last, some exported =>
      some ⟨id, textOf label, textOf name, textOf path, first, last, exported, textOf content⟩
    | _, _, _ => none
  | _ => none

def edge? : List Text → Option NamedEdge
  | [source, target, kind] => some ⟨source, target, textOf kind⟩
  | _ => none

/-- The delimiter that a text names. It is one byte and named between single quotes, so a single quote
or a backslash has to stand after a backslash; a tab may be named by its letter. -/
def delimiter? : Text → Option Char
  | [c] => if c.toNat < 128 && c != '\'' && c != '\\' then some c else none
  | ['\\', c] =>
    if c == 't' then some '\t'
    else if c == '\'' || c == '\\' || c == '"' then some c
    else none
  | _ => none

/-- The rows of a table with a number of columns after the header, each made into a record. -/
def records? {α : Type} (form : TableForm) (columns : Nat) (f : List Text → Option α)
    (delimiter table : Text) : Option (List α) :=
  match form, delimiter with
  | .plain, [d] => ((Table.read d table).drop 1).mapM f
  | .plain, _ => none
  | .detected, _ =>
    (delimiter? delimiter).bind fun d =>
      (Dialect.read? (Dialect.detect columns d table) columns table).bind (·.mapM f)

/-- Add a node row, unless its identity is empty or taken. -/
def addNode (db : Database) (n : StoredNode) : Option Database :=
  if n.id.isEmpty || (db.index.get? n.id).isSome then none
  else
    some { db with nodes := db.nodes ++ [n], index := db.index ++ [(n.id, db.nodes.length)] }

def forget (db : Database) (ids : List Text) : Database :=
  { db with index := db.index.filter fun p => !ids.contains p.1 }

/-- Take in a node table. The database that is left, and whether the table is in it. -/
def copyNodes (db : Database) (form : TableForm) (delimiter table : Text) : Database × Bool :=
  match records? form Table.nodeColumns.length node? delimiter table with
  | none => (db, false)
  | some rows =>
    match rows.foldlM addNode db with
    | some db => (db, true)
    | none => (if db.onDisk then db else db.forget (rows.map (·.id)), false)

/-- The edge between the rows of two identities, if there are such rows. -/
def join? (db : Database) (e : NamedEdge) : Option StoredEdge :=
  match db.index.get? e.source, db.index.get? e.target with
  | some source, some target => some ⟨source, target, e.kind⟩
  | _, _ => none

/-- Take in an edge table. Both ends of every edge have to be there. -/
def copyEdges (db : Database) (form : TableForm) (delimiter table : Text) : Database × Bool :=
  match db.edges, records? form Table.edgeColumns.length edge? delimiter table with
  | some edges, some rows =>
    match rows.mapM db.join? with
    | some more => ({ db with edges := some (edges ++ more) }, true)
    | none => (db, false)
  | _, _ => (db, false)

def createTables (db : Database) : Database := { db with edges := some (db.edges.getD []) }

def nodeCount (db : Database) : Nat := db.nodes.length

/-! ## Questions -/

inductive Query where
  | countNodes
  | identities
  | classNames
  | edgesByName
  | nodesNamed
  | names
  | dropEdges
deriving DecidableEq

namespace Query

def all : List Query :=
  [countNodes, identities, classNames, edgesByName, nodesNamed, names, dropEdges]

def words : Query → String
  | countNodes => "MATCH (n:CodeNode) RETURN count(n) AS cnt"
  | identities => "MATCH (n:CodeNode) RETURN n.id AS id, n.name AS name ORDER BY id"
  | classNames =>
    "MATCH (n:CodeNode) WHERE n.label = 'Class' RETURN n.name AS name ORDER BY name"
  | edgesByName =>
    "MATCH (a:CodeNode)-[r:CodeRelation]->(b:CodeNode) " ++
      "RETURN a.name AS source, r.type AS type, b.name AS target ORDER BY source, type, target"
  | nodesNamed =>
    "MATCH (n:CodeNode) WHERE n.name = $name RETURN n.label AS label, " ++
      "n.startLine AS startLine, n.isExported AS isExported ORDER BY label, startLine"
  | names => "MATCH (n:CodeNode) RETURN n.name AS name ORDER BY name"
  | dropEdges => "DROP TABLE CodeRelation"

def ofText? (t : Text) : Option Query := all.find? fun q => q.words.toList == t

def parameters : Query → List Text
  | nodesNamed => ["name".toList]
  | _ => []

end Query

/-- Order by the first of two keys, and by the second where the first are equal. -/
def orderBy {α : Type} (first second : α → α → Bool) (a b : α) : Bool :=
  if first a b && first b a then second a b else first a b

/-- Order by a value that may be missing; what is missing comes last. -/
def missingLast {α : Type} (le : α → α → Bool) : Option α → Option α → Bool
  | _, none => true
  | none, some _ => false
  | some a, some b => le a b

def Value.ofText (t : Option Text) : Value := t.elim .absent .text

def Value.ofInt (n : Option Int) : Value := n.elim .absent .number

def Value.ofBool (b : Option Bool) : Value := b.elim .absent .flag

def textLe (a b : Option Text) : Bool := missingLast Text.le a b

def nameOf (db : Database) (row : Nat) : Option Text := db.nodes[row]?.bind (·.name)

def single (column : String) (v : Value) : Row := [(column.toList, v)]

def sortedNames (nodes : List StoredNode) : List Row :=
  (sortBy textLe (nodes.map (·.name))).map fun n => single "name" (.ofText n)

/-- The edges as names of source, kind and target, in order. -/
def edgeRows (db : Database) (edges : List StoredEdge) : List Row :=
  let triples := edges.map fun e => (db.nameOf e.source, e.kind, db.nameOf e.target)
  let le := orderBy (fun a b => textLe a.1 b.1)
    (orderBy (fun a b => textLe a.2.1 b.2.1) fun a b => textLe a.2.2 b.2.2)
  (sortBy le triples).map fun t =>
    [("source".toList, .ofText t.1), ("type".toList, .ofText t.2.1),
      ("target".toList, .ofText t.2.2)]

/-- The nodes of a name by label and line; all nodes if no name is given. -/
def namedRows (db : Database) (name : Option Text) : List Row :=
  let le := orderBy (fun (a b : StoredNode) => textLe a.label b.label)
    fun a b => missingLast (fun m n => m ≤ n) a.startLine b.startLine
  let nodes := db.nodes.filter fun n => name.isNone || n.name == name
  (sortBy le nodes).map fun n =>
    [("label".toList, .ofText n.label), ("startLine".toList, .ofInt n.startLine),
      ("isExported".toList, .ofBool n.isExported)]

/-- Answer a question with its parameters; none if it cannot be answered. -/
def answer (db : Database) (params : Mapping Text) : Query → Option (Database × List Row)
  | .countNodes => some (db, [single "cnt" (.number db.nodeCount)])
  | .identities =>
    some (db, (sortBy (fun a b => Text.le a.id b.id) db.nodes).map fun n =>
      [("id".toList, .text n.id), ("name".toList, .ofText n.name)])
  | .classNames => some (db, sortedNames (db.nodes.filter (·.label == some "Class".toList)))
  | .edgesByName => db.edges.map fun edges => (db, db.edgeRows edges)
  | .nodesNamed => some (db, db.namedRows (params.get? "name".toList))
  | .names => some (db, sortedNames db.nodes)
  | .dropEdges =>
    db.edges.map fun _ => ({ db with edges := none },
      [single "result" (.text "Table CodeRelation has been dropped.".toList)])

/-- Answer what is asked in words. What is no question of the list is refused, and so is a
parameter that the question does not have. -/
def ask (db : Database) (words : Text) (params : Mapping Text) : Option (Database × List Row) :=
  match Query.ofText? words with
  | none => none
  | some q => if params.all fun p => q.parameters.contains p.1 then db.answer params q else none

def edgeCount? (db : Database) : Option Nat := db.edges.map (·.length)

/-! ## Engines -/

/-- The engine that reads tables in a form. -/
abbrev engine (form : TableForm) : Engine where
  State := Database
  new onDisk := { onDisk := onDisk }
  createTables := createTables
  copyNodes db := db.copyNodes form
  copyEdges db := db.copyEdges form
  countNodes db := some db.nodeCount
  countEdges := edgeCount?
  ask db words params :=
    match db.ask words params with
    | some (db, rows) => (db, some rows)
    | none => (db, none)

/-- The engine of stores that are not told another one. -/
instance detecting : Engine := engine .detected

/-- The engine that reads tables as what they are. -/
abbrev plain : Engine := engine .plain

end Database

end CodeAtlas
