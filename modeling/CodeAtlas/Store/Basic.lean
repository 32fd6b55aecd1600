import CodeAtlas.Graph.Table
import CodeAtlas.Store.Engine

set_option autoImplicit false

/-! # The graph store

A store holds the database of one ingested graph, which some engine runs. Only loading is meant to
write to it, and questions are refused until a load has succeeded. Every operation is told which of the
calls that it makes to the engine or to the file system fail, and answers with the store that is left.
-/

namespace CodeAtlas

inductive EngineCall where
  /-- Taking the store for a reset. -/
  | acquire
  | closeConnection
  | closeDatabase
  | removeFiles
  | makeDirectory
  | openDatabase
  | createSchema
  /-- Writing a table to a file, which some texts do not let themselves be. -/
  | writeTable (table : Text)
  | copyNodes
  | copyEdges
  | countNodes
  | runQuery
deriving DecidableEq

/-- The calls that fail during an operation. -/
abbrev Faults := EngineCall → Bool

namespace Faults

def none : Faults := fun _ => false

def ofCopy : Faults := fun c => c == .copyNodes || c == .copyEdges

def ofReset : Faults := fun c => c == .acquire

/-- Tables of a kind cannot be written. -/
def ofWriting (p : Text → Bool) : Faults
  | .writeTable table => p table
  | _ => false

end Faults

inductive StoreError where
  | notReady
  /-- The store could not be taken for a reset. -/
  | notReset
  | pathBlocked
  | engine
deriving DecidableEq

/-- The wording of the errors that are told apart. -/
def StoreError.message : StoreError → Text
  | notReady => "Graph store is not ready; ingest an archive first".toList
  | notReset => "reset failed".toList
  | _ => []

structure LoadResult where
  success : Bool
  count : Nat
deriving DecidableEq

def LoadResult.failed : LoadResult := ⟨false, 0⟩

structure StoreStats where
  nodes : Nat
  edges : Nat
deriving DecidableEq

variable [Engine]

/-- Where the database lives. -/
inductive Medium where
  | memory
  /-- At a path, with what was saved there. -/
  | file (saved : Option Engine.State)
  /-- At a path at which a directory lies. -/
  | directory
  /-- At a path whose directory cannot be made. -/
  | blocked

/-- What a store holds of a database: its rows, and whether it can still be talked to. -/
structure Connection where
  database : Engine.State
  isOpen : Bool := true

structure Store where
  medium : Medium := .memory
  delimiter : Text := [',']
  /-- The connection to the database. One that could not be given up stays, though closed. -/
  connection : Option Connection := none
  ready : Bool := false
  loading : Bool := false

namespace Store

def inMemory (s : Store) : Bool :=
  match s.medium with
  | .memory => true
  | .file _ | .directory | .blocked => false

def isReady (s : Store) : Bool := s.ready && !s.loading

/-- A new store like this one, with nothing open. -/
def fresh (s : Store) : Store := { medium := s.medium, delimiter := s.delimiter }

/-! ## Opening and closing -/

def found (s : Store) (faults : Faults) : Except StoreError Engine.State :=
  match s.medium with
  | .memory => if faults .openDatabase then .error .engine else .ok (Engine.new false)
  | .blocked => .error .pathBlocked
  | .directory => if faults .makeDirectory then .error .pathBlocked else .error .engine
  | .file saved =>
    if faults .makeDirectory then .error .pathBlocked
    else if faults .openDatabase then .error .engine
    else .ok (saved.getD (Engine.new true))

/-- Open the database and create its tables, unless there is a connection. -/
def openUp (s : Store) (faults : Faults) : Store × Except StoreError Unit :=
  match s.connection with
  | some _ => (s, .ok ())
  | none =>
    match s.found faults with
    | .error e => (s, .error e)
    | .ok db =>
      if faults .createSchema then (s, .error .engine)
      else ({ s with connection := some ⟨Engine.createTables db, true⟩ }, .ok ())

/-- Close the connection and then the database. From then on the store is not ready, even if
closing fails; what could not be closed is kept. -/
def closeHandles (s : Store) (faults : Faults) : Store × Except StoreError Unit :=
  let s := { s with ready := false }
  match s.connection with
  | none => (s, .ok ())
  | some c =>
    if faults .closeConnection then (s, .error .engine)
    else if faults .closeDatabase then
      ({ s with connection := some { c with isOpen := false } }, .error .engine)
    else
      let medium := match s.medium with
        | .file _ => .file (some c.database)
        | m => m
      ({ s with medium := medium, connection := none }, .ok ())

def close (s : Store) (faults : Faults) : Store × Except StoreError Unit := s.closeHandles faults

/-- Drop the database and start empty. -/
def reset (s : Store) (faults : Faults) : Store × Except StoreError Unit :=
  if faults .acquire then (s, .error .notReset)
  else
    match s.closeHandles faults with
    | (s, .error e) => (s, .error e)
    | (s, .ok ()) =>
      match s.medium with
      | .memory | .blocked => (s, .ok ())
      | .file none => (s, .ok ())
      | .file (some _) | .directory =>
        if faults .removeFiles then (s, .error .engine)
        else ({ s with medium := .file none }, .ok ())

/-! ## Loading -/

/-- Take one table in, if it has rows: the database that is left, and whether all went well. -/
def copyTable (fails : Bool) (copy : Text → Engine.State × Bool) (table : Text)
    (db : Engine.State) : Engine.State × Bool :=
  if Table.hasRows table then if fails then (db, false) else copy table else (db, true)

/-- Load both tables over the connection: the nodes first, since edges refer to them. Both are written
to files before that. A table stays in if a later step fails, and over a closed connection every step
fails. -/
def loadTables (s : Store) (faults : Faults) (nodes edges : Text) : Store × Option Nat :=
  match s.openUp faults with
  | (s, .error _) => (s, none)
  | (s, .ok ()) =>
    match s.connection with
    | none => (s, none)
    | some ⟨db, isOpen⟩ =>
      if faults (.writeTable nodes) || faults (.writeTable edges) then (s, none)
      else
        let copyNodes := Engine.copyNodes db s.delimiter
        match copyTable (faults .copyNodes || !isOpen) copyNodes nodes db with
        | (db, false) => ({ s with connection := some ⟨db, isOpen⟩ }, none)
        | (db, true) =>
          let copyEdges := Engine.copyEdges db s.delimiter
          match copyTable (faults .copyEdges || !isOpen) copyEdges edges db with
          | (db, false) => ({ s with connection := some ⟨db, isOpen⟩ }, none)
          | (db, true) =>
            let s := { s with connection := some ⟨db, isOpen⟩ }
            if faults .countNodes || !isOpen then (s, none) else (s, Engine.countNodes db)

def load (s : Store) (faults : Faults) (nodes edges : Text) : Store × LoadResult :=
  match loadTables { s with loading := true, ready := false } faults nodes edges with
  | (s, none) => ({ s with loading := false }, .failed)
  | (s, some count) => ({ s with loading := false, ready := true }, ⟨true, count⟩)

/-! ## Asking -/

def query (s : Store) (faults : Faults) (words : Text) (params : Mapping Text) :
    Store × Except StoreError (List Database.Row) :=
  match s.isReady, s.connection with
  | true, some ⟨db, isOpen⟩ =>
    if faults .runQuery || !isOpen then (s, .error .engine)
    else
      match Engine.ask db words params with
      | (db, some rows) => ({ s with connection := some ⟨db, isOpen⟩ }, .ok rows)
      | (db, none) => ({ s with connection := some ⟨db, isOpen⟩ }, .error .engine)
  | _, _ => (s, .error .notReady)

/-- The counts of nodes and edges; zeros where they cannot be had. -/
def stats (s : Store) (faults : Faults) : StoreStats :=
  match s.isReady, s.connection with
  | true, some ⟨db, isOpen⟩ =>
    match faults .runQuery || !isOpen, Engine.countNodes db, Engine.countEdges db with
    | false, some nodes, some edges => ⟨nodes, edges⟩
    | _, _, _ => ⟨0, 0⟩
  | _, _ => ⟨0, 0⟩

end Store

end CodeAtlas
