import CodeAtlas.Mapping

set_option autoImplicit false

/-! # Database engines

A store keeps its graph in a database, in a table of nodes and a table of edges. An `Engine` is what a
store needs for that: what a database is, and the calls that can be made to one. How the calls are carried
out is not said here. `CodeAtlas.Store.Database` has an engine that can be run.

Every call hands back the database that is left. A call that fails may have changed it too.
-/

namespace CodeAtlas

namespace Database

inductive Value where
  | absent
  | number (n : Int)
  | text (t : Text)
  | flag (b : Bool)
deriving DecidableEq

abbrev Row := List (Text × Value)

end Database

/-- A database engine. -/
class Engine where
  /-- A database. -/
  State : Type
  /-- A new database without tables. -/
  new (onDisk : Bool) : State
  /-- Create the tables that are missing. -/
  createTables (db : State) : State
  /-- Take in a table of nodes; the flag tells whether it is in. -/
  copyNodes (db : State) (delimiter table : Text) : State × Bool
  /-- Take in a table of edges. -/
  copyEdges (db : State) (delimiter table : Text) : State × Bool
  /-- The number of nodes, if they can be counted. Counting changes nothing. -/
  countNodes (db : State) : Option Nat
  countEdges (db : State) : Option Nat
  /-- Answer a question that is put in words, with parameters. -/
  ask (db : State) (words : Text) (params : Mapping Text) : State × Option (List Database.Row)

end CodeAtlas
