import CodeAtlas.Label
import CodeAtlas.Language

set_option autoImplicit false

/-! # What is extracted from one file

Calls, imports and heritage name their targets by the text the source uses. They are resolved when
the graph is built.
-/

namespace CodeAtlas

structure Definition where
  id : Text
  label : Label
  name : Text
  /-- The line, from zero, on which it starts. -/
  startLine : Int
  /-- The line on which it ends. -/
  endLine : Int
  isExported : Bool
  /-- The position at which it starts. -/
  start : Int
  /-- The identity of the definition whose body it stands in directly. -/
  owner : Option Text
deriving DecidableEq

/-- A called name and the identity of the body it is called from. -/
structure Call where
  name : Text
  source : Text
deriving DecidableEq

/-- The word by which a parent is named. -/
inductive HeritageKind where
  | extendsType
  | implementsType
  /-- Any other word; it counts as extension. -/
  | other (word : Text)
deriving DecidableEq

namespace HeritageKind

def word : HeritageKind → Text
  | extendsType => "extends".toList
  | implementsType => "implements".toList
  | other w => w

def ofWord (t : Text) : HeritageKind :=
  if t == extendsType.word then extendsType
  else if t == implementsType.word then implementsType
  else other t

end HeritageKind

/-- A parent named by a class or an interface. -/
structure Heritage where
  classId : Text
  className : Text
  parent : Text
  kind : HeritageKind
deriving DecidableEq

structure Extraction where
  path : Text
  language : Option Language := none
  definitions : List Definition := []
  imports : List Text := []
  calls : List Call := []
  heritage : List Heritage := []
deriving DecidableEq

end CodeAtlas
