import CodeAtlas.Text.Basic

set_option autoImplicit false

/-! # Kinds of nodes and relationships -/

namespace CodeAtlas

inductive Label where
  | file
  | moduleUnit
  | classType
  | interfaceType
  | structType
  | enumType
  | function
  | method
  | constructor
  | element
deriving DecidableEq

namespace Label

def all : List Label :=
  [file, moduleUnit, classType, interfaceType, structType, enumType, function, method, constructor,
    element]

def name : Label → Text
  | file => "File".toList
  | moduleUnit => "Module".toList
  | classType => "Class".toList
  | interfaceType => "Interface".toList
  | structType => "Struct".toList
  | enumType => "Enum".toList
  | function => "Function".toList
  | method => "Method".toList
  | constructor => "Constructor".toList
  | element => "CodeElement".toList

def ofName? (t : Text) : Option Label := all.find? fun l => l.name == t

/-- The kinds that can own members. -/
def isContainer : Label → Bool
  | classType | interfaceType | moduleUnit | structType => true
  | _ => false

/-- The kinds that can be inherited from. -/
def isType : Label → Bool
  | classType | interfaceType => true
  | _ => false

end Label

inductive RelationKind where
  | contains
  | defines
  | calls
  | imports
  | extendsType
  | implementsType
deriving DecidableEq

namespace RelationKind

def all : List RelationKind :=
  [contains, defines, calls, imports, extendsType, implementsType]

def name : RelationKind → Text
  | contains => "CONTAINS".toList
  | defines => "DEFINES".toList
  | calls => "CALLS".toList
  | imports => "IMPORTS".toList
  | extendsType => "EXTENDS".toList
  | implementsType => "IMPLEMENTS".toList

def ofName? (t : Text) : Option RelationKind := all.find? fun k => k.name == t

end RelationKind

end CodeAtlas
