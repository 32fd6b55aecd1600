import CodeAtlas.Language
import CodeAtlas.Path

set_option autoImplicit false

/-! # Resolving imports

An import that starts with a dot is read from the importer's directory. Any other is read from the
root of the archive and then, since archives usually carry a top-level folder, as the end of a
known path. A path that leaves the archive resolves to nothing.
-/

namespace CodeAtlas.Import

def clean (raw : Text) : Text := (Text.trim raw).map fun c => if c == '\\' then '/' else c

/-- Is an import read from the importer's directory? -/
def isRelative (raw : Text) : Bool := raw.head? == some '.'

/-- The path an import names, without the extension it may leave out. -/
def target (importer raw : Text) : Text :=
  Path.normalize
    (if isRelative raw then Path.join (Path.dirName importer) raw
     else raw.dropWhile (· == '/'))

/-- Does a path lead out of the archive or to its root? -/
def isOutside (path : Text) : Bool := ['.', '.'].isPrefixOf path || path == ['.']

/-- The paths that are tried for a target: as it stands, with each extension, and as a directory
with an index file. -/
def attempts (language : Option Language) (path : Text) : List Text :=
  let extensions := language.elim [] Language.importExtensions
  path :: extensions.map (path ++ ·) ++
    extensions.map fun e => Path.join path ("index".toList ++ e)

/-- The first known path that ends with a slash and an attempt; earlier attempts come first. -/
def bySuffix (known attempts : List Text) : Option Text :=
  attempts.findSome? fun a => known.find? fun p => ('/' :: a).isSuffixOf p

def resolve? (importer raw : Text) (known : List Text) (language : Option Language) :
    Option Text :=
  let raw := clean raw
  if raw.isEmpty then none
  else
    let path := target importer raw
    if isOutside path then none
    else
      let tried := attempts language path
      match tried.find? known.contains with
      | some p => some p
      | none => if isRelative raw then none else bySuffix known tried

end CodeAtlas.Import
