import CodeAtlas.Path
import CodeAtlas.Settings
import CodeAtlas.Text.Lower

set_option autoImplicit false

/-! # Names of archive entries

An entry is known by its path with forward slashes and without leading `./` and `/`. Entries in some
directories and with some endings are left out.
-/

namespace CodeAtlas.EntryPath

/-- Drop every `./` at the start. -/
def dropDotSlash : Text → Text
  | '.' :: '/' :: rest => dropDotSlash rest
  | t => t

/-- The path of an entry: forward slashes, then no leading `./`, then no leading `/`. -/
def normalize (name : Text) : Text :=
  (dropDotSlash (name.map fun c => if c == '\\' then '/' else c)).dropWhile (· == '/')

structure Filter where
  dirs : List Text
  extensions : List Text

def Filter.ofSettings (s : Settings) : Filter := ⟨s.ignoredDirList, s.ignoredExtensionList⟩

/-- Is an entry left out? Directories are, and what lies in an ignored directory, and what ends in
an ignored extension whatever its case. There is no answer for a path without components, such as
a single dot. -/
def ignored? (f : Filter) (path : Text) : Option Bool :=
  if path.isEmpty || path.getLast? == some '/' then some true
  else
    let parts := Path.parts path
    if parts.dropLast.any f.dirs.contains then some true
    else parts.getLast?.map fun name => f.extensions.any (·.isSuffixOf (Text.lower name))

end CodeAtlas.EntryPath
