import CodeAtlas.Digest.Md5
import CodeAtlas.Label

set_option autoImplicit false

/-! # Identities of nodes

A node's identity is its label and the digest of its key. The key joins label, path, name and, for a
member or an overload, a qualifier by a character that stands in no path and no identifier. The
key of a file is its label and path alone. Equal keys give equal identities, so reading the same
text again gives the same nodes.
-/

namespace CodeAtlas.Identity

def separator : Char := '\x1f'

/-- The text an identity is derived from. An empty qualifier counts as none. -/
def key (label path name : Text) (qualifier : Option Text) : Text :=
  if label = Label.file.name then [separator].intercalate [label, path]
  else match qualifier with
    | none | some [] => [separator].intercalate [label, path, name]
    | some q => [separator].intercalate [label, path, name, q]

def ofParts (label path name : Text) (qualifier : Option Text) : Text :=
  label ++ ':' :: Digest.md5Hex (key label path name qualifier)

def ofDefinition (label : Label) (path name : Text) (qualifier : Option Text) : Text :=
  ofParts label.name path name qualifier

def ofFile (path : Text) : Text := ofParts Label.file.name path [] none

end CodeAtlas.Identity
