import CodeAtlas.Text.Basic

set_option autoImplicit false

/-! # Ordered mappings

A mapping from texts that remembers the order in which its keys came first. Writing a key again
keeps its place and replaces its value.
-/

namespace CodeAtlas

abbrev Mapping (β : Type) := List (Text × β)

namespace Mapping

def insert {β : Type} (m : Mapping β) (k : Text) (v : β) : Mapping β :=
  match m with
  | [] => [(k, v)]
  | (k', v') :: rest => if k' = k then (k, v) :: rest else (k', v') :: insert rest k v

def get? {β : Type} (m : Mapping β) (k : Text) : Option β := m.lookup k

/-- The mapping that a sequence of writes leaves. -/
def ofList {β : Type} (l : List (Text × β)) : Mapping β := l.foldl (fun m p => m.insert p.1 p.2) []

def increment (m : Mapping Nat) (k : Text) : Mapping Nat := m.insert k ((m.get? k).getD 0 + 1)

/-- How often each text occurs, in the order of first occurrence. -/
def tally (l : List Text) : Mapping Nat := l.foldl increment []

end Mapping

end CodeAtlas
