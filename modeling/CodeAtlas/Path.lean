import CodeAtlas.Text.Basic

set_option autoImplicit false

/-! # Paths with forward slashes

Two readings of a path are used. As a sequence of *parts*, repeated slashes and `.` components
disappear and `..` stays. As a *normal form*, `..` also takes back the component before it. In both
a path keeps a root of two slashes if it has exactly two.
-/

namespace CodeAtlas.Path

/-! ## Splitting at the last slash -/

def baseName (p : Text) : Text := (p.reverse.takeWhile (· != '/')).reverse

def dirName (p : Text) : Text :=
  let head := (p.reverse.dropWhile (· != '/')).reverse
  if head.all (· == '/') then head else Text.dropRight (· == '/') head

def join (dir p : Text) : Text :=
  if p.head? == some '/' then p
  else if dir.isEmpty || dir.getLast? == some '/' then dir ++ p
  else dir ++ '/' :: p

/-! ## Root and components -/

/-- The root: nothing, one slash, or two slashes if there are exactly two. -/
def root : Text → Text
  | '/' :: '/' :: '/' :: _ => ['/']
  | '/' :: '/' :: _ => ['/', '/']
  | '/' :: _ => ['/']
  | _ => []

/-- The components, without empty ones and `.`. -/
def components (p : Text) : List Text :=
  (p.splitOn '/').filter fun c => c != [] && c != ['.']

/-- The root, if there is one, and the components. -/
def parts (p : Text) : List Text :=
  if root p = [] then components p else root p :: components p

def name (p : Text) : Text := (components p).getLast?.getD []

/-- The extension of a name, from its last dot on. A dot that starts or ends the name makes
none. -/
def extension (n : Text) : Text :=
  let after := (n.reverse.takeWhile (· != '.')).reverse
  if after.isEmpty || n.length ≤ after.length + 1 then [] else '.' :: after

def suffix (p : Text) : Text := extension (name p)

def write (root : Text) (cs : List Text) : Text :=
  if root.isEmpty && cs.isEmpty then ['.'] else root ++ ['/'].intercalate cs

def parent (p : Text) : Text := write (root p) (components p).dropLast

/-! ## Normal form -/

/-- Add a component to the components so far, last one first. `..` takes one back; where there is
none to take back it stays in a relative path and disappears under a root. -/
def push (rooted : Bool) (stack : List Text) (c : Text) : List Text :=
  if c == [] || c == ['.'] then stack
  else if c != ['.', '.'] then c :: stack
  else match stack with
    | [] => if rooted then [] else [c]
    | top :: rest => if top == ['.', '.'] then c :: stack else rest

def normalize (p : Text) : Text :=
  let r := root p
  write r ((p.splitOn '/').foldl (push !r.isEmpty) []).reverse

end CodeAtlas.Path
