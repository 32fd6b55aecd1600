import CodeAtlas.Bracket
import CodeAtlas.Extraction.Basic
import CodeAtlas.Identity
import CodeAtlas.Pattern.Search

set_option autoImplicit false

/-! # Scanning a file

The passes over a file share one record: the definitions found so far, the bodies they span, and
the offsets at which their names stand. A body is the region from its opening to its closing
bracket. A *container* is a body that can own the definitions that stand in it directly; a *scope*
is a body that calls are attributed to.
-/

namespace CodeAtlas

/-! ## Names -/

def isNameStart (c : Char) : Bool := Text.isAsciiLetter c || c == '_' || c == '$'

def isNamePart (c : Char) : Bool := Text.isWord c || c == '$'

namespace Pattern

def identifier : Pattern := .seq (.one isNameStart) (.many isNamePart)

def dottedName : Pattern := .seq identifier (.star (.seq (char '.') identifier))

/-- An identifier that is followed by an opening parenthesis. -/
def callSite : Pattern := all [.notAfter isNamePart, .group 1 identifier, blanks, char '(']

/-- One of the words, as a whole word. -/
def wholeWord (ws : List Text) : Pattern := all [.boundary, any (ws.map lit), .boundary]

end Pattern

/-- The name of a parent in a heritage clause: the last component of the dotted name it starts
with. Arguments after the name are ignored. -/
def parentName? (clause : Text) : Option Text :=
  (Pattern.dottedName.matchAt? (Cursor.start (Text.trim clause))).map fun m =>
    (((m.first.between m.last).splitOn '.').getLast?).getD []

/-- Does the rest of a signature make a function visible from outside? -/
def isExportedByKeywords (tail : Text) : Bool :=
  ((Pattern.wholeWord ["public".toList, "external".toList]).search? tail).isSome

/-! ## Regions -/

/-- The body of a definition, from its opening to its closing bracket. -/
structure Region where
  definition : Definition
  first : Nat
  last : Nat
deriving DecidableEq

namespace Region

def contains (r : Region) (index : Int) : Bool := r.first < index && index ≤ r.last

/-- The region that opens last; of several the first registered. -/
def innermost : List Region → Option Region
  | [] => none
  | r :: rs =>
    match innermost rs with
    | none => some r
    | some s => if r.first < s.first then some s else some r

end Region

/-- Where a body lies. A declaration without a body has an end only. -/
structure Extent where
  first : Option Nat
  last : Nat

/-- The first opening brace or semicolon, and its position; the position of the head of the text is
`i`. -/
def bodyMark? : Nat → Text → Option (Char × Nat)
  | _, [] => none
  | i, c :: rest => if c == '\x7b' || c == ';' then some (c, i) else bodyMark? (i + 1) rest

/-- The body in braces that starts at or after a position; none if a semicolon or the end of the
text comes first. -/
def bodyAfter (outline : Text) (index : Nat) : Extent :=
  match bodyMark? index (outline.drop index) with
  | none => ⟨none, outline.length - 1⟩
  | some (c, i) => if c == ';' then ⟨none, i⟩ else ⟨some i, Bracket.braceEnd outline i⟩

/-- The ends of a body in braces where the position may be counted from the end of the text; the
first is -1 where there is no body. -/
def bodyEndsAfter (outline : Text) (index : Int) : Except OutOfRange (Int × Int) :=
  match walk? outline index with
  | none => .error {}
  | some rest =>
    match bodyMark? 0 rest with
    | none => .ok (-1, (outline.length - 1 : Nat))
    | some (c, i) =>
      if c == ';' then .ok (-1, index + i)
      else (Bracket.blockEndFrom '\x7b' '\x7d' outline (index + i)).map fun last => (index + i, last)

/-! ## The record of a scan -/

/-- What is known of a file while it is scanned. -/
structure Scan where
  path : Text
  /-- The source with comments blanked. -/
  code : Text
  /-- The source with comments and the contents of literals blanked. -/
  outline : Text
  definitions : List Definition := []
  imports : List Text := []
  heritage : List Heritage := []
  /-- Label, name and start of every definition asked for. -/
  seen : List (Label × Text × Int) := []
  /-- The keys of which a digest was taken, latest first. -/
  keys : List Text := []
  /-- The identities given out. -/
  ids : List Text := []
  /-- The offsets of the names of definitions. -/
  nameOffsets : List Int := []
  containers : List Region := []
  scopes : List Region := []

/-- What the caller of `Scan.define` knows of a definition. -/
structure Sighting where
  label : Label
  name : Text
  start : Int
  /-- The position it ends at; without one it ends where it starts. -/
  finish : Option Int := none
  isExported : Bool := true
  /-- The position of its name, if calls are to be told from it. -/
  nameAt : Option Int := none

namespace Scan

def lineOf (s : Scan) (index : Int) : Nat := Text.lineOf s.outline index

/-- The container whose body holds a position directly, that is, with no brace open in between. -/
def ownerOf (s : Scan) (index : Int) : Option Region :=
  match Region.innermost (s.containers.filter (·.contains index)) with
  | none => none
  | some r => if Bracket.depthBetween s.outline (r.first + 1) index == 0 then some r else none

/-- The identity of a new definition, and the keys of which a digest was taken to find it. A name
that is taken is told apart by the line, and then also by the position. -/
def freshId (s : Scan) (d : Sighting) (owner : Option Text) : Text × List Text :=
  let id := Identity.ofDefinition d.label s.path d.name
  let key := Identity.key d.label.name s.path d.name
  if s.ids.contains (id owner) then
    let atLine := owner.getD [] ++ '@' :: Text.ofNat (s.lineOf d.start)
    if s.ids.contains (id (some atLine)) then
      let atPlace := atLine ++ ':' :: Text.ofInt d.start
      (id (some atPlace), [key (some atPlace), key (some atLine), key owner])
    else (id (some atLine), [key (some atLine), key owner])
  else (id owner, [key owner])

/-- Record a definition, unless one of this label, name and start is recorded already. -/
def define (s : Scan) (d : Sighting) : Scan × Option Definition :=
  if s.seen.contains (d.label, d.name, d.start) then (s, none)
  else
    let owner := s.ownerOf d.start
    let (id, keys) := s.freshId d (owner.map (·.definition.name))
    let definition : Definition :=
      { id := id
        label := d.label
        name := d.name
        startLine := s.lineOf d.start
        endLine := s.lineOf (d.finish.getD d.start)
        isExported := d.isExported
        start := d.start
        owner := owner.map (·.definition.id) }
    ({ s with
        seen := (d.label, d.name, d.start) :: s.seen
        nameOffsets := d.nameAt.toList ++ s.nameOffsets
        keys := keys ++ s.keys
        ids := id :: s.ids
        definitions := s.definitions ++ [definition] }, some definition)

def addContainer (s : Scan) (d : Option Definition) (e : Extent) : Scan :=
  match d, e.first with
  | some d, some i => { s with containers := s.containers ++ [⟨d, i, e.last⟩] }
  | _, _ => s

def addScope (s : Scan) (d : Option Definition) (e : Extent) : Scan :=
  match d, e.first with
  | some d, some i => if i < e.last then { s with scopes := s.scopes ++ [⟨d, i, e.last⟩] } else s
  | _, _ => s

/-- Record an import once, under its trimmed text. -/
def addImport (s : Scan) (path : Text) : Scan :=
  let p := Text.trim path
  if p.isEmpty || s.imports.contains p then s else { s with imports := s.imports ++ [p] }

/-- The heritage a definition gets from its clauses; it is not its own parent. -/
def heritageOf (d : Definition) (clauses : List Text) (kind : HeritageKind) : List Heritage :=
  clauses.filterMap fun clause =>
    match parentName? clause with
    | some parent => if parent == d.name then none else some ⟨d.id, d.name, parent, kind⟩
    | none => none

def addHeritage (s : Scan) (d : Option Definition) (clauses : List Text) (kind : HeritageKind) :
    Scan :=
  match d with
  | some d => { s with heritage := s.heritage ++ heritageOf d clauses kind }
  | none => s

/-! ## Calls -/

/-- The call at a site, if it is one: the names of definitions and the excluded words are none, a
body does not call itself, and a site in no body belongs to `topLevel`. -/
def callAt (s : Scan) (exclusions : List Text) (topLevel : Option Text) (m : Match) :
    Option Call :=
  let name := m.group 1
  let index := m.groupStart 1
  if s.nameOffsets.contains index || exclusions.contains name then none
  else match Region.innermost (s.scopes.filter (·.contains index)) with
    | some r => if name == r.definition.name then none else some ⟨name, r.definition.id⟩
    | none => topLevel.map fun id => ⟨name, id⟩

def calls (s : Scan) (exclusions : List Text) (topLevel : Option Text) : List Call :=
  (Pattern.callSite.findAll s.outline).filterMap (s.callAt exclusions topLevel)

def result (s : Scan) (language : Option Language) (calls : List Call) : Extraction :=
  { path := s.path
    language := language
    definitions := sortBy (fun a b => a.start ≤ b.start) s.definitions
    imports := s.imports
    calls := calls
    heritage := s.heritage }

end Scan

end CodeAtlas
