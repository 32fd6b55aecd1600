import CodeAtlas.Comment
import CodeAtlas.Extraction.Scan

set_option autoImplicit false

/-! # Scanning Solidity

Contracts, interfaces and libraries first, since they own what stands in them; then structs, enums,
events and errors; then modifiers, functions, constructors and the two special functions.
-/

namespace CodeAtlas.Solidity

open Pattern

/-! ## Patterns -/

def identifier : Pattern :=
  .seq (.one fun c => Text.isAsciiLetter c || c == '_') (.many Text.isWord)

/-- A character of a signature: neither the opening brace of a body nor a semicolon. -/
def isSignature (c : Char) : Bool := c != '\x7b' && c != ';'

/-- A quote that may stand around the path of an import. -/
def isQuote (c : Char) : Bool := c == '"' || c == '\''

/-- A whole parameter list without parentheses in it. -/
def flatParameters : Pattern := all [char '(', .many (· != ')'), char ')']

/-- An import, with the path in group 1. -/
def importStatement : Pattern :=
  all [.boundary, lit "import".toList, blanks1,
    opt (all [.few (· != ';'), lit "from".toList, blanks1]),
    .one isQuote, .group 1 (many1 fun c => !isQuote c), .one isQuote, blanks, char ';']

/-- A contract, interface or library: its kind, name and the rest of its head. -/
def container : Pattern :=
  all [.boundary,
    .group 1 (any [all [lit "abstract".toList, blanks1, lit "contract".toList],
      lit "contract".toList, lit "interface".toList, lit "library".toList]),
    blanks1, .group 2 identifier, .boundary, .group 3 (.many isSignature)]

def heritageClause : Pattern :=
  all [.boundary, lit "is".toList, blanks1, .group 1 (many1 fun _ => true)]

def structOrEnum : Pattern :=
  all [.boundary, .group 1 (any [lit "struct".toList, lit "enum".toList]), blanks1,
    .group 2 identifier, blanks, char '\x7b']

def eventOrError : Pattern :=
  all [.boundary, .group 1 (any [lit "event".toList, lit "error".toList]), blanks1,
    .group 2 identifier, blanks, char '(']

def modifier : Pattern :=
  all [.boundary, lit "modifier".toList, blanks1, .group 1 identifier, blanks,
    opt flatParameters, blanks, .group 2 (.many isSignature)]

def function : Pattern :=
  all [.boundary, lit "function".toList, blanks1, .group 1 identifier, blanks, char '(']

def constructor : Pattern :=
  all [.boundary, lit "constructor".toList, blanks, flatParameters, blanks,
    .group 1 (.many isSignature)]

/-- The fallback or receive function and the rest of its head. -/
def special : Pattern :=
  all [.notAfter fun c => Text.isWord c || c == '.',
    .group 1 (any [lit "fallback".toList, lit "receive".toList]), blanks, flatParameters, blanks,
    .group 2 (.many isSignature)]

/-! ## Passes -/

/-- The label of a container by the word that introduces it. -/
def containerLabel (kind : Text) : Label :=
  if kind == "interface".toList then .interfaceType
  else if kind == "library".toList then .moduleUnit
  else .classType

/-- Where the body of a container lies that ends its head at `index`. -/
def containerExtent (outline : Text) (index : Nat) : Extent :=
  if (outline.drop index).head? == some '\x7b' then ⟨some index, Bracket.braceEnd outline index⟩
  else ⟨none, outline.length - 1⟩

/-- Record a container, its body and its parents. One that ends in a semicolon is no definition. -/
def addContainer (s : Scan) (m : Match) : Scan :=
  if (s.outline.drop m.stop).head? == some ';' then s
  else
    let extent := containerExtent s.outline m.stop
    let (s, d) := s.define
      { label := containerLabel (m.group 1), name := m.group 2, start := m.start
        finish := some extent.last, nameAt := some (m.groupStart 2) }
    let s := s.addContainer d extent
    match heritageClause.search? (m.group 3) with
    | some h => s.addHeritage d (Bracket.splitTopLevel [','] (h.group 1)) .extendsType
    | none => s

/-- Record a struct or an enum. Only a struct owns what stands in it. -/
def addStructOrEnum (s : Scan) (m : Match) : Scan :=
  let isStruct := m.group 1 == "struct".toList
  let first := m.stop - 1
  let last := Bracket.braceEnd s.outline first
  let (s, d) := s.define
    { label := if isStruct then .structType else .enumType, name := m.group 2, start := m.start
      finish := some last, nameAt := some (m.groupStart 2) }
  if isStruct then s.addContainer d ⟨some first, last⟩ else s

/-- Record an event or an error, which ends at its semicolon. -/
def addEventOrError (s : Scan) (m : Match) : Scan :=
  let finish := match Text.find? [';'] (s.outline.drop m.stop) with
    | some j => m.stop + j
    | none => s.outline.length - 1
  (s.define
    { label := .element, name := m.group 2, start := m.start
      finish := some finish, nameAt := some (m.groupStart 2) }).1

/-- Record something that can be called, with the body after its head. The head ends at `headEnd`
and `tail` is what the head says of visibility. -/
def addCallable (s : Scan) (label : Label) (name : Text) (start headEnd : Nat) (tail : Text)
    (nameAt : Nat) : Scan :=
  let body := bodyAfter s.outline headEnd
  let (s, d) := s.define
    { label := label, name := name, start := start, finish := some body.last
      isExported := isExportedByKeywords tail, nameAt := some nameAt }
  s.addScope d body

def addModifier (s : Scan) (m : Match) : Scan :=
  addCallable s .method (m.group 1) m.start m.stop (m.group 2) (m.groupStart 1)

/-- Record a function. Its parameters may be functions with parentheses of their own. -/
def addFunction (s : Scan) (m : Match) : Scan :=
  let label : Label := if (s.ownerOf m.start).isSome then .method else .function
  let headEnd := Bracket.parenEnd s.outline (m.stop - 1) + 1
  addCallable s label (m.group 1) m.start headEnd ((s.outline.drop headEnd).takeWhile isSignature)
    (m.groupStart 1)

def addConstructor (s : Scan) (m : Match) : Scan :=
  addCallable s .constructor "constructor".toList m.start m.stop (m.group 1) m.start

/-- Record a fallback or receive function. One that is not external is a call. -/
def addSpecial (s : Scan) (m : Match) : Scan :=
  if Text.has "external".toList (m.group 2) then
    addCallable s .method (m.group 1) m.start m.stop (m.group 2) (m.groupStart 1)
  else s

def scan (path code outline : Text) : Scan :=
  let s : Scan := { path := path, code := code, outline := outline }
  let s := (importStatement.findAll code).foldl (fun s m => s.addImport (m.group 1)) s
  let s := (container.findAll outline).foldl addContainer s
  let s := (structOrEnum.findAll outline).foldl addStructOrEnum s
  let s := (eventOrError.findAll outline).foldl addEventOrError s
  let s := (modifier.findAll outline).foldl addModifier s
  let s := (function.findAll outline).foldl addFunction s
  let s := (constructor.findAll outline).foldl addConstructor s
  (special.findAll outline).foldl addSpecial s

/-- Extract a Solidity file. Calls outside of all bodies are left out. -/
def extract (path source : Text) : Extraction :=
  let s := scan path (CommentStyle.cFamily.code source) (CommentStyle.cFamily.outline source)
  s.result (some .solidity) (s.calls (Language.callExclusions .solidity) none)

end CodeAtlas.Solidity
