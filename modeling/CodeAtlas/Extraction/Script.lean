import CodeAtlas.Comment
import CodeAtlas.Extraction.Scan

set_option autoImplicit false

/-! # Scanning JavaScript and TypeScript

Namespaces first, then classes with their members, interfaces and enums, then functions: those that
are declared and those that are assigned to a variable.
-/

namespace CodeAtlas.Script

open Pattern

/-! ## Patterns -/

/-- Not the continuation of a name and not a member access. -/
def notMember : Pattern := .notAfter fun c => isNamePart c || c == '.'

def exported : Pattern := opt (.group 1 (.seq (lit "export".toList) blanks1))

/-- A word that may stand here, with the white space after it. -/
def optWord (w : Text) : Pattern := opt (.seq (lit w) blanks1)

def isQuote (c : Char) : Bool := c == '"' || c == '\''

/-- A quoted path on one line, with the path as group 1. -/
def quotedPath : Pattern :=
  all [.one isQuote, .group 1 (many1 fun c => !isQuote c && c != '\n'), .one isQuote]

/-- A character of the list of names of an import. -/
def isImportList (c : Char) : Bool :=
  isNamePart c || c == '*' || c == '\x7b' || c == '\x7d' || Text.isBlank c || c == ','

def importDeclaration : Pattern :=
  all [.boundary, lit "import".toList, blanks1, optWord "type".toList,
    opt (all [few1 isImportList, blanks1, lit "from".toList, blanks1]), quotedPath]

/-- An export of what another file exports. -/
def reExport : Pattern :=
  all [.boundary, lit "export".toList, blanks1, optWord "type".toList,
    any [.seq (char '*') (opt (all [blanks1, lit "as".toList, blanks1, many1 isNamePart])),
      all [char '\x7b', .many (· != '\x7d'), char '\x7d']],
    blanks, lit "from".toList, blanks1, quotedPath]

def loadCall (w : Text) : Pattern :=
  all [notMember, lit w, blanks, char '(', blanks, quotedPath, blanks, char ')']

/-- The four forms of an import, in the order in which they are looked for. -/
def importForms : List Pattern :=
  [importDeclaration, reExport, loadCall "require".toList, loadCall "import".toList]

def moduleHead : Pattern :=
  all [notMember, exported, optWord "declare".toList,
    any [lit "namespace".toList, lit "module".toList], blanks1, .group 2 dottedName, blanks,
    char '\x7b']

/-- A character of the head of a class. -/
def isHead (c : Char) : Bool := c != '\x7b' && c != ';'

/-- A class with its opening brace; group 3 is what follows its name. -/
def classHead : Pattern :=
  all [notMember, exported, optWord "default".toList, optWord "declare".toList,
    optWord "abstract".toList, lit "class".toList, blanks1, .group 2 identifier, blanks,
    .group 3 (.many isHead), char '\x7b']

def interfaceHead : Pattern :=
  all [notMember, exported, optWord "declare".toList, lit "interface".toList, blanks1,
    .group 2 identifier, blanks, .group 3 (.many isHead), char '\x7b']

def enumHead : Pattern :=
  all [notMember, exported, optWord "declare".toList, optWord "const".toList, lit "enum".toList,
    blanks1, .group 2 identifier, blanks, char '\x7b']

/-- Type parameters without a parenthesis in them. -/
def typeParameters : Pattern :=
  opt (all [char '<', .many (fun c => c != '>' && c != '('), char '>'])

def functionHead : Pattern :=
  all [notMember, exported, optWord "default".toList, optWord "async".toList,
    lit "function".toList, blanks, opt (char '*'), blanks, .group 2 identifier, blanks,
    typeParameters, blanks, char '(']

/-- A declared type, up to the sign that assigns. -/
def declaredType : Pattern := opt (.seq (char ':') (many1 fun c => c != '=' && c != ';'))

/-- A function assigned to a variable; group 3 is the head of the function. -/
def variableFunction : Pattern :=
  all [notMember, exported, any [lit "const".toList, lit "let".toList, lit "var".toList], blanks1,
    .group 2 identifier, blanks, declaredType, char '=', blanks, optWord "async".toList,
    .group 3 (any [
      all [lit "function".toList, .boundary, blanks, opt (char '*'), blanks, opt identifier,
        blanks, char '('],
      char '(',
      all [identifier, blanks, lit "=>".toList]])]

def isGap (c : Char) : Bool := c == ' ' || c == '\t'

def isBodyGap (c : Char) : Bool := isGap c || c == '\r' || c == '\n'

/-- Where a member may start: after a semicolon or a brace, or at the start of a line. -/
def memberStart : Pattern :=
  .seq (.alt (.after fun c => c == ';' || c == '\x7b' || c == '\x7d') (.notAfter (· != '\n')))
    (.many isBodyGap)

def modifiers : Pattern :=
  .group 1 (.star (.seq (any [lit "public".toList, lit "private".toList, lit "protected".toList,
    lit "static".toList, lit "async".toList, lit "readonly".toList, lit "override".toList,
    lit "abstract".toList, lit "declare".toList, lit "get".toList, lit "set".toList])
    (many1 isGap)))

def decorators : Pattern :=
  .star (all [char '@', many1 fun c => isNamePart c || c == '.',
    opt (all [char '(', .many (· != ')'), char ')']), .many isBodyGap])

/-- A method with its opening parenthesis; group 2 is its name with the signs before it. -/
def methodHead : Pattern :=
  all [memberStart, decorators, modifiers,
    .group 2 (all [opt (char '*'), .many isGap, opt (char '#'), identifier]), .many isGap,
    typeParameters, .many isGap, char '(']

/-- A field that holds an arrow function; group 3 is the head of the function. -/
def fieldArrow : Pattern :=
  all [memberStart, modifiers, .group 2 (.seq (opt (char '#')) identifier), .many isGap,
    declaredType, char '=', .many isGap, opt (.seq (lit "async".toList) (many1 isGap)),
    .group 3 (any [char '(', all [identifier, .many isGap, lit "=>".toList]])]

def extendsClause : Pattern :=
  all [.boundary, lit "extends".toList, blanks1, .group 1 (few1 fun _ => true),
    .ahead (.alt (wholeWord ["implements".toList]) .finish)]

def implementsClause : Pattern :=
  all [.boundary, lit "implements".toList, blanks1, .group 1 (many1 fun _ => true), .finish]

/-- The arrow after a parameter list, with a result type before it or not. -/
def arrowAfterParameters : Pattern :=
  all [blanks,
    opt (all [char ':', blanks, few1 fun c => c != '=' && c != ';' && c != '\x7b']),
    blanks, lit "=>".toList]

/-! ## Arrow functions -/

/-- The position after the arrow of the function whose head starts at `head`. Its parameter list, if
it starts with one, is followed by position `next`. -/
def arrowEnd? (outline : Text) (head next : Nat) : Option Nat :=
  let rest := outline.drop head
  if rest.head? == some '(' then
    (arrowAfterParameters.matchAt? (Cursor.window outline next outline.length)).map (·.stop)
  else (Text.find? "=>".toList rest).map fun j => head + j + 2

/-- The body after the arrow that ends at `index`. A body that is an expression opens right before
the expression. -/
def arrowBody (outline : Text) (index : Nat) : Extent :=
  let rest := outline.drop index
  let first := index + (rest.takeWhile Text.isBlank).length
  if (outline.drop first).head? == some '\x7b' then ⟨some first, Bracket.braceEnd outline first⟩
  else ⟨some (first - 1), Bracket.expressionEnd outline first⟩

/-- The body of the arrow function whose head starts at `head`. -/
def arrowBody? (outline : Text) (head : Nat) : Option Extent :=
  (arrowEnd? outline head (Bracket.parenEnd outline head + 1)).map (arrowBody outline)

/-- The body of an arrow function whose head may be counted from the end of the text. -/
def arrowBodyFrom (outline : Text) (head : Int) : Except OutOfRange (Option Extent) :=
  if 0 ≤ head then .ok (arrowBody? outline head.toNat)
  else
    let first := place outline.length head
    if (outline.drop first).head? == some '(' then
      (Bracket.blockEndFrom '(' ')' outline head).map fun last =>
        (arrowEnd? outline first (last + 1).toNat).map (arrowBody outline)
    else .ok ((arrowEnd? outline first 0).map (arrowBody outline))

/-! ## Passes -/

/-- Is a member visible from outside? -/
def isPublicMember (modifiers rawName : Text) : Bool :=
  !rawName.contains '#' &&
    ((wholeWord ["private".toList, "protected".toList]).search? modifiers).isNone

def addModule (s : Scan) (m : Match) : Scan :=
  let first := m.stop - 1
  let last := Bracket.braceEnd s.outline first
  let (s, d) := s.define
    { label := .moduleUnit, name := m.group 2, start := m.start, finish := some last
      isExported := m.hasGroup 1, nameAt := some (m.groupStart 2) }
  s.addContainer d ⟨some first, last⟩

def addExtends (s : Scan) (d : Option Definition) (clauses : Text) : Scan :=
  match extendsClause.search? clauses with
  | some h => s.addHeritage d (Bracket.splitTopLevel [','] (h.group 1)) .extendsType
  | none => s

def addImplements (s : Scan) (d : Option Definition) (clauses : Text) : Scan :=
  match implementsClause.search? clauses with
  | some h => s.addHeritage d (Bracket.splitTopLevel [','] (h.group 1)) .implementsType
  | none => s

/-- Record a method of the class whose body opens at `first`, if it stands in that body directly. -/
def addMethod (first : Nat) (s : Scan) (m : Match) : Scan :=
  let rawName := m.group 2
  let name := rawName.dropWhile fun c => !isNameStart c
  let nameAt := m.groupStart 2 + (rawName.length - name.length)
  if Language.nonMethods.contains name || Bracket.depthBetween s.outline (first + 1) nameAt != 0
  then s
  else
    let body := bodyAfter s.outline (Bracket.parenEnd s.outline (m.stop - 1) + 1)
    let (s, d) := s.define
      { label := if name == "constructor".toList then .constructor else .method
        name := name, start := nameAt, finish := some body.last
        isExported := isPublicMember (m.group 1) rawName, nameAt := some nameAt }
    s.addScope d body

/-- Record a field that holds an arrow function, if it stands in the body directly. -/
def addFieldArrow (first : Nat) (s : Scan) (m : Match) : Scan :=
  let rawName := m.group 2
  let name := rawName.dropWhile fun c => !isNameStart c
  let nameAt := m.groupStart 2 + (rawName.length - name.length)
  if Bracket.depthBetween s.outline (first + 1) nameAt != 0 then s
  else match arrowBody? s.outline (m.groupStart 3) with
    | none => s
    | some body =>
      let (s, d) := s.define
        { label := .method, name := name, start := nameAt, finish := some body.last
          isExported := isPublicMember (m.group 1) rawName, nameAt := some nameAt }
      s.addScope d body

def addMembers (s : Scan) (first last : Nat) : Scan :=
  let s := (methodHead.findAllIn s.outline (first + 1) last).foldl (addMethod first) s
  (fieldArrow.findAllIn s.outline (first + 1) last).foldl (addFieldArrow first) s

/-- Record a class, its parents and its members. A class without a name is no definition. -/
def addClass (s : Scan) (m : Match) : Scan :=
  let name := m.group 2
  if name == "extends".toList || name == "implements".toList then s
  else
    let first := m.stop - 1
    let last := Bracket.braceEnd s.outline first
    let (s, d) := s.define
      { label := .classType, name := name, start := m.start, finish := some last
        isExported := m.hasGroup 1, nameAt := some (m.groupStart 2) }
    let s := s.addContainer d ⟨some first, last⟩
    let clauses := Bracket.stripGenerics (m.group 3)
    let s := addImplements (addExtends s d clauses) d clauses
    if d.isSome then addMembers s first last else s

def addInterface (s : Scan) (m : Match) : Scan :=
  let last := Bracket.braceEnd s.outline (m.stop - 1)
  let (s, d) := s.define
    { label := .interfaceType, name := m.group 2, start := m.start, finish := some last
      isExported := m.hasGroup 1, nameAt := some (m.groupStart 2) }
  addExtends s d (Bracket.stripGenerics (m.group 3))

def addEnum (s : Scan) (m : Match) : Scan :=
  (s.define
    { label := .enumType, name := m.group 2, start := m.start
      finish := some (Bracket.braceEnd s.outline (m.stop - 1))
      isExported := m.hasGroup 1, nameAt := some (m.groupStart 2) }).1

def addFunction (s : Scan) (m : Match) : Scan :=
  let body := bodyAfter s.outline (Bracket.parenEnd s.outline (m.stop - 1) + 1)
  let (s, d) := s.define
    { label := .function, name := m.group 2, start := m.start, finish := some body.last
      isExported := m.hasGroup 1, nameAt := some (m.groupStart 2) }
  s.addScope d body

/-- The body of the function assigned to a variable: it has to have one. -/
def variableBody? (outline : Text) (m : Match) : Option Extent :=
  if "function".toList.isPrefixOf (m.group 3) then
    let body := bodyAfter outline (Bracket.parenEnd outline (m.stop - 1) + 1)
    if body.first.isSome then some body else none
  else arrowBody? outline (m.groupStart 3)

def addVariableFunction (s : Scan) (m : Match) : Scan :=
  match variableBody? s.outline m with
  | none => s
  | some body =>
    let (s, d) := s.define
      { label := .function, name := m.group 2, start := m.start, finish := some body.last
        isExported := m.hasGroup 1, nameAt := some (m.groupStart 2) }
    s.addScope d body

def scan (path code outline : Text) : Scan :=
  let s : Scan := { path := path, code := code, outline := outline }
  let s := importForms.foldl
    (fun s p => (p.findAll code).foldl (fun s m => s.addImport (m.group 1)) s) s
  let s := (moduleHead.findAll outline).foldl addModule s
  let s := (classHead.findAll outline).foldl addClass s
  let s := (interfaceHead.findAll outline).foldl addInterface s
  let s := (enumHead.findAll outline).foldl addEnum s
  let s := (functionHead.findAll outline).foldl addFunction s
  (variableFunction.findAll outline).foldl addVariableFunction s

/-- Extract a file of one of the two languages. Calls outside of all bodies belong to the file. -/
def extract (language : Language) (path source : Text) : Extraction :=
  let s := scan path (CommentStyle.script.code source) (CommentStyle.script.outline source)
  s.result (some language)
    (s.calls (Language.callExclusions language) (some (Identity.ofFile path)))

end CodeAtlas.Script
