import CodeAtlas.Extraction.Script
import CodeAtlas.Proofs.Printed.Functions

set_option autoImplicit false

/-! # Functions in their printed form

A script that is a list of functions, each with the names it calls. A function is printed with one line
for its head, one for each call, and one for its closing brace:

    function f() {
        g1();
        g2();
    }

`functionSites` tells where everything stands in the printed text, and `described` what is there to be
extracted: a definition for each function and the calls. It speaks of identities through a function from
positions, as the identity of a definition depends on what else is in the file.

The pattern of declared functions asks for no white space between its keyword and the name, so a called
name that starts with the keyword reads as a declaration as well (`hidesFunction`).
-/

namespace CodeAtlas.Script

/-- The words that the patterns know a construct by. -/
def keywords : List Text :=
  ["export", "default", "declare", "abstract", "class", "interface", "enum", "namespace", "module",
    "const", "let", "var", "function", "import", "require"].map String.toList

/-- An identifier that is no keyword and that may be called. -/
abbrev Name := Printed.Name keywords .javascript

abbrev FunctionDecl := Printed.Function keywords .javascript

/-- Does the word start with the keyword of functions and go on with a name? -/
def hidesFunction (w : Text) : Bool :=
  "function".toList.isPrefixOf w && (w.drop 8).head?.any isNameStart

/-! ## The printed form -/

/-- Each call is on a line of its own. -/
def form : Printed.Form where
  signature := " ".toList
  gap := "\n".toList
  indent := "    ".toList
  finish := ";\n".toList
  madeOf_signature := by decide
  marks := by decide

/-- A file of functions. -/
def printSource (fs : List FunctionDecl) : Text := fs.flatMap (Printed.Function.print form)

/-! ## What there is to extract -/

/-- A function in a file: the position of its keyword and its line. -/
abbrev FunctionSite := Site FunctionDecl

def functionSites (fs : List FunctionDecl) : List FunctionSite :=
  Site.ofList (Printed.Function.print form) 0 0 fs

/-- The definition of a function. It ends on the line of its closing brace. -/
def FunctionSite.definition (id : Nat → Text) (q : FunctionSite) : Definition where
  id := id q.start
  label := .function
  name := q.item.name.text
  startLine := q.line
  endLine := q.line + q.item.calls.length + 1
  isExported := false
  start := q.start
  owner := none

/-- Everything in a file of functions, in text order. -/
def described (l : Language) (path : Text) (id : Nat → Text) (fs : List FunctionDecl) :
    Extraction where
  path := path
  language := some l
  definitions := (functionSites fs).map (·.definition id)
  imports := []
  calls := (functionSites fs).flatMap fun q => q.item.callsFrom (id q.start)
  heritage := []

end CodeAtlas.Script
