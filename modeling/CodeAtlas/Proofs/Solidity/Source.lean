import CodeAtlas.Extraction.Solidity
import CodeAtlas.Proofs.Printed.Functions

set_option autoImplicit false

/-! # Contracts in their printed form

A source file that is a list of contracts, each with its parents and its functions, each function with
the names it calls. A contract is printed with one line for its head, one for each function, and one for
its closing brace:

    contract N is P1, P2 {
        function f() public { g1(); g2(); }
    }

`contractSites` tells where everything stands in the printed text, and `described` what is there to be
extracted: a class for each contract, a method for each function, the parents and the calls. It speaks
of identities through a function from positions, as the identity of a definition depends on what else
is in the file.
-/

namespace CodeAtlas.Solidity

/-- The words that the patterns know a construct by. -/
def keywords : List Text :=
  ["abstract", "contract", "interface", "library", "struct", "enum", "event", "error", "modifier",
    "function", "constructor", "fallback", "receive", "import", "is"].map String.toList

/-- An identifier that is no keyword and that may be called. -/
abbrev Name := Printed.Name keywords .solidity

abbrev FunctionDecl := Printed.Function keywords .solidity

structure ContractDecl where
  name : Name
  parents : List Name
  functions : List FunctionDecl

/-! ## The printed form -/

/-- Functions are public, and each is on one line with its calls. -/
def form : Printed.Form where
  signature := " public ".toList
  gap := " ".toList
  indent := []
  finish := "; ".toList
  madeOf_signature := by decide
  marks := by decide

/-- The line of a function. -/
def printFunction (f : FunctionDecl) : Text := "    ".toList ++ f.print form

namespace ContractDecl

/-- What comes between the name and the opening brace: the parents, if there are any. -/
def printTail (c : ContractDecl) : Text :=
  match c.parents with
  | [] => " ".toList
  | ps => " is ".toList ++ ", ".toList.intercalate (ps.map (·.text)) ++ " ".toList

def printHead (c : ContractDecl) : Text := "contract ".toList ++ c.name.text ++ c.printTail

/-- The body, which starts on the line of the head. -/
def printBlock (c : ContractDecl) : Text :=
  "\x7b\n".toList ++ c.functions.flatMap printFunction ++ "\x7d\n".toList

def print (c : ContractDecl) : Text := c.printHead ++ c.printBlock

end ContractDecl

/-- A file of contracts. -/
def printSource (cs : List ContractDecl) : Text := cs.flatMap ContractDecl.print

/-! ## Where everything stands -/

/-- A contract in a file: the position of its keyword and its line. -/
abbrev ContractSite := Site ContractDecl

/-- A function in a file: the position of its keyword, its line, and where its contract starts. -/
structure FunctionSite extends Site FunctionDecl where
  contractStart : Nat

/-- The keyword of a function comes after four spaces. -/
def FunctionSite.ofLine (contractStart : Nat) (x : Site FunctionDecl) : FunctionSite :=
  ⟨x.behind 4, contractStart⟩

def contractSites (cs : List ContractDecl) : List ContractSite := Site.ofList ContractDecl.print 0 0 cs

namespace ContractSite

/-- The position of the opening brace. -/
def blockStart (p : ContractSite) : Nat := p.start + p.item.printHead.length

/-- The position of the closing brace, which a line feed follows. -/
def blockEnd (p : ContractSite) : Nat := p.start + p.item.print.length - 2

/-- The functions of a contract start on the line after its head. -/
def functionSites (p : ContractSite) : List FunctionSite :=
  (Site.ofList printFunction (blockStart p + 2) (p.line + 1) p.item.functions).map
    (FunctionSite.ofLine p.start)

end ContractSite

/-- All functions of a file. -/
def allFunctionSites (cs : List ContractDecl) : List FunctionSite :=
  (contractSites cs).flatMap ContractSite.functionSites

/-! ## What there is to extract -/

namespace ContractSite

/-- The class of a contract. It ends on the line of its closing brace. -/
def definition (id : Nat → Text) (p : ContractSite) : Definition where
  id := id p.start
  label := .classType
  name := p.item.name.text
  startLine := p.line
  endLine := p.line + p.item.functions.length + 1
  isExported := true
  start := p.start
  owner := none

/-- Its parents, in order; its own name is left out. -/
def heritage (id : Nat → Text) (p : ContractSite) : List Heritage :=
  ((p.item.parents.map (·.text)).filter (· ≠ p.item.name.text)).map fun parent =>
    ⟨id p.start, p.item.name.text, parent, .extendsType⟩

end ContractSite

/-- The method of a function, which its contract owns. -/
def FunctionSite.definition (id : Nat → Text) (q : FunctionSite) : Definition where
  id := id q.start
  label := .method
  name := q.item.name.text
  startLine := q.line
  endLine := q.line
  isExported := true
  start := q.start
  owner := some (id q.contractStart)

/-- Everything in a file of contracts, in text order. -/
def described (path : Text) (id : Nat → Text) (cs : List ContractDecl) : Extraction where
  path := path
  language := some .solidity
  definitions := (contractSites cs).flatMap fun p =>
    ContractSite.definition id p :: (ContractSite.functionSites p).map (·.definition id)
  imports := []
  calls := (allFunctionSites cs).flatMap fun q => q.item.callsFrom (id q.start)
  heritage := (contractSites cs).flatMap (ContractSite.heritage id)

end CodeAtlas.Solidity
