import CodeAtlas.Path
import CodeAtlas.Text.Lower

set_option autoImplicit false

/-! # Languages

The languages that can be scanned, the file extensions they are known by, and the words of each
that look like a call and are none.
-/

namespace CodeAtlas

inductive Language where
  | solidity
  | javascript
  | typescript
deriving DecidableEq

namespace Language

def all : List Language := [solidity, javascript, typescript]

def name : Language → Text
  | solidity => "solidity".toList
  | javascript => "javascript".toList
  | typescript => "typescript".toList

def ofName? (t : Text) : Option Language := all.find? fun l => l.name == t

/-! ## Extensions -/

/-- The extensions of source files and their languages. -/
def extensions : List (Text × Language) :=
  [(".sol".toList, solidity),
    (".js".toList, javascript), (".jsx".toList, javascript),
    (".mjs".toList, javascript), (".cjs".toList, javascript),
    (".ts".toList, typescript), (".tsx".toList, typescript),
    (".mts".toList, typescript), (".cts".toList, typescript)]

def ofPath? (path : Text) : Option Language := extensions.lookup (Text.lower (Path.suffix path))

def supportedExtensions : List Text := sortBy Text.le (extensions.map (·.1))

/-- The extensions that are tried, in this order, for an import that names none. -/
def importExtensions : Language → List Text
  | solidity => [".sol".toList]
  | javascript =>
    [".js".toList, ".jsx".toList, ".mjs".toList, ".cjs".toList, ".ts".toList, ".tsx".toList]
  | typescript =>
    [".ts".toList, ".tsx".toList, ".d.ts".toList, ".js".toList, ".jsx".toList, ".mts".toList]

/-! ## Words -/

/-- The words of a line, between single spaces. -/
def words (line : String) : List Text := line.toList.splitOn ' '

/-- The version of the word lists. It changes whenever a list does. -/
def wordListVersion : Text := ['1']

/-- Control flow, declarations and built-ins that look like a call. -/
def callExclusions : Language → List Text
  | solidity =>
    words "if for while do return returns new delete" ++
    words "require assert revert emit unchecked try catch" ++
    words "mapping payable constructor modifier function event" ++
    words "error fallback receive view pure memory storage" ++
    words "calldata override virtual abi keccak256 sha256" ++
    words "ripemd160 ecrecover addmod mulmod type address" ++
    words "bool string bytes uint int uint8 uint16 uint32" ++
    words "uint64 uint128 uint256 int8 int16 int32 int64" ++
    words "int128 int256 bytes1 bytes4 bytes32"
  | javascript | typescript =>
    words "if for while do switch catch return typeof" ++
    words "instanceof new function super constructor await" ++
    words "yield delete void with else try import require" ++
    words "class extends in of case throw async"

/-- Words that start a statement in a class body and are no method names. -/
def nonMethods : List Text :=
  words "if for while switch catch return function with" ++
  words "do else try super new typeof await yield"

end Language

end CodeAtlas
