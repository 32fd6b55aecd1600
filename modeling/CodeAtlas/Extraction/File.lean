import CodeAtlas.Extraction.Script
import CodeAtlas.Extraction.Solidity

set_option autoImplicit false

/-! # Extracting a file

The extension of a file picks the scanner. A file that no scanner fits yields nothing but itself,
and so does one whose scanner fails, which then still keeps its language.
-/

namespace CodeAtlas

namespace Language

def extract (l : Language) (path source : Text) : Extraction :=
  match l with
  | .solidity => Solidity.extract path source
  | .javascript | .typescript => Script.extract l path source

end Language

namespace Extraction

def ofFile? (path source : Text) : Option Extraction :=
  (Language.ofPath? path).map fun l => l.extract path source

/-- Extract a file; `fails` tells the languages whose scanner fails. -/
def ofFile (fails : Language → Bool) (path source : Text) : Extraction :=
  match Language.ofPath? path with
  | none => { path := path }
  | some l => if fails l then { path := path, language := some l } else l.extract path source

end Extraction

end CodeAtlas
