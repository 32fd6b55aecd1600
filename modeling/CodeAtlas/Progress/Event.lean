import CodeAtlas.Text.Basic

set_option autoImplicit false

/-! # Progress events

An ingestion reports its progress by events: the phase it is in, how far it has come in per cent, a
message and, for some events, a detail.
-/

namespace CodeAtlas

inductive Phase where
  | extractArchive
  | parseFiles
  | buildGraph
  | loadStore
  | ready
  | error
deriving DecidableEq

namespace Phase

def all : List Phase := [extractArchive, parseFiles, buildGraph, loadStore, ready, error]

def name : Phase → Text
  | extractArchive => "extract-archive".toList
  | parseFiles => "parse-files".toList
  | buildGraph => "build-graph".toList
  | loadStore => "load-store".toList
  | ready => "ready".toList
  | error => "error".toList

def ofName? (t : Text) : Option Phase := all.find? fun p => p.name == t

end Phase

structure Event where
  phase : Phase
  percent : Rat
  message : Text
  detail : Option Text := none
  /-- Is the percentage a zero that was reached from below? It is shown with its sign. -/
  minusZero : Bool := false

namespace Event

/-- An event from its parts: the phase has to be one, and the percentage between 0 and 100. A minus
sign before a zero is kept. -/
def ofParts? (phase : Text) (percent : Rat) (minus : Bool) (message : Text)
    (detail : Option Text) : Option Event :=
  match Phase.ofName? phase with
  | none => none
  | some p =>
    if 0 ≤ percent ∧ percent ≤ 100 then
      some ⟨p, percent, message, detail, minus && percent == 0⟩
    else none

/-! ## Lines -/

/-- A quotient rounded to the nearest number; a half goes to the even neighbour. -/
def roundDiv (n d : Nat) : Nat :=
  let q := n / d
  let r := n % d
  if 2 * r < d then q else if d < 2 * r then q + 1 else if q % 2 = 0 then q else q + 1

/-- A number from zero on with one decimal place. -/
def oneDecimal (x : Rat) : Text :=
  let tenths := roundDiv (10 * x.num.toNat) x.den
  Text.ofNat (tenths / 10) ++ '.' :: Text.ofNat (tenths % 10)

def percentText (e : Event) : Text :=
  if e.minusZero then '-' :: oneDecimal e.percent else oneDecimal e.percent

/-- The line that an event is shown as. An empty detail is not shown. -/
def line (e : Event) : Text :=
  let detail := match e.detail with
    | none | some [] => []
    | some d => " (".toList ++ d ++ [')']
  '[' :: Text.padRight 15 e.phase.name ++ "] ".toList ++ Text.padLeft 5 e.percentText ++
    "% ".toList ++ e.message ++ detail ++ ['\n']

end Event

end CodeAtlas
