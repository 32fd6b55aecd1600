import CodeAtlas.Text.Digit

set_option autoImplicit false

/-! # Command lines

A command line is a list of words. A word that starts with a dash names an option, unless it is a
negative number or holds a space; an option may be shortened as long as it stays unambiguous, and
its value follows it after an equals sign or as the next word. After `--` no word names an option.

Words are read from left to right, and the first one that asks for help or is wrong decides.
-/

namespace CodeAtlas.CommandLine

inductive OptionKind where
  | help
  | flag
  | value
  | integer
deriving DecidableEq

structure OptionSpec where
  names : List Text
  kind : OptionKind
deriving DecidableEq

/-- Why a command line is not carried out. -/
inductive Stop where
  /-- It asks for help. -/
  | help
  /-- It is wrong. -/
  | usage
deriving DecidableEq

inductive Command where
  | ingest (archive : Text) (queries : List Text)
  | serve
deriving DecidableEq

/-! ## Words -/

/-- A word by its form. -/
inductive Word where
  | plain (t : Text)
  | separator
  /-- An option, none if it is unknown, with the value attached to it. -/
  | option (spec : Option OptionSpec) (name : Text) (attached : Option Text)

def splitEquals (t : Text) : Text × Option Text :=
  let name := t.takeWhile (· != '=')
  if name.length < t.length then (name, some (t.drop (name.length + 1))) else (t, none)

def dropLastBreak (t : Text) : Text := if t.getLast? == some '\n' then t.dropLast else t

def isNegativeNumber (t : Text) : Bool :=
  match dropLastBreak t with
  | '-' :: t =>
    let whole := t.takeWhile Text.isDigit
    match t.drop whole.length with
    | [] => !whole.isEmpty
    | '.' :: places => !places.isEmpty && places.all Text.isDigit
    | _ => false
  | _ => false

/-- The names of all options with their options. -/
def namesOf (specs : List OptionSpec) : List (Text × OptionSpec) :=
  specs.flatMap fun s => s.names.map fun n => (n, s)

/-- The options a word may mean that is no option's full name: those that it shortens or, with a
single dash, the one of its first letter with the rest as value. -/
def shortened (specs : List OptionSpec) (t : Text) : List (Text × OptionSpec × Option Text) :=
  match t with
  | '-' :: '-' :: _ =>
    let (name, attached) := splitEquals t
    ((namesOf specs).filter fun p => name.isPrefixOf p.1).map fun p => (p.1, p.2, attached)
  | _ =>
    (namesOf specs).filterMap fun p =>
      if p.1 == t.take 2 then some (p.1, p.2, some (t.drop 2))
      else if t.isPrefixOf p.1 then some (p.1, p.2, none)
      else none

/-- The form of a word before any `--`; an ambiguous option is an error. -/
def classify (specs : List OptionSpec) (t : Text) : Except Stop Word :=
  if t.head? != some '-' || t.length == 1 then .ok (.plain t)
  else
    match (namesOf specs).find? fun p => p.1 == t with
    | some p => .ok (.option (some p.2) p.1 none)
    | none =>
      let (name, attached) := splitEquals t
      match (namesOf specs).find? fun p => p.1 == name with
      | some p => .ok (.option (some p.2) p.1 attached)
      | none =>
        match shortened specs t with
        | [(name, spec, attached)] => .ok (.option (some spec) name attached)
        | _ :: _ :: _ => .error .usage
        | [] =>
          if isNegativeNumber t || t.contains ' ' then .ok (.plain t)
          else .ok (.option none t none)

def classifyAll (specs : List OptionSpec) : List Text → Except Stop (List Word)
  | [] => .ok []
  | t :: rest =>
    if t == "--".toList then .ok (.separator :: rest.map .plain)
    else
      match classify specs t, classifyAll specs rest with
      | .ok w, .ok ws => .ok (w :: ws)
      | _, _ => .error .usage

/-! ## Options and arguments -/

structure Collected where
  argument : Option Text := none
  /-- Was the argument the last word? -/
  argumentLast : Bool := false
  /-- The option that still waits for its value. -/
  waiting : Option (Text × OptionKind) := none
  /-- Option names and values in order. -/
  values : List (Text × Text) := []
  /-- Was there a word that nobody asked for? -/
  hasExtra : Bool := false

/-- What becomes of an option without value to which something is attached. The letters attached to
one that asks for help are options of their own, so they may only repeat it. -/
def misplaced (kind : OptionKind) (name attached : Text) : Stop :=
  match kind, name with
  | .help, [_, letter] =>
    if !attached.isEmpty && attached.all (· == letter) then .help else .usage
  | _, _ => .usage

def isFit (kind : OptionKind) (value : Text) : Bool :=
  kind != .integer || Text.isInteger value

def Collected.setValue (c : Collected) (kind : OptionKind) (name value : Text) :
    Except Stop Collected :=
  if isFit kind value then
    .ok { c with waiting := none, argumentLast := false, values := c.values ++ [(name, value)] }
  else .error .usage

/-- Read a word; `wanted` tells whether an argument is wanted. A separator belongs to the argument
that it stands beside. -/
def Collected.add (wanted : Bool) (c : Collected) (w : Word) : Except Stop Collected :=
  match c.waiting, w with
  | some (name, kind), .plain v => c.setValue kind name v
  | some _, _ => .error .usage
  | none, .plain t =>
    if wanted && c.argument.isNone then .ok { c with argument := some t, argumentLast := true }
    else .ok { c with argumentLast := false, hasExtra := true }
  | none, .separator =>
    if c.argumentLast || (wanted && c.argument.isNone) then .ok { c with argumentLast := false }
    else .ok { c with hasExtra := true }
  | none, .option none _ _ => .ok { c with argumentLast := false, hasExtra := true }
  | none, .option (some spec) name attached =>
    match spec.kind, attached with
    | .help, none => .error .help
    | .flag, none => .ok { c with argumentLast := false }
    | .help, some v | .flag, some v => .error (misplaced spec.kind name v)
    | kind, none => .ok { c with waiting := some (name, kind), argumentLast := false }
    | kind, some v => c.setValue kind name v

def collect (wanted : Bool) : List Word → Collected → Except Stop Collected
  | [], c => if c.waiting.isSome then .error .usage else .ok c
  | w :: ws, c =>
    match c.add wanted w with
    | .error e => .error e
    | .ok c => collect wanted ws c

/-! ## Commands -/

def helpOption : OptionSpec := ⟨["-h".toList, "--help".toList], .help⟩

def queryOption : OptionSpec := ⟨["--query".toList], .value⟩

def ingestOptions : List OptionSpec := [helpOption, queryOption]

def serveOptions : List OptionSpec :=
  [helpOption, ⟨["--stdio".toList], .flag⟩, ⟨["--http".toList], .flag⟩,
    ⟨["--port".toList], .integer⟩, ⟨["--host".toList], .value⟩]

def collectWords (specs : List OptionSpec) (wanted : Bool) (ts : List Text) :
    Except Stop Collected :=
  match classifyAll specs ts with
  | .error e => .error e
  | .ok ws => collect wanted ws {}

def parseCommand (name : Text) (rest : List Text) : Except Stop (Command × Bool) :=
  if name == "ingest".toList then
    match collectWords ingestOptions true rest with
    | .error e => .error e
    | .ok c =>
      match c.argument with
      | none => .error .usage
      | some archive => .ok (.ingest archive (c.values.map (·.2)), c.hasExtra)
  else if name == "serve".toList then
    match collectWords serveOptions false rest with
    | .error e => .error e
    | .ok c => .ok (.serve, c.hasExtra)
  else .error .usage

/-- Read the words before the name of a command: help is given, anything else is left over. -/
def parseFrom : Bool → List Text → Except Stop (Command × Bool)
  | _, [] => .error .usage
  | extra, t :: rest =>
    if t == "--".toList then .error .usage
    else
      match classify [helpOption] t with
      | .error e => .error e
      | .ok (.plain name) =>
        match parseCommand name rest with
        | .error e => .error e
        | .ok (c, more) => .ok (c, extra || more)
      | .ok .separator => .error .usage
      | .ok (.option none _ _) => parseFrom true rest
      | .ok (.option (some _) _ none) => .error .help
      | .ok (.option (some s) name (some v)) => .error (misplaced s.kind name v)

/-- Read a command line. Words that nobody asked for are reported last. -/
def parse (ts : List Text) : Except Stop Command :=
  match parseFrom false ts with
  | .error e => .error e
  | .ok (_, true) => .error .usage
  | .ok (c, false) => .ok c

end CodeAtlas.CommandLine
