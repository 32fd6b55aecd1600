import CodeAtlas.Archive.Read
import CodeAtlas.Extraction.File
import CodeAtlas.Graph.Build
import CodeAtlas.Progress.Channel
import CodeAtlas.Store.Basic

set_option autoImplicit false

/-! # Ingestion

An ingestion reads an archive, extracts its files, builds the graph and loads the store, and emits
events on the way. Files are extracted side by side, so they finish in any order; their results are
put back into the order of the files. A store that cannot be loaded does not fail the ingestion. An
ingestion can be cancelled before each of its five phases.
-/

namespace CodeAtlas

structure IngestOptions where
  read : ReadOptions
  build : BuildOptions := {}
  /-- The languages whose scanner fails. -/
  fails : Language → Bool := fun _ => false
  /-- How many files are extracted at a time. -/
  workers : Int := 4

structure Ingested where
  graph : Graph
  contents : Mapping Text
  load : LoadResult

inductive IngestError where
  | cancelled
  | unreadable (cause : ArchiveError)
  /-- There are files to extract and nobody to do it. -/
  | noWorkers
deriving DecidableEq

def IngestError.message : IngestError → Text
  | cancelled => "Ingestion was terminated".toList
  | unreadable cause => cause.message
  | noWorkers => "max_workers must be greater than 0".toList

/-- A run of an ingestion: what it emitted, the store it left, and how it ended. -/
structure Run [Engine] where
  events : List Event
  store : Store
  outcome : Except IngestError Ingested

namespace Ingestion

/-! ## Extraction in any order -/

/-- The results in the places of their files, after the files numbered in `order` have finished. A
place whose file has not finished is empty. -/
def collect {α β : Type} (f : α → β) (files : List α) (order : List Nat) : List (Option β) :=
  order.foldl
    (fun slots i => match files[i]? with
      | some a => slots.set i (some (f a))
      | none => slots)
    (List.replicate files.length none)

/-- The percentage when `done` of `total` files are finished. -/
def parsePercent (done total : Nat) : Nat := 15 + 45 * done / total

/-- The events while files finish, `done` being finished already and `last` the percentage of the
last event. There is none while the percentage stays the same. -/
def parseEventsFrom (total : Nat) : Nat → Nat → List SourceFile → List Event
  | _, _, [] => []
  | done, last, f :: rest =>
    let percent := parsePercent (done + 1) total
    let later := parseEventsFrom total (done + 1) percent rest
    if percent == last then later
    else
      { phase := .parseFiles
        percent := (percent : Nat)
        message := "Parsed ".toList ++ Text.ofNat (done + 1) ++ '/' :: Text.ofNat total ++
          " files".toList
        detail := some f.path } :: later

/-- The events while the files finish in a given order. -/
def parseEvents (files : List SourceFile) (order : List Nat) : List Event :=
  parseEventsFrom files.length 0 0 (order.filterMap (files[·]?))

/-! ## Events -/

def readingEvent : Event :=
  { phase := .extractArchive, percent := 0, message := "Reading archive...".toList }

def foundEvent (n : Nat) : Event :=
  { phase := .extractArchive, percent := 15
    message := "Found ".toList ++ Text.ofNat n ++ " files".toList }

def parsingEvent : Event :=
  { phase := .parseFiles, percent := 15, message := "Parsing files...".toList }

def buildingEvent : Event :=
  { phase := .buildGraph, percent := 60, message := "Building graph...".toList }

def sizeWords (g : Graph) : Text :=
  Text.ofNat g.nodeCount ++ " nodes, ".toList ++ Text.ofNat g.edgeCount ++ " relationships".toList

def builtEvent (g : Graph) : Event :=
  { phase := .buildGraph, percent := 80, message := "Graph built: ".toList ++ sizeWords g }

def loadingEvent : Event :=
  { phase := .loadStore, percent := 80, message := "Loading graph store...".toList }

def loadedEvent (r : LoadResult) : Event :=
  { phase := .loadStore
    percent := 95
    message := if r.success then "Loaded ".toList ++ Text.ofNat r.count ++ " nodes".toList
      else "Graph store unavailable".toList }

def readyEvent (g : Graph) (r : LoadResult) : Event :=
  { phase := .ready
    percent := 100
    message := "Ready: ".toList ++ sizeWords g
    detail := if r.success then none else some "Continuing with the in-memory graph only".toList }

def errorEvent (e : IngestError) : Event :=
  { phase := .error, percent := 0, message := "Ingestion failed".toList, detail := some e.message }

/-! ## The run -/

variable [Engine]

/-- Put a graph into a store, in place of what was there. A store that cannot be reset counts as a
load that failed. -/
def loadStore (faults : Faults) (g : Graph) (s : Store) : Store × LoadResult :=
  match s.reset faults with
  | (s, .error _) => (s, .failed)
  | (s, .ok ()) => s.load faults (Table.nodes s.delimiter g) (Table.edges s.delimiter g)

/-- The contents of files by path; of several files of one path the last counts. -/
def contentsOf (files : List SourceFile) : Mapping Text :=
  Mapping.ofList (files.map fun f => (f.path, f.content))

/-- What surrounds a run: the order in which `n` files finish, the number of phases after which it
is cancelled, and the calls that fail while the store is loaded. -/
structure Surroundings where
  order : Nat → List Nat := List.range
  cancelAfter : Option Nat := none
  faults : Faults := Faults.none

/-- Is the run cancelled before phase `i`, counted from zero? -/
def Surroundings.cancelledAt (w : Surroundings) (i : Nat) : Bool := w.cancelAfter.any (· ≤ i)

/-- A run that fails after some events: one more event tells so, and the store is as it was. -/
def failure (events : List Event) (store : Store) (e : IngestError) : Run :=
  ⟨events ++ [errorEvent e], store, .error e⟩

def run (o : IngestOptions) (w : Surroundings) (archive : Archive) (store : Store) : Run :=
  if w.cancelledAt 0 then ⟨[], store, .error .cancelled⟩
  else
    match archive.read o.read with
    | .error e => failure [readingEvent] store (.unreadable e)
    | .ok files =>
      let events := [readingEvent, foundEvent files.length]
      if w.cancelledAt 1 then ⟨events, store, .error .cancelled⟩
      else if files ≠ [] ∧ o.workers ≤ 0 then failure (events ++ [parsingEvent]) store .noWorkers
      else
        let order := w.order files.length
        let extract := fun f : SourceFile => Extraction.ofFile o.fails f.path f.content
        let results := (collect extract files order).filterMap id
        let events := events ++ parsingEvent :: parseEvents files order
        if w.cancelledAt 2 then ⟨events, store, .error .cancelled⟩
        else
          let contents := contentsOf files
          let graph := Graph.build o.build results contents
          let events := events ++ [buildingEvent, builtEvent graph]
          if w.cancelledAt 3 then ⟨events, store, .error .cancelled⟩
          else
            let (store, load) := loadStore w.faults graph store
            let events := events ++ [loadingEvent, loadedEvent load]
            if w.cancelledAt 4 then ⟨events, store, .error .cancelled⟩
            else ⟨events ++ [readyEvent graph load], store, .ok ⟨graph, contents, load⟩⟩

end Ingestion

end CodeAtlas
