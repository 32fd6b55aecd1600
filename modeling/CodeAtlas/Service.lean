import CodeAtlas.Archive.Locate
import CodeAtlas.Document
import CodeAtlas.Worker

set_option autoImplicit false

/-! # The service

The service answers in texts for people: how an ingestion ended, the rows of an answer, the counts
of the graph, and where definitions are found.
-/

namespace CodeAtlas.Service

def say (s : String) : Text := s.toList

/-- What is said before anything has been ingested. -/
def nothingYet : Text := say "No archive has been ingested yet."

def ingestReport : Except IngestError Ingested → Text
  | .error e => say "❌ Error ingesting archive: " ++ e.message
  | .ok r =>
    ['\n'].intercalate
      [say "✅ Ingestion complete",
        say "📁 Files: " ++
          Text.ofNat ((r.graph.stats.nodes.get? Label.file.name).getD 0),
        say "🔗 Nodes: " ++ Text.ofNat r.graph.nodeCount,
        say "↔️ Relationships: " ++ Text.ofNat r.graph.edgeCount,
        if r.load.success then
          say "🗄️ Store loaded: " ++ Text.ofNat r.load.count ++ say " nodes"
        else say "⚠️ Graph store unavailable; in-memory graph only"]

def lookupFailure (e : Directory.LookupError) : Text :=
  say "Error calling tool 'ingest_archive': " ++ e.message

def notFound (path : Text) : Text := say "❌ Archive not found: " ++ path

def queryReport : Except StoreError (List Database.Row) → Text
  | .ok rows => (Document.ofRows rows).render
  | .error .notReady => say "❌ " ++ StoreError.notReady.message
  | .error _ => say "❌ Error executing query"

def countLines (m : Mapping Nat) : Text :=
  (sortBy (fun a b => Text.le a.1 b.1) m).flatMap fun p =>
    say "   - " ++ p.1 ++ say ": " ++ Text.ofNat p.2 ++ ['\n']

def statsReport [Engine] (w : Worker) : Text :=
  match w.result with
  | none => nothingYet
  | some ⟨_, r⟩ =>
    let stats := r.graph.stats
    say "📊 Graph Statistics\n" ++ List.replicate 50 '=' ++ say "\n\n" ++
      say "Total Nodes: " ++ Text.ofNat r.graph.nodeCount ++ ['\n'] ++ countLines stats.nodes ++
      say "Total Relationships: " ++ Text.ofNat r.graph.edgeCount ++ ['\n'] ++
      countLines stats.relationships ++
      (if w.isReady then
        say "\nStore: " ++ Text.ofNat w.stats.nodes ++ say " nodes, " ++
          Text.ofNat w.stats.edges ++ say " edges\n"
      else say "\nStore: unavailable\n")

/-- Where a node is found; lines count from one. -/
def location (n : Node) : Text :=
  n.label.name ++ ' ' :: n.name ++ say " (" ++ n.path ++ ':' :: Text.ofInt (n.startLine + 1) ++
    '-' :: Text.ofInt (n.endLine + 1) ++ [')']

/-- The definitions of a name, of one label if one is given. An empty label counts as none. -/
def findReport [Engine] (w : Worker) (name : Text) (label : Option Text) : Text :=
  match w.result with
  | none => nothingYet
  | some ⟨_, r⟩ =>
    let answer := fun l : Option Label =>
      let nodes := r.graph.find (some name) l
      if nodes.isEmpty then say "No definitions named '" ++ name ++ ['\'']
      else ['\n'].intercalate (nodes.map location)
    match label with
    | none | some [] => answer none
    | some t =>
      match Label.ofName? t with
      | some l => answer (some l)
      | none => say "❌ Unknown label: " ++ t

end CodeAtlas.Service
