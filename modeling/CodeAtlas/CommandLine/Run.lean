import CodeAtlas.Archive.Locate
import CodeAtlas.CommandLine.Parse
import CodeAtlas.Document
import CodeAtlas.Store.Database
import CodeAtlas.Worker

set_option autoImplicit false

/-! # Carrying out a command

The ingest command shows the progress of an ingestion, the counts of its graph, and the answers to
the questions that were put. It ends with the exit code of its success: 0, or 1 once something
fails. A graph that could not be loaded answers no questions, and that is no failure.
-/

namespace CodeAtlas

namespace Settings

def ingestOptions (s : Settings) : IngestOptions :=
  { read := ⟨EntryPath.Filter.ofSettings s, s.maxFileSize⟩
    build := { policy := (TieBreak.ofName? s.tieBreak).getD .sameFileFirst
               maxContent := s.maxContentChars }
    workers := s.maxWorkers }

def worker (s : Settings) (faults : Faults) : Worker :=
  { options := s.ingestOptions, faults := faults, store := { delimiter := s.delimiter } }

end Settings

namespace CommandLine

/-- What a command writes, and the code it ends with. -/
structure Outcome where
  exitCode : Nat
  output : Text := []

/-- Put questions one after another, up to the first that fails. -/
def askAll : Worker → List Text → Outcome
  | _, [] => ⟨0, []⟩
  | w, q :: qs =>
    match w.query q [] with
    | (_, .error _) => ⟨1, []⟩
    | (w, .ok rows) =>
      let rest := askAll w qs
      ⟨rest.exitCode, (Document.ofRows rows).render ++ '\n' :: rest.output⟩

def ingest (w : Worker) (archive : Archive) (queries : List Text) : Outcome :=
  let (w, report) := w.ingest archive
  let lines := report.events.flatMap Event.line
  match report.outcome with
  | .error _ => ⟨1, lines⟩
  | .ok r =>
    let shown := lines ++ (Document.ofStats r.graph.stats).render ++ ['\n']
    if r.load.success then
      let answers := askAll w queries
      ⟨answers.exitCode, shown ++ answers.output⟩
    else ⟨0, shown⟩

def Stop.exitCode : Stop → Nat
  | .help => 0
  | .usage => 2

end CommandLine

end CodeAtlas
