import CodeAtlas.CommandLine.Run

set_option autoImplicit false

/-! # The program

Reads the command line, opens the archive and writes what the command answers.
-/

open CodeAtlas

def usageLines : List String :=
  ["usage: codeatlas [-h] \x7bingest,serve\x7d ...",
    "  ingest archive [--query QUERY]...   ingest a zip archive and print graph statistics",
    "  serve                               answer questions over the network"]

def openArchive (path : String) : IO Archive := do
  try
    let bytes ← IO.FS.readBinFile path
    return .zip .file bytes.toList
  catch e =>
    match e with
    | .noFileOrDirectory .. => return .unopened path.toList .missing
    | .noSuchThing .. => return .unopened path.toList .missing
    | _ => return .unopened path.toList .isDirectory

def main (args : List String) : IO UInt32 := do
  match CommandLine.parse (args.map (·.toList)) with
  | .error stop =>
    let out ← if stop = .help then IO.getStdout else IO.getStderr
    for l in usageLines do out.putStrLn l
    return (CommandLine.Stop.exitCode stop).toUInt32
  | .ok .serve =>
    (← IO.getStderr).putStrLn "this build has no network server"
    return 1
  | .ok (.ingest path queries) =>
    let archive ← openArchive (String.ofList path)
    let outcome := CommandLine.ingest (Settings.worker {} Faults.none) archive queries
    (← IO.getStdout).putStr (String.ofList outcome.output)
    return outcome.exitCode.toUInt32
