import CodeAtlas.Ingestion

set_option autoImplicit false

/-! # The ingestion worker

A worker runs one ingestion after another and keeps the result of the last one that finished.
Terminating it abandons what is under way: the worker then starts a new session with an empty store
and no result, and every earlier session counts as cancelled.

An ingestion passes through the worker in small steps, between which other steps can happen: it is
submitted, it runs, it looks whether its session was cancelled in the meantime, and it publishes
its result.
-/

namespace CodeAtlas

variable [Engine]

/-- How far a submitted ingestion has come. -/
inductive Stage where
  | queued
  /-- Its run has ended. -/
  | ran (run : Run)
  /-- It has seen that its session was not cancelled. -/
  | checked (run : Run) (result : Ingested)
  /-- It is over. -/
  | done (outcome : Except IngestError Ingested)

structure Task where
  archive : Archive
  /-- The session it was submitted in. -/
  session : Nat
  stage : Stage := .queued

/-- A result and the number of the ingestion that it comes from. -/
structure Published where
  task : Nat
  result : Ingested

structure Worker where
  options : IngestOptions
  faults : Faults := Faults.none
  /-- The number of terminations so far, which is the number of the current session. -/
  session : Nat := 0
  /-- The store of the current session and those of the sessions before it, latest first. -/
  store : Store := {}
  oldStores : List Store := []
  result : Option Published := none
  /-- All ingestions ever submitted, in order. -/
  tasks : List Task := []

namespace Worker

/-! ## Stores of sessions -/

def storeOf (w : Worker) (session : Nat) : Store :=
  if session = w.session then w.store
  else (w.oldStores[w.session - 1 - session]?).getD w.store.fresh

def setStore (w : Worker) (session : Nat) (s : Store) : Worker :=
  if session = w.session then { w with store := s }
  else { w with oldStores := w.oldStores.set (w.session - 1 - session) s }

def isCancelled (w : Worker) (session : Nat) : Bool := session < w.session

def setStage (w : Worker) (i : Nat) (s : Stage) : Worker :=
  { w with tasks := w.tasks.modify i fun t => { t with stage := s } }

/-! ## Steps -/

def submit (w : Worker) (archive : Archive) : Worker :=
  { w with tasks := w.tasks ++ [{ archive := archive, session := w.session }] }

/-- The first ingestion of a session that is not over. -/
def isFirstOpen (w : Worker) (i : Nat) (session : Nat) : Bool :=
  (w.tasks.take i).all fun t =>
    t.session != session || match t.stage with
      | .done _ => true
      | _ => false

/-- Run a queued ingestion. A session has one runner, so earlier ingestions of the session have to
be over. -/
def runTask (w : Worker) (i : Nat) : Worker :=
  match w.tasks[i]? with
  | some ⟨archive, session, .queued⟩ =>
    if w.isFirstOpen i session then
      let surroundings : Ingestion.Surroundings :=
        { cancelAfter := if w.isCancelled session then some 0 else none, faults := w.faults }
      let run := Ingestion.run w.options surroundings archive (w.storeOf session)
      (w.setStore session run.store).setStage i (.ran run)
    else w
  | _ => w

/-- Look whether the session was cancelled while the ingestion ran. If so its store is closed. -/
def checkTask (w : Worker) (i : Nat) : Worker :=
  match w.tasks[i]? with
  | some ⟨_, session, .ran run⟩ =>
    match run.outcome with
    | .error e => w.setStage i (.done (.error e))
    | .ok result =>
      if w.isCancelled session then
        (w.setStore session ((w.storeOf session).close w.faults).1).setStage i
          (.done (.error .cancelled))
      else w.setStage i (.checked run result)
  | _ => w

/-- Publish the result of an ingestion that has been checked. -/
def publishTask (w : Worker) (i : Nat) : Worker :=
  match w.tasks[i]? with
  | some ⟨_, _, .checked _ result⟩ =>
    { w with result := some ⟨i, result⟩ }.setStage i (.done (.ok result))
  | _ => w

/-- Abandon the session: what is queued is cancelled, the result is dropped, and a new store takes
the place of the old one. -/
def terminate (w : Worker) : Worker :=
  { w with
    session := w.session + 1
    store := w.store.fresh
    oldStores := w.store :: w.oldStores
    result := none
    tasks := w.tasks.map fun t => match t.stage with
      | .queued => { t with stage := .done (.error .cancelled) }
      | _ => t }

inductive Step where
  | submit (archive : Archive)
  | run (task : Nat)
  | check (task : Nat)
  | publish (task : Nat)
  | terminate

def step (w : Worker) : Step → Worker
  | .submit a => w.submit a
  | .run i => w.runTask i
  | .check i => w.checkTask i
  | .publish i => w.publishTask i
  | .terminate => w.terminate

/-! ## Whole ingestions -/

def outcome? (w : Worker) (i : Nat) : Option (Except IngestError Ingested) :=
  match w.tasks[i]? with
  | some ⟨_, _, .done outcome⟩ => some outcome
  | _ => none

structure Report where
  events : List Event
  outcome : Except IngestError Ingested

/-- Submit an archive and see its ingestion through, with something that happens to the worker when
its run has ended and before it is checked. -/
def ingestWith (w : Worker) (archive : Archive) (between : Run → Worker → Worker) :
    Worker × Report :=
  let i := w.tasks.length
  let w := (w.submit archive).runTask i
  match w.tasks[i]? with
  | some ⟨_, _, .ran run⟩ =>
    let w := ((between run w).checkTask i).publishTask i
    (w, ⟨run.events, (w.outcome? i).getD (.error .cancelled)⟩)
  | _ => (w, ⟨[], .error .cancelled⟩)

/-- Submit an archive and see its ingestion through. -/
def ingest (w : Worker) (archive : Archive) : Worker × Report := w.ingestWith archive fun _ w => w

/-- Submit an archive and terminate the worker when the ingestion reports that it is ready. -/
def ingestTerminated (w : Worker) (archive : Archive) : Worker × Report :=
  w.ingestWith archive fun run w =>
    if run.events.any (·.phase == .ready) then w.terminate else w

/-! ## Questions -/

def query (w : Worker) (words : Text) (params : Mapping Text) :
    Worker × Except StoreError (List Database.Row) :=
  let (s, answer) := w.store.query w.faults words params
  ({ w with store := s }, answer)

def isReady (w : Worker) : Bool := w.store.isReady

def stats (w : Worker) : StoreStats := w.store.stats w.faults

end Worker

end CodeAtlas
