import CodeAtlas.Proofs.Ingestion.Separation
import CodeAtlas.Proofs.Store.Counts
import CodeAtlas.Worker

set_option autoImplicit false

/-! # Result and store

A worker keeps the result of an ingestion in one place and what was loaded in another. They are written
at different times: the store while an ingestion runs, the result when it is over, and both when the
worker is terminated. Used by one at a time, the two stay together all the same
(`Worker.result_agrees_store`): a store that is ready holds the graph of the latest ingestion that
finished, and that ingestion's result is the one that shows.

Only the counts of the store need more. A question is put to the database as it stands, and nothing
keeps it from writing there, although only loading is meant to write: after a question that drops the
edge table the store is still ready, but counts nothing (`Worker.counts_after_drop`).
-/

namespace CodeAtlas

namespace Worker

/-! ## Logs -/

/-- What is remembered of what was done with a worker. -/
inductive Entry where
  | ended (outcome : Except IngestError Ingested)
  | asked (words : Text)
  | terminated

/-- The latest ingestion that finished did so with this result, and this was done after it. -/
structure IsLatest (log : List Entry) (x : Ingested) (later : List Entry) : Prop where
  log_eq : ∃ earlier, log = earlier ++ .ended (.ok x) :: later
  not_mem : ∀ y, .ended (.ok y) ∉ later

namespace IsLatest

theorem mem_log {log later : List Entry} {x : Ingested} (h : IsLatest log x later) {e : Entry}
    (he : e ∈ later) : e ∈ log := by
  obtain ⟨earlier, heq⟩ := h.log_eq
  rw [heq]
  exact List.mem_append_right _ (List.mem_cons_of_mem _ he)

theorem concat_self (log : List Entry) (x : Ingested) : IsLatest (log ++ [.ended (.ok x)]) x [] where
  log_eq := ⟨log, rfl⟩
  not_mem := by simp

/-- It stays the latest until another one finishes. -/
theorem concat {log later : List Entry} {x : Ingested} (h : IsLatest log x later) {e : Entry}
    (he : ∀ y, e ≠ .ended (.ok y)) : IsLatest (log ++ [e]) x (later ++ [e]) where
  log_eq := by
    obtain ⟨earlier, heq⟩ := h.log_eq
    refine ⟨earlier, ?_⟩
    rw [heq, List.append_assoc, List.cons_append]
  not_mem := by
    intro y hy
    rcases List.mem_append.mp hy with hy | hy
    · exact h.not_mem y hy
    · exact he y (List.mem_singleton.mp hy).symm

end IsLatest

end Worker

/-- Whatever calls fail, only a store that is ready is counted. -/
theorem Store.isReady_of_stats [Engine] {s : Store} (faults : Faults) (h : s.stats faults ≠ ⟨0, 0⟩) :
    s.isReady = true := by
  apply eq_true_of_ne_false
  intro hready
  apply h
  unfold stats
  rw [hready]

section

variable [Engine]

/-! ## One run -/

namespace Ingestion

variable (o : IngestOptions) (faults : Faults) (archive : Archive) (store : Store)

/-- **A run that is not cancelled** fails and leaves the store as it was, or it puts a graph there. -/
theorem run_cases :
    (∃ e, (run o { faults := faults } archive store).outcome = .error e ∧
      (run o { faults := faults } archive store).store = store) ∨
    ∃ g contents,
      (run o { faults := faults } archive store).outcome =
        .ok ⟨g, contents, (loadStore faults g store).2⟩ ∧
      (run o { faults := faults } archive store).store = (loadStore faults g store).1 := by
  rcases run_course o { faults := faults } archive with ⟨events, e, -, hrun⟩ | ⟨files, -, -, -, hrun⟩
  · have hr : run o { faults := faults } archive store = ⟨events, store, .error e⟩ := hrun faults store
    rw [hr]
    exact Or.inl ⟨e, rfl, rfl⟩
  · have hr : run o { faults := faults } archive store =
        loadFiles o { faults := faults } files store := hrun faults store
    rw [hr]
    exact Or.inr ⟨finishedGraph o { faults := faults } files, contentsOf files, rfl, rfl⟩

theorem outcome_run_of_unreadable {e : ArchiveError} (h : archive.read o.read = .error e) :
    (run o { faults := faults } archive store).outcome = .error (.unreadable e) := by
  unfold run
  rw [if_neg (by simp [Surroundings.cancelledAt]), h]
  rfl

end Ingestion

namespace Worker

/-! ## One ingestion, seen through -/

/-- All ingestions are over. -/
def IsIdle (w : Worker) : Prop := ∀ t ∈ w.tasks, ∃ outcome, t.stage = .done outcome

theorem IsIdle.isFirstOpen {w : Worker} (h : w.IsIdle) (t : Task) (session : Nat) :
    isFirstOpen { w with tasks := w.tasks ++ [t] } w.tasks.length session = true := by
  unfold Worker.isFirstOpen
  rw [List.take_left, List.all_eq_true]
  intro u hu
  obtain ⟨outcome, hdone⟩ := h u hu
  simp [hdone]

/-- Setting how far the last ingestion has come. -/
theorem setStage_last (w : Worker) (tasks : List Task) (t : Task) (stage : Stage) :
    setStage { w with tasks := tasks ++ [t] } tasks.length stage =
      { w with tasks := tasks ++ [{ t with stage := stage }] } := by
  have hmodify : (tasks ++ [t]).modify tasks.length (fun t => { t with stage := stage }) =
      tasks ++ [{ t with stage := stage }] := by
    induction tasks with
    | nil => rfl
    | cons u tasks ih =>
        rw [List.cons_append, List.length_cons, List.modify_succ_cons, ih]
        rfl
  rw [setStage]
  exact congrArg (fun tasks => { w with tasks := tasks }) hmodify

/-- What a run leaves of a worker if nothing happens between its steps. -/
def afterRun (w : Worker) (archive : Archive) (run : Run) : Worker :=
  { w with
    store := run.store
    result := match run.outcome with
      | .ok x => some ⟨w.tasks.length, x⟩
      | .error _ => w.result
    tasks := w.tasks ++ [⟨archive, w.session, .done run.outcome⟩] }

/-- **An ingestion seen through** is one run: its store stays, and its result shows if it has one. -/
theorem ingest_eq {w : Worker} (h : w.IsIdle) (archive : Archive) :
    let run := Ingestion.run w.options { faults := w.faults } archive w.store
    w.ingest archive = (w.afterRun archive run, ⟨run.events, run.outcome⟩) := by
  intro run
  have hran : (w.submit archive).runTask w.tasks.length =
      { w with store := run.store, tasks := w.tasks ++ [⟨archive, w.session, .ran run⟩] } := by
    -- Nothing is open before it, and its session goes on.
    unfold runTask submit
    simp only [List.getElem?_concat_length]
    rw [h.isFirstOpen, if_pos rfl]
    simp only [isCancelled, lt_irrefl, decide_false, Bool.false_eq_true, if_false, storeOf, if_true,
      setStore]
    exact setStage_last { w with store := run.store } w.tasks _ _
  unfold ingest ingestWith
  simp only [hran, List.getElem?_concat_length]
  -- From here on only the stage of the last ingestion changes, and at the end the result.
  cases hrun : run.outcome with
  | error e =>
      have hchecked := setStage_last { w with store := run.store } w.tasks
        ⟨archive, w.session, .ran run⟩ (.done (.error e))
      simp only [checkTask, publishTask, List.getElem?_concat_length, hrun, hchecked, outcome?,
        afterRun, Option.getD_some]
  | ok x =>
      have hchecked := setStage_last { w with store := run.store } w.tasks
        ⟨archive, w.session, .ran run⟩ (.checked run x)
      have hpublished := setStage_last
        { w with store := run.store, result := some ⟨w.tasks.length, x⟩ } w.tasks
        ⟨archive, w.session, .checked run x⟩ (.done (.ok x))
      simp only [checkTask, publishTask, List.getElem?_concat_length, hrun, isCancelled, lt_irrefl,
        decide_false, Bool.false_eq_true, if_false, hchecked, hpublished, outcome?, afterRun,
        Option.getD_some]

/-- **An ingestion that fails** leaves result and store as they are. -/
theorem ingest_error {w : Worker} (h : w.IsIdle) {archive : Archive} {e : IngestError}
    (he : (w.ingest archive).2.outcome = .error e) :
    (w.ingest archive).1.result = w.result ∧ (w.ingest archive).1.store = w.store := by
  rw [ingest_eq h archive] at he ⊢
  have hout : (Ingestion.run w.options { faults := w.faults } archive w.store).outcome = .error e := he
  rcases Ingestion.run_cases w.options w.faults archive w.store with
    ⟨_, -, hstore⟩ | ⟨g, contents, houtcome, -⟩
  · exact ⟨by simp only [afterRun, hout], hstore⟩
  · rw [houtcome] at hout
    cases hout

theorem ingest_unreadable {w : Worker} (h : w.IsIdle) {archive : Archive} {e : ArchiveError}
    (he : archive.read w.options.read = .error e) :
    (w.ingest archive).2.outcome = .error (.unreadable e) := by
  rw [ingest_eq h archive]
  exact Ingestion.outcome_run_of_unreadable w.options w.faults archive w.store he

theorem idle_afterRun {w : Worker} (h : w.IsIdle) (archive : Archive) (run : Run) :
    (w.afterRun archive run).IsIdle := by
  intro t ht
  rcases List.mem_append.mp ht with ht | ht
  · exact h t ht
  · rw [List.mem_singleton.mp ht]
    exact ⟨run.outcome, rfl⟩

theorem idle_terminate {w : Worker} (h : w.IsIdle) : w.terminate.IsIdle := by
  intro t ht
  obtain ⟨u, hu, rfl⟩ := List.mem_map.mp ht
  obtain ⟨outcome, hdone⟩ := h u hu
  exact ⟨outcome, by simp only [hdone]⟩

/-! ## Histories -/

/-- What can be done with a worker and waited for. -/
inductive Action where
  | ingest (archive : Archive)
  | query (words : Text) (params : Mapping Text)
  | terminate

/-- A worker and what was done with it, in order. -/
structure History where
  worker : Worker
  log : List Entry := []

namespace History

/-- Do one thing, with the calls of the store that fail meanwhile. -/
def act (h : History) (faults : Faults) (action : Action) : History :=
  let w := { h.worker with faults := faults }
  match action with
  | .ingest archive => ⟨(w.ingest archive).1, h.log ++ [.ended (w.ingest archive).2.outcome]⟩
  | .query words params => ⟨(w.query words params).1, h.log ++ [.asked words]⟩
  | .terminate => ⟨w.terminate, h.log ++ [.terminated]⟩

/-- Do one thing after another. -/
def actAll (h : History) (actions : List (Action × Faults)) : History :=
  actions.foldl (fun h a => h.act a.2 a.1) h

theorem actAll_concat (h : History) (actions : List (Action × Faults)) (a : Action × Faults) :
    h.actAll (actions ++ [a]) = (h.actAll actions).act a.2 a.1 :=
  List.foldl_concat _ h a actions

theorem act_ingest {h : History} (hidle : h.worker.IsIdle) (faults : Faults) (archive : Archive) :
    h.act faults (.ingest archive) =
      let run := Ingestion.run h.worker.options { faults := faults } archive h.worker.store
      ⟨afterRun { h.worker with faults := faults } archive run, h.log ++ [.ended run.outcome]⟩ := by
  have hingest := ingest_eq (w := { h.worker with faults := faults }) hidle archive
  simp only [act, hingest]

theorem store_act_query (h : History) (faults : Faults) (words : Text) (params : Mapping Text) :
    (h.act faults (.query words params)).worker.store =
      (h.worker.store.query faults words params).1 := rfl

theorem result_act_query (h : History) (faults : Faults) (words : Text) (params : Mapping Text) :
    (h.act faults (.query words params)).worker.result = h.worker.result := rfl

end History

/-- Only questions that do not write are asked. -/
def OnlyReads (laws : Engine.Laws) (log : List Entry) : Prop :=
  ∀ words, .asked words ∈ log → laws.OnlyReads words

variable {laws : Engine.Laws}

theorem OnlyReads.of_concat {log : List Entry} {e : Entry} (h : OnlyReads laws (log ++ [e])) :
    OnlyReads laws log := fun words hw => h words (List.mem_append_left _ hw)

/-- The store of the worker holds the graph of the latest ingestion that finished, whose result shows,
as long as nobody has written to it since. -/
def Shows (laws : Engine.Laws) (h : History) : Prop :=
  ∃ p later db, h.worker.result = some p ∧ IsLatest h.log p.result later ∧
    p.result.load.success = true ∧ h.worker.store.connection = some ⟨db, true⟩ ∧
    (OnlyReads laws later → laws.HasSize db p.result.graph)

/-- What holds of a worker between two actions. -/
structure Coherent (laws : Engine.Laws) (o : IngestOptions) (h : History) : Prop where
  options_eq : h.worker.options = o
  idle : h.worker.IsIdle
  exact : h.worker.store.IsExact
  shows : h.worker.isReady = true → Shows laws h

/-! ## What every action keeps -/

namespace Coherent

variable {o : IngestOptions} {h : History}

/-- A worker with a new store has nothing to show yet. -/
theorem start (o : IngestOptions) {store : Store} (hstore : store.IsExact)
    (hready : store.isReady = false) :
    Coherent laws o ⟨{ options := o, store := store }, []⟩ where
  options_eq := rfl
  idle := fun t ht => by cases ht
  exact := hstore
  shows := fun h => by cases hready.symm.trans h

/-- A run that fails leaves what shows. -/
theorem failed (hh : Coherent laws o h) (faults : Faults) (archive : Archive) {run : Run} {e : IngestError}
    (houtcome : run.outcome = .error e) (hstore : run.store = h.worker.store) :
    Coherent laws o ⟨afterRun { h.worker with faults := faults } archive run,
      h.log ++ [.ended run.outcome]⟩ where
  options_eq := hh.options_eq
  idle := idle_afterRun (w := { h.worker with faults := faults }) hh.idle archive run
  exact := by
    show run.store.IsExact
    rw [hstore]
    exact hh.exact
  shows := by
    intro hready
    have hbefore : h.worker.store.isReady = true := by rwa [← hstore]
    obtain ⟨p, later, db, hresult, hlatest, hsuccess, hconn, hsize⟩ := hh.shows hbefore
    refine ⟨p, later ++ [.ended run.outcome], db, ?_, ?_, hsuccess, ?_, fun h => hsize h.of_concat⟩
    · simp only [afterRun, houtcome]
      exact hresult
    · exact hlatest.concat fun y => by simp [houtcome]
    · show run.store.connection = some ⟨db, true⟩
      rw [hstore]
      exact hconn

/-- A run that finishes replaces both result and store. -/
theorem finished (hh : Coherent laws o h) {faults : Faults} (hfaults : faults .acquire = false)
    (archive : Archive) {run : Run} {g : Graph} {contents : Mapping Text}
    (houtcome : run.outcome =
      .ok ⟨g, contents, (Ingestion.loadStore faults g h.worker.store).2⟩)
    (hstore : run.store = (Ingestion.loadStore faults g h.worker.store).1) :
    Coherent laws o ⟨afterRun { h.worker with faults := faults } archive run,
      h.log ++ [.ended run.outcome]⟩ := by
  obtain ⟨hexact, hready, hloaded⟩ := Ingestion.loadStore_exact hh.exact hfaults g
  rw [← hstore] at hexact hready hloaded
  refine
    { options_eq := hh.options_eq
      idle := idle_afterRun (w := { h.worker with faults := faults }) hh.idle archive run
      exact := hexact
      shows := fun hnow => ?_ }
  have hsuccess : (Ingestion.loadStore faults g h.worker.store).2.success = true :=
    hready.symm.trans hnow
  obtain ⟨db, hconn, hsize⟩ := hloaded hsuccess
  refine ⟨⟨h.worker.tasks.length, ⟨g, contents, (Ingestion.loadStore faults g h.worker.store).2⟩⟩,
    [], db, ?_, ?_, hsuccess, hconn, fun _ => hsize⟩
  · simp only [afterRun, houtcome]
  · rw [houtcome]
    exact .concat_self _ _

theorem ingest (hh : Coherent laws o h) {faults : Faults} (hfaults : faults .acquire = false)
    (archive : Archive) : Coherent laws o (h.act faults (.ingest archive)) := by
  rw [History.act_ingest hh.idle]
  rcases Ingestion.run_cases h.worker.options faults archive h.worker.store with
    ⟨e, houtcome, hstore⟩ | ⟨g, contents, houtcome, hstore⟩
  · exact hh.failed faults archive houtcome hstore
  · exact hh.finished hfaults archive houtcome hstore

/-- A question changes the database at most, and one that only reads does not change that either. -/
theorem query (hh : Coherent laws o h) (faults : Faults) (words : Text) (params : Mapping Text) :
    Coherent laws o (h.act faults (.query words params)) where
  options_eq := hh.options_eq
  idle := hh.idle
  exact := hh.exact.of_fresh_eq (h.worker.store.fresh_query faults words params)
  shows := by
    intro hready
    have hstore := h.store_act_query faults words params
    have hlater : ∀ {x later}, IsLatest h.log x later →
        IsLatest (h.act faults (.query words params)).log x (later ++ [.asked words]) :=
      fun hlatest => hlatest.concat (by simp)
    rcases h.worker.store.query_eq_or faults words params with
      hsame | ⟨db, isOpen, hconn, hwritten⟩
    · rw [isReady, hstore, hsame] at hready
      obtain ⟨p, later, db, hresult, hlatest, hsuccess, hconn, hsize⟩ := hh.shows hready
      refine ⟨p, later ++ [.asked words], db, hresult, hlater hlatest, hsuccess, ?_,
        fun h => hsize h.of_concat⟩
      rw [hstore, hsame]
      exact hconn
    · -- The database is the one that the answer left.
      rw [isReady, hstore, hwritten] at hready
      obtain ⟨p, later, db₁, hresult, hlatest, hsuccess, hconn₁, hsize⟩ := hh.shows hready
      obtain ⟨rfl, rfl⟩ : db = db₁ ∧ isOpen = true := by
        simpa using Option.some.inj (hconn.symm.trans hconn₁)
      refine ⟨p, later ++ [.asked words], (Engine.ask db words params).1, hresult, hlater hlatest,
        hsuccess, ?_, ?_⟩
      · rw [hstore, hwritten]
      · intro honly
        have hreads : laws.OnlyReads words :=
          honly words (List.mem_append_right _ (List.mem_singleton_self _))
        exact (hsize honly.of_concat).ask hreads params

/-- A new store is not ready. -/
theorem terminate (hh : Coherent laws o h) (faults : Faults) :
    Coherent laws o (h.act faults .terminate) where
  options_eq := hh.options_eq
  idle := idle_terminate (w := { h.worker with faults := faults }) hh.idle
  exact := by
    have hfresh : h.worker.store.fresh.fresh = h.worker.store.fresh := rfl
    exact hh.exact.of_fresh_eq hfresh
  shows := fun hready => by cases hready

/-- **Every action keeps result and store together.** -/
theorem act (hh : Coherent laws o h) {faults : Faults} (hfaults : faults .acquire = false)
    (action : Action) : Coherent laws o (h.act faults action) := by
  cases action with
  | ingest archive => exact hh.ingest hfaults archive
  | query words params => exact hh.query faults words params
  | terminate => exact hh.terminate faults

theorem actAll (hh : Coherent laws o h) {actions : List (Action × Faults)}
    (hfaults : ∀ a ∈ actions, a.2 .acquire = false) : Coherent laws o (h.actAll actions) := by
  induction actions generalizing h with
  | nil => exact hh
  | cons a actions ih =>
      obtain ⟨ha, hfaults⟩ := List.forall_mem_cons.mp hfaults
      exact ih (hh.act ha a.1) hfaults

end Coherent

/-- **Result and store agree** after every history of a worker with a new store in memory, whichever
engine runs its databases, as long as a table comes in with one record for each row or not at all. Without
a result the store is not ready. If it is ready, then the result is that of the latest ingestion that
finished, its load succeeded, and the counts of the store are those of its graph, as long as no question
asked since has written. An ingestion that fails, as one of an archive that cannot be read does, leaves
result and store as they are. Any call may fail on the way except that a reset takes the store, where it
only waits for a lock. -/
theorem result_agrees_store (laws : Engine.Laws) (o : IngestOptions) (delimiter : Text)
    (hdelimiter : Engine.IsExactDelimiter delimiter) (actions : List (Action × Faults))
    (hfaults : ∀ a ∈ actions, a.2 .acquire = false) :
    let start : Worker := { options := o, store := { delimiter := delimiter } }
    let h := History.actAll ⟨start, []⟩ actions
    (h.worker.result = none → h.worker.isReady = false) ∧
    (h.worker.isReady = true → ∃ p later, h.worker.result = some p ∧ IsLatest h.log p.result later ∧
      p.result.load.success = true ∧
      (OnlyReads laws later →
        h.worker.store.stats .none = ⟨p.result.graph.nodeCount, p.result.graph.edgeCount⟩)) ∧
    ∀ (archive : Archive) (faults : Faults),
      let w := { h.worker with faults := faults }.ingest archive
      (∀ e, archive.read o.read = .error e → w.2.outcome = .error (.unreadable e)) ∧
      ∀ e, w.2.outcome = .error e → w.1.result = h.worker.result ∧ w.1.store = h.worker.store := by
  intro start h
  have hcoherent : Coherent laws o h := (Coherent.start o ⟨rfl, hdelimiter⟩ rfl).actAll hfaults
  refine ⟨?_, ?_, ?_⟩
  · intro hnone
    apply Bool.eq_false_iff.mpr
    intro hready
    obtain ⟨p, -, -, hresult, -⟩ := hcoherent.shows hready
    rw [hnone] at hresult
    cases hresult
  · intro hready
    obtain ⟨p, later, db, hresult, hlatest, hsuccess, hconn, hsize⟩ := hcoherent.shows hready
    refine ⟨p, later, hresult, hlatest, hsuccess, fun honly => ?_⟩
    exact Store.stats_of_hasSize hready hconn (hsize honly) rfl
  · intro archive faults w
    have hidle : IsIdle { h.worker with faults := faults } := hcoherent.idle
    constructor
    · intro e he
      apply ingest_unreadable hidle
      show archive.read h.worker.options.read = .error e
      rwa [hcoherent.options_eq]
    · intro e he
      exact ingest_error hidle he

end Worker

end

/-! ## A question that writes -/

namespace Worker

section

attribute [local instance] Database.plain

/-- A comma separates the fields of every table. -/
theorem isExactDelimiter_comma : Engine.IsExactDelimiter [','] := .inl ⟨',', rfl, by decide⟩

def plainOptions : IngestOptions := { read := ⟨.ofSettings {}, 1024⟩ }

/-- One file is ingested. -/
def fileActions : List (Action × Faults) :=
  [(.ingest (.mapping [("a.md".toList, .text "# A".toList)]), .none)]

def ingestedHistory : History :=
  History.actAll ⟨{ options := plainOptions, store := { delimiter := [','] } }, []⟩
    fileActions

/-- Then somebody asks a question. -/
def askedHistory (q : Database.Query) : History :=
  ingestedHistory.act .none (.query q.words.toList [])

theorem askedHistory_eq (q : Database.Query) :
    askedHistory q = History.actAll
      ⟨{ options := plainOptions, store := { delimiter := [','] } }, []⟩
      (fileActions ++ [(.query q.words.toList [], .none)]) :=
  (History.actAll_concat _ fileActions (.query q.words.toList [], .none)).symm

theorem shown_ingestedHistory :
    ingestedHistory.worker.store.stats .none = ⟨1, 0⟩ ∧
      ingestedHistory.worker.result.map (·.result.graph.nodeCount) = some 1 := by
  decide +kernel

theorem isReady_ingestedHistory : ingestedHistory.worker.isReady = true := by
  apply Store.isReady_of_stats .none
  rw [shown_ingestedHistory.1]
  decide

theorem isReady_askedHistory (q : Database.Query) : (askedHistory q).worker.isReady = true := by
  rw [askedHistory, isReady, History.store_act_query, Store.isReady_query]
  exact isReady_ingestedHistory

theorem stats_of_countEdges {s : Store} {db : Database} {isOpen : Bool} (faults : Faults)
    (hconn : s.connection = some ⟨db, isOpen⟩) (hedges : isOpen = true → Engine.countEdges db = none) :
    s.stats faults = ⟨0, 0⟩ := by
  unfold Store.stats
  split
  · next db' isOpen' _ hconn' =>
    obtain ⟨rfl, rfl⟩ : db = db' ∧ isOpen = isOpen' := by simpa [hconn] using hconn'
    split
    · next hopen _ hcount =>
      rw [hedges (by simpa using (Bool.or_eq_false_iff.mp hopen).2)] at hcount
      cases hcount
    · rfl
  · rfl

/-- Once the edge table is dropped a store counts nothing, whatever it held. -/
theorem stats_query_dropEdges (s : Store) (faults : Faults) :
    (s.query .none Database.Query.dropEdges.words.toList []).1.stats faults = ⟨0, 0⟩ := by
  unfold Store.query
  split
  · next db isOpen _ hconn =>
    have hdropped := db.countEdges_ask_dropEdges
    split
    · next hclosed =>
      refine stats_of_countEdges faults hconn fun hopen => ?_
      simp [Faults.none, hopen] at hclosed
    · split <;> next hasked =>
        rw [hasked] at hdropped
        exact stats_of_countEdges faults rfl fun _ => hdropped
  · next hnone =>
    unfold Store.stats
    split
    · next db isOpen hready hconn => exact absurd hconn (hnone db isOpen hready)
    · rfl

/-- **A question can write**: after it the store is ready and the result shows, but the counts of the
store are not those of its graph. -/
theorem counts_after_drop :
    (askedHistory .dropEdges).worker.isReady = true ∧
      (∃ p, (askedHistory .dropEdges).worker.result = some p ∧ p.result.graph.nodeCount = 1) ∧
      (askedHistory .dropEdges).worker.store.stats .none = ⟨0, 0⟩ := by
  obtain ⟨p, hp, hcount⟩ := Option.map_eq_some_iff.mp shown_ingestedHistory.2
  refine ⟨isReady_askedHistory .dropEdges, ⟨p, ?_, hcount⟩, ?_⟩
  · rw [askedHistory, History.result_act_query]
    exact hp
  · rw [askedHistory, History.store_act_query]
    exact stats_query_dropEdges ingestedHistory.worker.store .none

/-- After a question that only reads, the counts are those of the graph. -/
theorem result_agrees_store_counted :
    Engine.IsExactDelimiter [','] ∧ Faults.none .acquire = false ∧
      (askedHistory .countNodes).worker.isReady = true ∧
      ∃ p later, (askedHistory .countNodes).worker.result = some p ∧
        IsLatest (askedHistory .countNodes).log p.result later ∧ p.result.load.success = true ∧
        (askedHistory .countNodes).worker.store.stats .none =
          ⟨p.result.graph.nodeCount, p.result.graph.edgeCount⟩ := by
  have hready := isReady_askedHistory .countNodes
  rw [askedHistory_eq] at hready ⊢
  obtain ⟨-, hagrees, -⟩ := result_agrees_store Database.laws plainOptions [',']
    isExactDelimiter_comma (fileActions ++ [(.query Database.Query.countNodes.words.toList [], .none)])
    (by simp [fileActions, Faults.none])
  obtain ⟨p, later, hresult, hlatest, hsuccess, hcounts⟩ := hagrees hready
  refine ⟨isExactDelimiter_comma, rfl, hready, p, later, hresult, hlatest, hsuccess, hcounts ?_⟩
  intro words hwords
  have hmem := hlatest.mem_log hwords
  obtain rfl : words = Database.Query.countNodes.words.toList := by
    simpa [fileActions, History.actAll, History.act] using hmem
  exact Database.onlyReads (by decide)

end

end Worker

end CodeAtlas
