import CodeAtlas.Proofs.Ingestion.Schedule
import CodeAtlas.Proofs.Store.Readiness

set_option autoImplicit false

/-! # Runs and their stores

A run reads, extracts and builds without looking at its store. `Ingestion.run_course` says so for every
run at once: either it stops before the store, for a reason that has nothing to do with it
(`Ingestion.Stops`), or it puts the graph of its files into the store (`Ingestion.loadFiles`), and which
of the two it is, and with which events and which graph, is the same for all stores and for all calls
that fail.

Two things follow, one in each direction. A run that fails has left its store as it was, unless it was
cancelled after the load (`Ingestion.store_of_failed_run`). And a store that cannot be loaded changes
nothing of a run but what the run says of the load (`Ingestion.runs_agree_but_load`).
-/

namespace CodeAtlas

namespace Ingestion

/-! ## The course of a run -/

/-- What a run has emitted when it ends before it comes to its store, and why it does. -/
inductive Stops (o : IngestOptions) (w : Surroundings) (archive : Archive) :
    List Event → IngestError → Prop where
  | cancelled {i : Nat} {events : List Event} (hi : i < 4) (h : w.cancelledAt i = true) :
      Stops o w archive events .cancelled
  | unreadable {cause : ArchiveError} (h : archive.read o.read = .error cause) :
      Stops o w archive [readingEvent, errorEvent (.unreadable cause)] (.unreadable cause)
  | noWorkers {files : List SourceFile} (h : archive.read o.read = .ok files) (hfiles : files ≠ [])
      (hworkers : o.workers ≤ 0) :
      Stops o w archive
        [readingEvent, foundEvent files.length, parsingEvent, errorEvent .noWorkers] .noWorkers

/-- The graph of the files that have finished. -/
def finishedGraph (o : IngestOptions) (w : Surroundings) (files : List SourceFile) : Graph :=
  Graph.build o.build ((collect o.extract files (w.order files.length)).filterMap id)
    (contentsOf files)

/-- The last part of a run: put the graph of the files into the store. -/
def loadFiles [Engine] (o : IngestOptions) (w : Surroundings) (files : List SourceFile)
    (store : Store) : Run :=
  let graph := finishedGraph o w files
  let loaded := loadStore w.faults graph store
  let phases := phaseEvents files (parseEvents files (w.order files.length)) graph loaded.2
  if w.cancelledAt 4 then ⟨(phases.take 4).flatten, loaded.1, .error .cancelled⟩
  else ⟨phases.flatten, loaded.1, .ok ⟨graph, contentsOf files, loaded.2⟩⟩

theorem cancelledAt_faults (w : Surroundings) (faults : Faults) (i : Nat) :
    Surroundings.cancelledAt { w with faults := faults } i = w.cancelledAt i := rfl

/-- **The course of a run.** It stops before its store, or it comes to the load. Neither the way it takes
nor what it has emitted and built by then depends on the store and on the calls that fail there. -/
theorem run_course [Engine] (o : IngestOptions) (w : Surroundings) (archive : Archive) :
    (∃ events e, Stops o w archive events e ∧ ∀ faults store,
      run o { w with faults := faults } archive store = ⟨events, store, .error e⟩) ∨
    ∃ files, archive.read o.read = .ok files ∧ (files = [] ∨ 0 < o.workers) ∧
      (∀ i < 4, w.cancelledAt i = false) ∧ ∀ faults store,
        run o { w with faults := faults } archive store =
          loadFiles o { w with faults := faults } files store := by
  by_cases hstart : w.cancelledAt 0 = true
  · exact Or.inl ⟨_, _, .cancelled (by decide) hstart, fun _ _ => if_pos hstart⟩
  cases hread : archive.read o.read with
  | error cause =>
      simp only [run, cancelledAt_faults, hread, hstart, Bool.false_eq_true, if_false]
      exact Or.inl ⟨_, _, .unreadable hread, fun _ _ => rfl⟩
  | ok files =>
      simp only [run, cancelledAt_faults, hread, hstart, Bool.false_eq_true, if_false]
      by_cases hparse : w.cancelledAt 1 = true
      · exact Or.inl ⟨_, _, .cancelled (by decide) hparse, fun _ _ => if_pos hparse⟩
      simp only [hparse, Bool.false_eq_true, if_false]
      by_cases hidle : files ≠ [] ∧ o.workers ≤ 0
      · exact Or.inl ⟨_, _, .noWorkers hread hidle.1 hidle.2, fun _ _ => if_pos hidle⟩
      simp only [if_neg hidle]
      by_cases hbuild : w.cancelledAt 2 = true
      · exact Or.inl ⟨_, _, .cancelled (by decide) hbuild, fun _ _ => if_pos hbuild⟩
      simp only [hbuild, Bool.false_eq_true, if_false]
      by_cases hload : w.cancelledAt 3 = true
      · exact Or.inl ⟨_, _, .cancelled (by decide) hload, fun _ _ => if_pos hload⟩
      simp only [hload, Bool.false_eq_true, if_false]
      refine Or.inr ⟨files, rfl, ?_, ?_, ?_⟩
      · by_cases hfiles : files = []
        · exact Or.inl hfiles
        · exact Or.inr (Int.not_le.mp fun hle => hidle ⟨hfiles, hle⟩)
      · intro i hi
        rw [← Bool.not_eq_true]
        interval_cases i <;> assumption
      · intro faults store
        have hextract : o.extract = fun f => Extraction.ofFile o.fails f.path f.content := rfl
        unfold loadFiles phaseEvents finishedGraph
        by_cases hready : w.cancelledAt 4 = true
        · simp [cancelledAt_faults, hready, hextract]
        · simp [cancelledAt_faults, hready, hextract]

/-! ## Failure -/

theorem store_loadFiles [Engine] (o : IngestOptions) (w : Surroundings) (files : List SourceFile)
    (store : Store) :
    (loadFiles o w files store).store = (loadStore w.faults (finishedGraph o w files) store).1 := by
  unfold loadFiles
  split <;> rfl

/-- Once a run has come to its store, nothing fails it but being cancelled behind the load. -/
theorem outcome_loadFiles [Engine] {o : IngestOptions} {w : Surroundings} {files : List SourceFile}
    {store : Store} {e : IngestError} (h : (loadFiles o w files store).outcome = .error e) :
    w.cancelledAt 4 = true ∧ e = .cancelled := by
  unfold loadFiles at h
  split at h
  · next hcancelled =>
    cases h
    exact ⟨hcancelled, rfl⟩
  · cases h

theorem exists_error [Engine] {r : Run} (h : r.outcome.isOk = false) : ∃ e, r.outcome = .error e := by
  cases hr : r.outcome with
  | error e => exact ⟨e, rfl⟩
  | ok x =>
      rw [hr] at h
      cases h

/-- **A run that fails leaves its store as it was**, whatever the archive, the store before it and the
phase in which it is cancelled, and every question is answered as before. There is one exception: a run
that is cancelled when its store has been loaded leaves the store as the load of its files left it. -/
theorem store_of_failed_run [Engine] (o : IngestOptions) (w : Surroundings) (archive : Archive)
    (store : Store) :
    let r := run o w archive store
    (∀ e, r.outcome = .error e → (e ≠ .cancelled ∨ ∃ i < 4, w.cancelledAt i = true) →
      r.store = store ∧ ∀ faults words params,
        (r.store.query faults words params).2 = (store.query faults words params).2) ∧
    ∀ e, r.outcome = .error e → r.store ≠ store →
      e = .cancelled ∧ (∀ i < 4, w.cancelledAt i = false) ∧ w.cancelledAt 4 = true ∧
      ∃ files, archive.read o.read = .ok files ∧
        r.store = (loadStore w.faults (finishedGraph o w files) store).1 := by
  intro r
  rcases run_course o w archive with ⟨events, e, -, hrun⟩ | ⟨files, hread, -, hgoes, hrun⟩
  · -- The run has not come to its store.
    have hr : r = ⟨events, store, .error e⟩ := hrun w.faults store
    have hstore : r.store = store := by rw [hr]
    refine ⟨fun _ _ _ => ⟨hstore, fun _ _ _ => ?_⟩, fun _ _ hchanged => absurd hstore hchanged⟩
    rw [hstore]
  · have hr : r = loadFiles o w files store := hrun w.faults store
    rw [hr]
    constructor
    · intro e he hearly
      obtain ⟨-, rfl⟩ := outcome_loadFiles he
      rcases hearly with hne | ⟨i, hi, hcancelled⟩
      · exact absurd rfl hne
      · rw [hgoes i hi] at hcancelled
        cases hcancelled
    · intro e he _
      obtain ⟨hcancelled, rfl⟩ := outcome_loadFiles he
      exact ⟨rfl, hgoes, hcancelled, files, hread, store_loadFiles o w files store⟩

/-- A store that holds one file outlives an archive that cannot be opened and a run that is cancelled
before its graph is built. A run that is cancelled behind the load leaves the new store loaded. -/
theorem store_of_failed_run_loaded :
    let o : IngestOptions := { read := ⟨⟨[], []⟩, 1024⟩ }
    let archive := Archive.mapping [("a.md".toList, .text "# A".toList)]
    let missing := Archive.unopened "a.zip".toList .missing
    let loaded := (run o {} archive {}).store
    loaded.isReady = true ∧
    (run o {} missing loaded).store = loaded ∧
    (run o { cancelAfter := some 2 } archive loaded).store = loaded ∧
    (run o { cancelAfter := some 4 } archive {}).store.isReady = true ∧
    ∃ files, archive.read o.read = .ok files ∧
      (run o { cancelAfter := some 4 } archive {}).store =
        (loadStore .none (finishedGraph o { cancelAfter := some 4 } files) {}).1 := by
  intro o archive missing loaded
  have hruns : loaded.isReady = true ∧
      (run o { cancelAfter := some 4 } archive {}).store.isReady = true ∧
      (run o { cancelAfter := some 2 } archive loaded).outcome.isOk = false ∧
      (run o { cancelAfter := some 4 } archive {}).outcome.isOk = false := by
    decide +kernel
  obtain ⟨hloaded, hready, hearly, hlate⟩ := hruns
  obtain ⟨e, hearly⟩ := exists_error hearly
  obtain ⟨e', hlate⟩ := exists_error hlate
  have hchanged : (run o { cancelAfter := some 4 } archive {}).store ≠ {} := by
    intro heq
    rw [heq] at hready
    cases hready
  have hunopened := (store_of_failed_run o {} missing loaded).1 _ rfl (.inl (by decide))
  have hcancelled := (store_of_failed_run o { cancelAfter := some 2 } archive loaded).1 e hearly
    (.inr ⟨2, by decide, rfl⟩)
  obtain ⟨-, -, -, hfiles⟩ := (store_of_failed_run o { cancelAfter := some 4 } archive {}).2 e' hlate
    hchanged
  exact ⟨hloaded, hunopened.1, hcancelled.1, hready, hfiles⟩

/-! ## Degradation -/

/-- A store that could not be loaded is not ready, unless it could not even be taken for the load. -/
theorem loadStore_failed [Engine] {faults : Faults} {g : Graph} {store : Store}
    (h : (loadStore faults g store).2.success = false) :
    (loadStore faults g store).2 = .failed ∧
      (faults .acquire = false → (loadStore faults g store).1.isReady = false) := by
  unfold loadStore at h ⊢
  split at h
  · next s' e hreset =>
    refine ⟨rfl, fun hacquire => ?_⟩
    obtain ⟨m, c, heq⟩ := store.exists_reset_eq hacquire
    rw [hreset] at heq
    obtain rfl : s' = _ := heq
    rfl
  · next s' hreset =>
    refine ⟨?_, fun _ => by rw [Store.isReady_load, h]⟩
    rcases s'.load_cases faults (Table.nodes s'.delimiter g) (Table.edges s'.delimiter g) with
      hfailed | ⟨db, count, heq, -⟩
    · exact hfailed
    · rw [heq] at h
      cases h

end Ingestion

/-- The event without what it says of the load of the store: the closing event of the load has no
message and the last event no detail. -/
def Event.withoutLoad (e : Event) : Event :=
  if e.phase = .loadStore ∧ e.percent = 95 then { e with message := [] }
  else if e.phase = .ready then { e with detail := none } else e

/-- What a run hands over, without what came of the load of its store. -/
def Run.handed [Engine] (r : Run) : Except IngestError (Graph × Mapping Text) :=
  r.outcome.map fun x => (x.graph, x.contents)

theorem Event.withoutLoad_unnamed (e : Event) : e.unnamed.withoutLoad = e.withoutLoad.unnamed := by
  unfold withoutLoad unnamed
  cases hphase : e.phase <;> simp [hphase]
  split <;> simp [hphase]

namespace Ingestion

theorem withoutLoad_loadedEvent (l l' : LoadResult) :
    (loadedEvent l).withoutLoad = (loadedEvent l').withoutLoad := by
  unfold Event.withoutLoad
  rw [if_pos ⟨rfl, rfl⟩, if_pos ⟨rfl, rfl⟩]
  rfl

theorem withoutLoad_readyEvent (g : Graph) (l l' : LoadResult) :
    (readyEvent g l).withoutLoad = (readyEvent g l').withoutLoad := by
  unfold Event.withoutLoad
  have hphase : ∀ l, (readyEvent g l).phase = .ready := fun _ => rfl
  simp only [hphase, reduceCtorEq, false_and, if_false, if_true]
  rfl

/-- Once a part of the events is left out that the load shows in, the load does not show. -/
theorem map_phaseEvents {hide : Event → Event} {files : List SourceFile} {parsed parsed' : List Event}
    (hparsed : parsed.map hide = parsed'.map hide) (g : Graph) (l l' : LoadResult)
    (hloaded : hide (loadedEvent l) = hide (loadedEvent l'))
    (hready : hide (readyEvent g l) = hide (readyEvent g l')) :
    (phaseEvents files parsed g l).flatten.map hide =
      (phaseEvents files parsed' g l').flatten.map hide := by
  simp [phaseEvents, hparsed, hloaded, hready]

/-- Nothing comes of an ingestion that nobody cancels: its archive cannot be read, or nobody extracts
its files. -/
def IsFutile (o : IngestOptions) (archive : Archive) : Prop :=
  (∃ cause, archive.read o.read = .error cause) ∨
    ∃ files, archive.read o.read = .ok files ∧ files ≠ [] ∧ o.workers ≤ 0

theorem not_isFutile {o : IngestOptions} {archive : Archive} {files : List SourceFile}
    (hread : archive.read o.read = .ok files) (h : files = [] ∨ 0 < o.workers) :
    ¬ IsFutile o archive := by
  rintro (⟨cause, herror⟩ | ⟨files', hread', hfiles, hworkers⟩)
  · cases hread.symm.trans herror
  · cases hread.symm.trans hread'
    exact h.elim hfiles (Int.not_lt.mpr hworkers)

section Uncancelled

variable {o : IngestOptions} {w w' : Surroundings} {archive : Archive} {events events' : List Event}
  {e e' : IngestError}

theorem cancelledAt_eq_false (hw : w.cancelAfter = none) (i : Nat) : w.cancelledAt i = false := by
  rw [Surroundings.cancelledAt, hw]
  rfl

theorem Stops.isFutile (h : Stops o w archive events e) (hw : w.cancelAfter = none) :
    IsFutile o archive := by
  cases h with
  | cancelled hi hcancelled => simp [cancelledAt_eq_false hw] at hcancelled
  | unreadable hread => exact Or.inl ⟨_, hread⟩
  | noWorkers hread hfiles hworkers => exact Or.inr ⟨_, hread, hfiles, hworkers⟩

/-- Two runs that nobody cancels, if they end before they come to their stores, end in the same
way. -/
theorem Stops.unique (h : Stops o w archive events e) (h' : Stops o w' archive events' e')
    (hw : w.cancelAfter = none) (hw' : w'.cancelAfter = none) : events = events' ∧ e = e' := by
  cases h with
  | cancelled hi hcancelled => simp [cancelledAt_eq_false hw] at hcancelled
  | unreadable hread =>
      cases h' with
      | cancelled hi hcancelled => simp [cancelledAt_eq_false hw'] at hcancelled
      | unreadable hread' =>
          cases hread.symm.trans hread'
          exact ⟨rfl, rfl⟩
      | noWorkers hread' hfiles hworkers => cases hread.symm.trans hread'
  | noWorkers hread hfiles hworkers =>
      cases h' with
      | cancelled hi hcancelled => simp [cancelledAt_eq_false hw'] at hcancelled
      | unreadable hread' => cases hread.symm.trans hread'
      | noWorkers hread' hfiles' hworkers' =>
          cases hread.symm.trans hread'
          exact ⟨rfl, rfl⟩

/-- Two runs that nobody cancels hand over the same and tell the same, once the load is left out, if
their graphs are the same and so is what they tell while files finish. -/
theorem agree_of_uncancelled [Engine] (hide : Event → Event) (w w' : Surroundings)
    (hw : w.cancelAfter = none) (hw' : w'.cancelAfter = none)
    (hgraph : ∀ files, finishedGraph o w files = finishedGraph o w' files)
    (hparsed : ∀ files : List SourceFile, (parseEvents files (w.order files.length)).map hide =
      (parseEvents files (w'.order files.length)).map hide)
    (hloaded : ∀ l l', hide (loadedEvent l) = hide (loadedEvent l'))
    (hready : ∀ g l l', hide (readyEvent g l) = hide (readyEvent g l')) (s s' : Store) :
    (run o w archive s).handed = (run o w' archive s').handed ∧
      (run o w archive s).events.map hide = (run o w' archive s').events.map hide := by
  rcases run_course o w archive with ⟨events, e, hstops, hrun⟩ | ⟨files, hread, hbusy, -, hrun⟩
  · rcases run_course o w' archive with ⟨events', e', hstops', hrun'⟩ | ⟨files', hread', hbusy', -⟩
    · obtain ⟨rfl, rfl⟩ := hstops.unique hstops' hw hw'
      have hr : run o w archive s = ⟨events, s, .error e⟩ := hrun w.faults s
      have hr' : run o w' archive s' = ⟨events, s', .error e⟩ := hrun' w'.faults s'
      rw [hr, hr']
      exact ⟨rfl, rfl⟩
    · exact absurd (hstops.isFutile hw) (not_isFutile hread' hbusy')
  · rcases run_course o w' archive with ⟨events', e', hstops', -⟩ | ⟨files', hread', -, -, hrun'⟩
    · exact absurd (hstops'.isFutile hw') (not_isFutile hread hbusy)
    · -- Both come to the load, over the same files.
      cases hread.symm.trans hread'
      have hr : run o w archive s = loadFiles o w files s := hrun w.faults s
      have hr' : run o w' archive s' = loadFiles o w' files s' := hrun' w'.faults s'
      rw [hr, hr']
      unfold loadFiles
      rw [cancelledAt_eq_false hw, cancelledAt_eq_false hw', hgraph]
      exact ⟨rfl, map_phaseEvents (hparsed files) _ _ _ (hloaded _ _) (hready _ _ _)⟩

/-- What comes of a run that nobody cancels: it fails exactly if it is futile, and a load that it
reports to have failed has left the store not ready. -/
theorem outcome_of_uncancelled [Engine] (hw : w.cancelAfter = none) (s : Store) :
    ((∃ e, (run o w archive s).outcome = .error e) ↔ IsFutile o archive) ∧
      ∀ x, (run o w archive s).outcome = .ok x → x.load.success = false →
        x.load = .failed ∧ (w.faults .acquire = false → (run o w archive s).store.isReady = false) := by
  rcases run_course o w archive with ⟨events, e, hstops, hrun⟩ | ⟨files, hread, hbusy, -, hrun⟩
  · have hr : run o w archive s = ⟨events, s, .error e⟩ := hrun w.faults s
    rw [hr]
    exact ⟨⟨fun _ => hstops.isFutile hw, fun _ => ⟨e, rfl⟩⟩, fun x hx => by cases hx⟩
  · have hr : run o w archive s = loadFiles o w files s := hrun w.faults s
    rw [hr]
    unfold loadFiles
    rw [cancelledAt_eq_false hw]
    refine ⟨⟨?_, fun h => absurd h (not_isFutile hread hbusy)⟩, ?_⟩
    · rintro ⟨e, he⟩
      cases he
    · intro x hx hfailed
      cases hx
      exact loadStore_failed hfailed

end Uncancelled

/-- The graph of the finished files does not depend on the order in which they finish. -/
theorem finishedGraph_eq_graphOf (o : IngestOptions) {w : Surroundings} {files : List SourceFile}
    (h : IsSchedule files.length (w.order files.length)) : finishedGraph o w files = graphOf o files := by
  rw [finishedGraph, filterMap_collect o.extract files h, graphOf]

/-- **A store that cannot be loaded does not touch the graph.** Take two runs of an archive into any two
stores, whichever calls fail while these are loaded. They end with the same error, or both hand over,
and then the same graph and contents; and they tell the same but for what they say of the load. If
their files finish in different orders, they tell the same up to the names of the files too. A run
fails exactly if its archive cannot be read or nobody extracts its files, so never on account of its
store. And if a load has not succeeded, it is reported as having failed, and the store is not ready
unless the reset was refused before it did anything. -/
theorem runs_agree_but_load [Engine] (o : IngestOptions) (order order' : Nat → List Nat) (archive : Archive)
    (s s' : Store) (faults faults' : Faults) :
    let r := run o { order := order, faults := faults } archive s
    let r' := run o { order := order', faults := faults' } archive s'
    (order = order' → r.handed = r'.handed ∧
      r.events.map Event.withoutLoad = r'.events.map Event.withoutLoad) ∧
    ((∀ n, IsSchedule n (order n)) → (∀ n, IsSchedule n (order' n)) → r.handed = r'.handed ∧
      r.events.map (fun e => e.withoutLoad.unnamed) =
        r'.events.map fun e => e.withoutLoad.unnamed) ∧
    ((∃ e, r.outcome = .error e) ↔ IsFutile o archive) ∧
    ∀ x, r.outcome = .ok x → x.load.success = false →
      x.load = .failed ∧ (faults .acquire = false → r.store.isReady = false) := by
  intro r r'
  refine ⟨?_, fun horder horder' => ?_, outcome_of_uncancelled rfl s⟩
  · rintro rfl
    exact agree_of_uncancelled Event.withoutLoad ⟨order, none, faults⟩ ⟨order, none, faults'⟩ rfl rfl
      (fun _ => rfl) (fun _ => rfl) withoutLoad_loadedEvent withoutLoad_readyEvent s s'
  · refine agree_of_uncancelled (fun e => e.withoutLoad.unnamed) ⟨order, none, faults⟩
      ⟨order', none, faults'⟩ rfl rfl ?_ ?_
      (fun l l' => congrArg Event.unnamed (withoutLoad_loadedEvent l l'))
      (fun g l l' => congrArg Event.unnamed (withoutLoad_readyEvent g l l')) s s'
    · intro files
      rw [finishedGraph_eq_graphOf o (horder files.length),
        finishedGraph_eq_graphOf o (horder' files.length)]
    · intro files
      -- The names of the files may be left out first.
      simp only [← Event.withoutLoad_unnamed]
      have hunnamed := map_unnamed_parseEvents (horder files.length) (horder' files.length)
      simpa only [List.map_map, Function.comp_def] using
        congrArg (List.map Event.withoutLoad) hunnamed

/-- One store lives in memory and takes no table in, the other at a path at which a directory lies, and
there nothing fails. The files finish in order, or the other way round. -/
theorem runs_agree_but_load_failed :
    let o : IngestOptions := { read := ⟨⟨[], []⟩, 1024⟩ }
    let archive := Archive.mapping
      [("a.md".toList, .text "# A".toList), ("b.md".toList, .text "# B".toList)]
    let reversed : Nat → List Nat := fun n => (List.range n).reverse
    let r := run o { faults := .ofCopy } archive {}
    let r' := run o { order := reversed } archive { medium := .directory }
    ((∀ n, IsSchedule n (List.range n)) ∧ ∀ n, IsSchedule n (reversed n)) ∧
    r.handed = r'.handed ∧
    r.events.map (fun e => e.withoutLoad.unnamed) = r'.events.map (fun e => e.withoutLoad.unnamed) ∧
    r.handed = (run o {} archive { medium := .directory }).handed ∧
    (∃ x, r.outcome = .ok x ∧ x.load = .failed) ∧ r.store.isReady = false ∧
      r'.store.isReady = true := by
  intro o archive reversed r r'
  have hrange : ∀ n, IsSchedule n (List.range n) := fun n => List.Perm.refl _
  have hreversed : ∀ n, IsSchedule n (reversed n) := fun n => List.reverse_perm _
  obtain ⟨-, hagree, -, hload⟩ :=
    runs_agree_but_load o List.range reversed archive {} { medium := .directory } .ofCopy .none
  obtain ⟨hhanded, hevents⟩ := hagree hrange hreversed
  obtain ⟨hsame, -⟩ :=
    runs_agree_but_load o List.range List.range archive {} { medium := .directory } .ofCopy .none
  have hruns : r.outcome.toOption.any (!·.load.success) = true ∧ r'.store.isReady = true := by
    decide +kernel
  obtain ⟨hfailed, hready⟩ := hruns
  cases houtcome : r.outcome with
  | error e =>
      rw [houtcome] at hfailed
      cases hfailed
  | ok x =>
      rw [houtcome] at hfailed
      obtain ⟨hx, hstore⟩ := hload x houtcome (by simpa [Except.toOption] using hfailed)
      exact ⟨⟨hrange, hreversed⟩, hhanded, hevents, (hsame rfl).1, ⟨x, rfl, hx⟩, hstore rfl, hready⟩

end Ingestion

end CodeAtlas
