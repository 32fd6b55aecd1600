import CodeAtlas.Ingestion
import CodeAtlas.Store.Database
import Mathlib.Data.List.Basic
import Mathlib.Data.List.Permutation

set_option autoImplicit false

/-! # Any order of extraction

Files are extracted side by side and finish in any order. A schedule is a permutation of the numbers
of the files. Every result goes into the place of its file, so after a schedule all places are filled
and hold what extracting the files one after another gives (`Ingestion.collect_eq_map`). Of the events
only the names of the files depend on the schedule, because the percentages count how many files are
finished and not which (`Ingestion.map_unnamed_parseEvents`).

From there on a run does not know the schedule any more: it works on the graph of the files,
`Ingestion.graphOf`, and `Ingestion.run_eq` says so for the whole run.
-/

namespace CodeAtlas

/-- The event without the name of the file that has finished. -/
def Event.unnamed (e : Event) : Event := if e.phase = .parseFiles then { e with detail := none } else e

/-- Extract a file. -/
def IngestOptions.extract (o : IngestOptions) (f : SourceFile) : Extraction :=
  Extraction.ofFile o.fails f.path f.content

namespace Ingestion

/-- The files numbered in `order` are all files, each once. -/
def IsSchedule (n : Nat) (order : List Nat) : Prop := order.Perm (List.range n)

/-! ## Places -/

section Places

variable {α β : Type} (f : α → β) (files : List α)

/-- Put the result of file `i` into its place. -/
def place (slots : List (Option β)) (i : Nat) : List (Option β) :=
  match files[i]? with
  | some a => slots.set i (some (f a))
  | none => slots

theorem length_place (slots : List (Option β)) (i : Nat) :
    (place f files slots i).length = slots.length := by
  unfold place
  split
  · exact List.length_set
  · rfl

theorem getElem?_place {slots : List (Option β)} (hlength : slots.length = files.length) (i j : Nat) :
    (place f files slots i)[j]? = if j = i then (files[j]?).map fun a => some (f a) else slots[j]? := by
  unfold place
  by_cases hji : j = i
  · subst hji
    rw [if_pos rfl]
    cases hfile : files[j]? with
    | none =>
        -- There is no such place either.
        have hout : slots.length ≤ j := by
          rw [hlength]
          exact List.getElem?_eq_none_iff.mp hfile
        simpa using hout
    | some a =>
        have hin : j < slots.length := by
          rw [hlength]
          exact (List.getElem?_eq_some_iff.mp hfile).1
        simp [hin]
  · rw [if_neg hji]
    split
    · exact List.getElem?_set_ne (Ne.symm hji)
    · rfl

/-- **The places after some files have finished**: a file that is among them has its result in its
place, and the other places are as they were. -/
theorem getElem?_foldl_place (order : List Nat) {slots : List (Option β)}
    (hlength : slots.length = files.length) (j : Nat) :
    (order.foldl (place f files) slots)[j]? =
      if j ∈ order then (files[j]?).map fun a => some (f a) else slots[j]? := by
  induction order generalizing slots with
  | nil => rfl
  | cons i order ih =>
      have hplaced : (place f files slots i).length = files.length := by
        rw [length_place, hlength]
      rw [List.foldl_cons, ih hplaced, getElem?_place f files hlength]
      by_cases hj : j ∈ order
      · rw [if_pos hj, if_pos (List.mem_cons_of_mem i hj)]
      · rw [if_neg hj]
        by_cases hji : j = i
        · rw [if_pos hji, if_pos (hji ▸ List.mem_cons_self)]
        · rw [if_neg hji, if_neg (List.not_mem_cons_of_ne_of_not_mem hji hj)]

/-- **No place stays empty**, and each holds the result of its own file. -/
theorem collect_eq_map {order : List Nat} (h : IsSchedule files.length order) :
    collect f files order = files.map fun a => some (f a) := by
  apply List.ext_getElem?
  intro j
  have hslots : (List.replicate files.length (none : Option β)).length = files.length :=
    List.length_replicate
  show (order.foldl (place f files) (List.replicate files.length none))[j]? = _
  rw [getElem?_foldl_place f files order hslots, List.getElem?_map]
  by_cases hj : j < files.length
  · rw [if_pos (h.mem_iff.mpr (List.mem_range.mpr hj))]
  · -- Behind the last file there is nothing on either side.
    have hfile : files[j]? = none := List.getElem?_eq_none_iff.mpr (Nat.le_of_not_lt hj)
    have hslot : (List.replicate files.length (none : Option β))[j]? = none := by
      rw [List.getElem?_eq_none_iff, hslots]
      exact Nat.le_of_not_lt hj
    rw [hfile, hslot]
    split <;> rfl

theorem filterMap_collect {order : List Nat} (h : IsSchedule files.length order) :
    (collect f files order).filterMap id = files.map f := by
  rw [collect_eq_map f files h, List.filterMap_map]
  exact List.filterMap_eq_map_iff_forall_eq_some.mpr fun a _ => rfl

/-- The files in the order in which they finish are as many as there are. -/
theorem length_finished {order : List Nat} (h : IsSchedule files.length order) :
    (order.filterMap (files[·]?)).length = files.length := by
  have hrange : (List.range files.length).filterMap (files[·]?) = files := by
    have hmap : (List.range files.length).map (files[·]?) = files.map some := by
      apply List.ext_getElem?
      intro j
      by_cases hj : j < files.length
      · simp [hj]
      · simp [Nat.le_of_not_lt hj]
    calc (List.range files.length).filterMap (files[·]?)
        = ((List.range files.length).map (files[·]?)).filterMap id := by simp [List.filterMap_map]
      _ = files := by rw [hmap]; simp [List.filterMap_map]
  have hperm := h.filterMap (files[·]?)
  rw [hrange] at hperm
  exact hperm.length_eq

end Places

/-! ## Events -/

/-- The events while files finish tell how many of them are finished. -/
theorem map_unnamed_parseEventsFrom (total : Nat) {fs gs : List SourceFile}
    (h : fs.length = gs.length) (done last : Nat) :
    (parseEventsFrom total done last fs).map Event.unnamed =
      (parseEventsFrom total done last gs).map Event.unnamed := by
  induction fs generalizing gs done last with
  | nil =>
      obtain rfl : gs = [] := List.length_eq_zero_iff.mp h.symm
      rfl
  | cons f fs ih =>
      obtain ⟨g, gs, rfl⟩ := List.exists_cons_of_length_pos (l := gs) (by
        rw [← h, List.length_cons]
        omega)
      have htail : fs.length = gs.length := by simpa using h
      have hlater := ih htail (done + 1) (parsePercent (done + 1) total)
      unfold parseEventsFrom
      by_cases hsame : (parsePercent (done + 1) total == last) = true
      · simpa only [hsame, if_true] using hlater
      · simp only [hsame, Bool.false_eq_true, if_false, List.map_cons, hlater]
        rfl

theorem map_unnamed_parseEvents {files : List SourceFile} {order order' : List Nat}
    (h : IsSchedule files.length order) (h' : IsSchedule files.length order') :
    (parseEvents files order).map Event.unnamed = (parseEvents files order').map Event.unnamed := by
  apply map_unnamed_parseEventsFrom
  rw [length_finished files h, length_finished files h']

/-! ## The run -/

/-- The graph of files that are extracted one after another. -/
def graphOf (o : IngestOptions) (files : List SourceFile) : Graph :=
  Graph.build o.build (files.map o.extract) (contentsOf files)

/-- The events of each of the five phases, `parsed` being those while files finish. -/
def phaseEvents (files : List SourceFile) (parsed : List Event) (g : Graph) (load : LoadResult) :
    List (List Event) :=
  [[readingEvent, foundEvent files.length], parsingEvent :: parsed, [buildingEvent, builtEvent g],
    [loadingEvent, loadedEvent load], [readyEvent g load]]

/-- What a run does once its files are read. A run that is cancelled has emitted the events of the
phases before. -/
def runFiles [Engine] (o : IngestOptions) (w : Surroundings) (store : Store) (files : List SourceFile)
    (parsed : List Event) : Run :=
  let graph := graphOf o files
  let loaded := loadStore w.faults graph store
  let phases := phaseEvents files parsed graph loaded.2
  if w.cancelledAt 1 then ⟨(phases.take 1).flatten, store, .error .cancelled⟩
  else if w.cancelledAt 2 then ⟨(phases.take 2).flatten, store, .error .cancelled⟩
  else if w.cancelledAt 3 then ⟨(phases.take 3).flatten, store, .error .cancelled⟩
  else if w.cancelledAt 4 then ⟨(phases.take 4).flatten, loaded.1, .error .cancelled⟩
  else ⟨phases.flatten, loaded.1, .ok ⟨graph, contentsOf files, loaded.2⟩⟩

/-- **A run knows its schedule only by the events while files finish**, if there is anybody to extract
files. -/
theorem run_eq [Engine] {o : IngestOptions} (hworkers : 1 ≤ o.workers) {w : Surroundings}
    (horder : ∀ n, IsSchedule n (w.order n)) (archive : Archive) (store : Store) :
    run o w archive store =
      if w.cancelledAt 0 then ⟨[], store, .error .cancelled⟩
      else match archive.read o.read with
        | .error e => failure [readingEvent] store (.unreadable e)
        | .ok files => runFiles o w store files (parseEvents files (w.order files.length)) := by
  unfold run
  by_cases hstart : w.cancelledAt 0 = true
  · rw [if_pos hstart, if_pos hstart]
  rw [if_neg hstart, if_neg hstart]
  cases hread : archive.read o.read with
  | error e => rfl
  | ok files =>
      have hbusy : ¬(files ≠ [] ∧ o.workers ≤ 0) := by omega
      have hresults : (collect (fun f : SourceFile => Extraction.ofFile o.fails f.path f.content)
          files (w.order files.length)).filterMap id = files.map o.extract :=
        filterMap_collect o.extract files (horder files.length)
      simp only [hbusy, if_false, hresults]
      unfold runFiles graphOf phaseEvents
      split_ifs <;> simp

/-- Two runs that tell the same story and end in the same way: they differ in the names of the files
in their events at most. -/
structure Agree [Engine] (r r' : Run) : Prop where
  events_eq : r.events.map Event.unnamed = r'.events.map Event.unnamed
  store_eq : r.store = r'.store
  outcome_eq : r.outcome = r'.outcome

theorem Agree.refl [Engine] (r : Run) : Agree r r := ⟨rfl, rfl, rfl⟩

theorem agree_runFiles [Engine] (o : IngestOptions) (w : Surroundings) (store : Store)
    (files : List SourceFile) {parsed parsed' : List Event}
    (h : parsed.map Event.unnamed = parsed'.map Event.unnamed) :
    Agree (runFiles o w store files parsed) (runFiles o w store files parsed') := by
  unfold runFiles phaseEvents
  split_ifs
  · exact .refl _
  all_goals exact ⟨by simp [h], rfl, rfl⟩

/-- **The schedule does not matter.** For all files and every two orders in which their extractions
finish, every place is filled with what extracting its file gives, and the events are the same up to
the names of the files. So every two runs of an ingestion, with files finishing in any order and any
number of them extracted at a time, end in the same way, with the same graph and contents, element by
element, hence the same tables, and leave the same store. -/
theorem schedules_agree [Engine] (o : IngestOptions) :
    (∀ (files : List SourceFile) (order order' : List Nat), IsSchedule files.length order →
      IsSchedule files.length order' →
        collect o.extract files order = files.map (fun f => some (o.extract f)) ∧
        (parseEvents files order).map Event.unnamed = (parseEvents files order').map Event.unnamed) ∧
    ∀ (workers : Int) (w : Surroundings) (order : Nat → List Nat) (archive : Archive) (store : Store),
      1 ≤ o.workers → 1 ≤ workers → (∀ n, IsSchedule n (w.order n)) → (∀ n, IsSchedule n (order n)) →
        Agree (run o w archive store)
          (run { o with workers := workers } { w with order := order } archive store) := by
  constructor
  · intro files order order' h h'
    exact ⟨collect_eq_map o.extract files h, map_unnamed_parseEvents h h'⟩
  · intro workers w order archive store ho hworkers h h'
    rw [run_eq ho h, run_eq (o := { o with workers := workers }) hworkers
      (w := { w with order := order }) h']
    -- Whether the run is cancelled and what it reads depend on neither.
    show Agree (if w.cancelledAt 0 then _ else _) (if w.cancelledAt 0 then _ else _)
    by_cases hstart : w.cancelledAt 0 = true
    · rw [if_pos hstart, if_pos hstart]
      exact .refl _
    rw [if_neg hstart, if_neg hstart]
    show Agree (match archive.read o.read with | .error _ => _ | .ok _ => _)
      (match archive.read o.read with | .error _ => _ | .ok _ => _)
    cases archive.read o.read with
    | error e => exact .refl _
    | ok files =>
        exact agree_runFiles o w store files (map_unnamed_parseEvents (h files.length) (h' files.length))

/-- Two files that declare the same function, extracted by one and finishing in order, or by two and
finishing the other way round. -/
theorem schedules_agree_reversed :
    let o : IngestOptions := { read := ⟨.ofSettings {}, 1024⟩, workers := 1 }
    let files : List SourceFile :=
      [⟨"a.js".toList, "function f() \x7b g(); \x7d".toList⟩,
        ⟨"b.js".toList, "function f() \x7b\x7d".toList⟩]
    let archive := Archive.mapping (files.map fun f => (f.path, .text f.content))
    let reversed : Nat → List Nat := fun n => (List.range n).reverse
    (IsSchedule files.length [1, 0] ∧ IsSchedule files.length [0, 1] ∧
      ∀ n, IsSchedule n (List.range n) ∧ IsSchedule n (reversed n)) ∧
    collect o.extract files [1, 0] = files.map (fun f => some (o.extract f)) ∧
    (parseEvents files [1, 0]).map Event.unnamed = (parseEvents files [0, 1]).map Event.unnamed ∧
    Agree (run o {} archive {}) (run { o with workers := 2 } { order := reversed } archive {}) := by
  intro o files archive reversed
  have hswap : IsSchedule files.length [1, 0] := List.Perm.swap 0 1 []
  have hkeep : IsSchedule files.length [0, 1] := List.Perm.refl _
  have hrange : ∀ n, IsSchedule n (List.range n) := fun n => List.Perm.refl _
  have hreversed : ∀ n, IsSchedule n (reversed n) := fun n => List.reverse_perm _
  obtain ⟨hparts, hruns⟩ := schedules_agree o
  obtain ⟨hplaces, hevents⟩ := hparts files [1, 0] [0, 1] hswap hkeep
  refine ⟨⟨hswap, hkeep, fun n => ⟨hrange n, hreversed n⟩⟩, hplaces, hevents, ?_⟩
  exact hruns 2 {} reversed archive {} (by decide) (by decide) hrange hreversed

end Ingestion

end CodeAtlas
