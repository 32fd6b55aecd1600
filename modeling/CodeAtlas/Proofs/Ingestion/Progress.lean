import CodeAtlas.Proofs.Ingestion.Schedule
import Mathlib.Algebra.Order.Ring.Rat
import Mathlib.Data.Finset.Card
import Mathlib.Data.List.Destutter
import Mathlib.Data.List.Flatten
import Mathlib.Data.List.TakeWhile
import Mathlib.Order.Interval.Finset.Nat
import Mathlib.Tactic.NormNum

set_option autoImplicit false

/-! # The progress of a run

What a listener can rely on, whatever the archive, the order in which files finish, the calls of the
store that fail and the phase before which the run is cancelled. Events go forward through the phases
and never show a smaller percentage than before (`Ingestion.Orderly`). While files finish the
percentages climb from 15 to 60 and none is shown twice (`Ingestion.exists_climbs_parseEventsFrom`). A
run that is over concludes with one event that says so, and a run that is cancelled falls silent
(`Ingestion.run_progress`).

Only the percentages while files finish need an induction, on the files that are still to finish. The
rest of a run is a fixed list of events, of which a run that is cancelled emits the front that belongs
to the phases before.
-/

namespace CodeAtlas

namespace Phase

/-- The phases of an ingestion that succeeds, in order. -/
def course : List Phase := [extractArchive, parseFiles, buildGraph, loadStore, ready]

/-- The place of a phase in the course of an ingestion. -/
def rank : Phase → Nat
  | extractArchive => 0
  | parseFiles => 1
  | buildGraph => 2
  | loadStore => 3
  | ready => 4
  | error => 5

/-- Is it a phase in which a run ends? -/
def isTerminal (p : Phase) : Bool := p == .ready || p == .error

end Phase

/-- What an event shows of how far a run has come. -/
def Event.mark (e : Event) : Phase × Rat := (e.phase, e.percent)

namespace Ingestion

/-! ## Orderly events -/

/-- The events that tell how many files are finished: all of their phase but the one that opens it. -/
def increments (events : List Event) : List Event := (events.filter (·.phase == .parseFiles)).tail

/-- Marks that go forward: their phases do not go back, and their percentages do not fall and lie
between 0 and 100. -/
structure Forward (marks : List (Phase × Rat)) : Prop where
  phases : marks.Pairwise fun m m' => m.1.rank ≤ m'.1.rank
  percents : marks.Pairwise fun m m' => m.2 ≤ m'.2
  bounds : ∀ m ∈ marks, 0 ≤ m.2 ∧ m.2 ≤ 100

/-- Percentages that climb from 15 to 60. -/
structure Climbs (ps : List Nat) : Prop where
  increasing : ps.Pairwise (· < ·)
  bounds : ∀ p ∈ ps, 15 ≤ p ∧ p ≤ 60

/-- What the events of a run promise, `read` being what is read from the archive. -/
structure Orderly (read : Except ArchiveError (List SourceFile)) (events : List Event) : Prop where
  /-- Up to the event of a failure the events go forward, -/
  forward : Forward ((events.takeWhile (·.phase != .error)).map Event.mark)
  /-- and no phase is left out on the way. -/
  course : ((events.takeWhile (·.phase != .error)).map (·.phase)).destutter (· ≠ ·) <+: Phase.course
  /-- While files finish the percentages climb. If there are files, they come to 60. -/
  increments : ∃ ps : List Nat,
    (increments events).map (·.percent) = ps.map (fun p : Nat => (p : Rat)) ∧
    Climbs ps ∧ ps.length ≤ 46 ∧
    ∀ files, read = .ok files → files ≠ [] → (∃ e ∈ events, e.phase = .parseFiles) →
      ps.getLast? = some 60

/-- The last event is of this phase and percentage, and no event before it ends a run. -/
def Concludes (p : Phase) (percent : Rat) (events : List Event) : Prop :=
  ∃ front e, events = front ++ [e] ∧ e.phase = p ∧ e.percent = percent ∧
    ∀ x ∈ front, x.phase.isTerminal = false

/-- A run whose events a listener can rely on: they are orderly, and they tell how it ended. -/
structure WellTold [Engine] (read : Except ArchiveError (List SourceFile)) (r : Run) : Prop where
  orderly : Orderly read r.events
  ready : ∀ x, r.outcome = .ok x → Concludes .ready 100 r.events
  failed : ∀ e, r.outcome = .error e → e ≠ .cancelled → Concludes .error 0 r.events
  silent : r.outcome = .error .cancelled → ∀ e ∈ r.events, e.phase.isTerminal = false

theorem Forward.sublist {marks marks' : List (Phase × Rat)} (h : Forward marks)
    (hsub : marks'.Sublist marks) : Forward marks' :=
  ⟨h.phases.sublist hsub, h.percents.sublist hsub, fun m hm => h.bounds m (hsub.subset hm)⟩

/-- Marks that do not pass a point, and after them marks that start there. -/
theorem Forward.append {xs ys : List (Phase × Rat)} (hx : Forward xs) (hy : Forward ys) (rank : Nat)
    (percent : Rat) (hxs : ∀ m ∈ xs, m.1.rank ≤ rank ∧ m.2 ≤ percent)
    (hys : ∀ m ∈ ys, rank ≤ m.1.rank ∧ percent ≤ m.2) : Forward (xs ++ ys) where
  phases := by
    rw [List.pairwise_append]
    refine ⟨hx.phases, hy.phases, fun a ha b hb => ?_⟩
    exact le_trans (hxs a ha).1 (hys b hb).1
  percents := by
    rw [List.pairwise_append]
    refine ⟨hx.percents, hy.percents, fun a ha b hb => ?_⟩
    exact le_trans (hxs a ha).2 (hys b hb).2
  bounds := by
    intro m hm
    rcases List.mem_append.mp hm with hm | hm
    · exact hx.bounds m hm
    · exact hy.bounds m hm

/-! ## Percentages while files finish -/

theorem parsePercent_mono (total : Nat) {m n : Nat} (h : m ≤ n) :
    parsePercent m total ≤ parsePercent n total := by
  unfold parsePercent
  have hdiv : 45 * m / total ≤ 45 * n / total := Nat.div_le_div_right (by omega)
  omega

theorem parsePercent_bounds {done total : Nat} (h : done ≤ total) :
    15 ≤ parsePercent done total ∧ parsePercent done total ≤ 60 := by
  unfold parsePercent
  have hdiv : 45 * done / total ≤ 45 := Nat.div_le_of_le_mul (by
    rw [Nat.mul_comm total]
    exact Nat.mul_le_mul_left 45 h)
  exact ⟨Nat.le_add_right 15 _, Nat.add_le_add_left hdiv 15⟩

theorem parsePercent_self {total : Nat} (h : 0 < total) : parsePercent total total = 60 := by
  rw [parsePercent, Nat.mul_div_cancel 45 h]

/-- There are no more than 46 percentages between 15 and 60. -/
theorem Climbs.length_le {ps : List Nat} (h : Climbs ps) : ps.length ≤ 46 := by
  have hnodup : ps.Nodup := h.increasing.imp Nat.ne_of_lt
  have hsub : ps.toFinset ⊆ Finset.Icc 15 60 := by
    intro p hp
    rw [Finset.mem_Icc]
    exact h.bounds p (List.mem_toFinset.mp hp)
  calc ps.length = ps.toFinset.card := (List.toFinset_card_of_nodup hnodup).symm
    _ ≤ (Finset.Icc 15 60).card := Finset.card_le_card hsub
    _ = 46 := by simp

/-- **The percentages while files finish.** From a last percentage that is not above the next one they
climb strictly above it, and in the end they have come to the percentage of all the files. -/
theorem exists_climbs_parseEventsFrom (total done last : Nat) (fs : List SourceFile)
    (hdone : done + fs.length ≤ total) (hlast : last ≤ parsePercent (done + 1) total) :
    ∃ ps : List Nat,
      (parseEventsFrom total done last fs).map Event.mark =
        ps.map (fun p : Nat => (Phase.parseFiles, (p : Rat))) ∧
      Climbs ps ∧ (∀ p ∈ ps, last < p) ∧
      ps.getLastD last = if fs = [] then last else parsePercent (done + fs.length) total := by
  induction fs generalizing done last with
  | nil => exact ⟨[], rfl, ⟨.nil, by simp⟩, by simp, rfl⟩
  | cons f fs ih =>
      rw [List.length_cons] at hdone
      -- One more file is finished; what comes later climbs above the percentage it brings.
      set p := parsePercent (done + 1) total with hp
      obtain ⟨ps, hps, hclimbs, habove, hend⟩ := ih (done + 1) p (by omega)
        (parsePercent_mono total (by omega))
      have hfinal : ps.getLastD p = parsePercent (done + (f :: fs).length) total := by
        rw [hend, List.length_cons]
        split
        · next hnil => rw [hnil, hp, List.length_nil]
        · congr 1
          omega
      have hne : (f :: fs) ≠ [] := List.cons_ne_nil f fs
      rw [if_neg hne]
      by_cases hsame : p = last
      · -- The percentage is the same, so there is no event.
        refine ⟨ps, ?_, hclimbs, hsame ▸ habove, hsame ▸ hfinal⟩
        have hevents : parseEventsFrom total done last (f :: fs) =
            parseEventsFrom total (done + 1) p fs := by
          simp [parseEventsFrom, ← hp, hsame]
        rw [hevents, hps]
      · have hrise : last < p := by omega
        refine ⟨p :: ps, ?_, ⟨?_, ?_⟩, ?_, ?_⟩
        · simp only [parseEventsFrom, ← hp, beq_iff_eq, hsame, if_false, List.map_cons, hps]
          rfl
        · exact List.pairwise_cons.mpr ⟨habove, hclimbs.increasing⟩
        · exact List.forall_mem_cons.mpr ⟨parsePercent_bounds (by omega), hclimbs.bounds⟩
        · intro q hq
          rcases List.mem_cons.mp hq with rfl | hq
          · exact hrise
          · exact lt_trans hrise (habove q hq)
        · rw [List.getLastD_cons]
          exact hfinal

/-- The same for all files of a run. -/
theorem exists_climbs_parseEvents {files : List SourceFile} {order : List Nat}
    (h : IsSchedule files.length order) :
    ∃ ps : List Nat,
      (parseEvents files order).map Event.mark =
        ps.map (fun p : Nat => (Phase.parseFiles, (p : Rat))) ∧
      Climbs ps ∧ (files ≠ [] → ps.getLast? = some 60) := by
  have hlength := length_finished files h
  obtain ⟨ps, hps, hclimbs, -, hend⟩ := exists_climbs_parseEventsFrom files.length 0 0
    (order.filterMap (files[·]?)) (by omega) (Nat.zero_le _)
  refine ⟨ps, hps, hclimbs, fun hfiles => ?_⟩
  have hpos : 0 < files.length := List.length_pos_iff.mpr hfiles
  have hsome : order.filterMap (files[·]?) ≠ [] := by
    rw [← List.length_pos_iff, hlength]
    exact hpos
  rw [if_neg hsome, hlength, Nat.zero_add, parsePercent_self hpos] at hend
  -- The percentages have come from 0 to 60, so there are some.
  cases hlast : ps.getLast? with
  | none =>
      rw [List.getLast?_eq_none_iff.mp hlast] at hend
      exact absurd hend (by decide)
  | some p =>
      rw [List.getLastD_eq_getLast?, hlast] at hend
      exact congrArg some hend

/-! ## The events of a run -/

/-- The marks of a run that is not disturbed, `ps` being the percentages while files finish. -/
def marksOf (ps : List Nat) : List (Phase × Rat) :=
  [(.extractArchive, 0), (.extractArchive, 15), (.parseFiles, 15)] ++
    ps.map (fun p : Nat => (Phase.parseFiles, (p : Rat))) ++
    [(.buildGraph, 60), (.buildGraph, 80), (.loadStore, 80), (.loadStore, 95), (.ready, 100)]

theorem forward_marksOf {ps : List Nat} (h : Climbs ps) : Forward (marksOf ps) := by
  have hmarks : ∀ m ∈ ps.map (fun p : Nat => (Phase.parseFiles, (p : Rat))),
      m.1.rank = 1 ∧ 15 ≤ m.2 ∧ m.2 ≤ 60 := by
    intro m hm
    obtain ⟨p, hp, rfl⟩ := List.mem_map.mp hm
    refine ⟨rfl, ?_⟩
    show (15 : Rat) ≤ (p : Rat) ∧ (p : Rat) ≤ 60
    exact_mod_cast h.bounds p hp
  have hmiddle : Forward (ps.map (fun p : Nat => (Phase.parseFiles, (p : Rat)))) := by
    refine ⟨?_, ?_, fun m hm => ?_⟩
    · rw [List.pairwise_map]
      exact h.increasing.imp fun _ => Nat.le_refl _
    · rw [List.pairwise_map]
      exact h.increasing.imp fun hlt => Nat.cast_le.mpr (Nat.le_of_lt hlt)
    · obtain ⟨-, hlow, hhigh⟩ := hmarks m hm
      exact ⟨le_trans (by norm_num) hlow, le_trans hhigh (by norm_num)⟩
  have hopening : Forward [(.extractArchive, 0), (.extractArchive, 15), (.parseFiles, 15)] :=
    ⟨by decide, by decide, by decide⟩
  have hclosing : Forward
      [(.buildGraph, 60), (.buildGraph, 80), (.loadStore, 80), (.loadStore, 95), (.ready, 100)] :=
    ⟨by decide, by decide, by decide⟩
  unfold marksOf
  apply Forward.append _ hclosing 2 60
  · intro m hm
    rcases List.mem_append.mp hm with hm | hm
    · have hbelow : ∀ m ∈ [(Phase.extractArchive, (0 : Rat)), (.extractArchive, 15), (.parseFiles, 15)],
          m.1.rank ≤ 2 ∧ m.2 ≤ 60 := by
        decide
      exact hbelow m hm
    · obtain ⟨hrank, -, hhigh⟩ := hmarks m hm
      exact ⟨by omega, hhigh⟩
  · decide
  · apply hopening.append hmiddle 1 15
    · decide
    · intro m hm
      obtain ⟨hrank, hlow, -⟩ := hmarks m hm
      exact ⟨by omega, hlow⟩

/-- Repetitions of the phase that a run is in are left out. -/
theorem destutter'_replicate_append (p : Phase) (n : Nat) (l : List Phase) :
    (List.replicate n p ++ l).destutter' (· ≠ ·) p = l.destutter' (· ≠ ·) p := by
  induction n with
  | zero => rfl
  | succ n ih => simpa [List.replicate_succ] using ih

section Phases

variable (files : List SourceFile) {parsed : List Event} {ps : List Nat}
  (hparsed : parsed.map Event.mark = ps.map fun p : Nat => (.parseFiles, (p : Rat)))
  (g : Graph) (load : LoadResult)

include hparsed

theorem phase_of_mem_parsed {e : Event} (he : e ∈ parsed) : e.phase = .parseFiles := by
  have hmem : e.mark ∈ ps.map fun p : Nat => (Phase.parseFiles, (p : Rat)) :=
    hparsed ▸ List.mem_map_of_mem he
  obtain ⟨p, -, hp⟩ := List.mem_map.mp hmem
  exact (congrArg Prod.fst hp).symm

theorem map_mark_phaseEvents :
    (phaseEvents files parsed g load).flatten.map Event.mark = marksOf ps := by
  simp only [phaseEvents, List.flatten_cons, List.flatten_nil, List.append_nil, List.map_append,
    List.map_cons, List.map_nil, hparsed, marksOf, List.cons_append, List.nil_append]
  rfl

/-- The phase of the files is passed as a whole or not at all. -/
theorem filter_phaseEvents (k : Nat) :
    ((phaseEvents files parsed g load).take k).flatten.filter (·.phase == .parseFiles) =
      if k < 2 then [] else parsingEvent :: parsed := by
  have hall : parsed.filter (·.phase == .parseFiles) = parsed := by
    rw [List.filter_eq_self]
    intro e he
    rw [phase_of_mem_parsed hparsed he]
    rfl
  have hphases : (phaseEvents files parsed g load).map (List.filter (·.phase == .parseFiles)) =
      [[], parsingEvent :: parsed, [], [], []] := by
    simp only [phaseEvents, List.map_cons, List.map_nil, List.cons.injEq, and_true]
    refine ⟨rfl, ?_, rfl, rfl, rfl⟩
    rw [List.filter_cons_of_pos rfl, hall]
  rw [List.filter_flatten, List.map_take, hphases]
  rcases k with _ | _ | _ | _ | _ | k <;> simp

/-- The first phases of a run are the first phases of the course. -/
theorem destutter_phaseEvents (k : Nat) :
    (((phaseEvents files parsed g load).take k).flatten.map (·.phase)).destutter (· ≠ ·) =
      Phase.course.take k := by
  have hall : parsed.map (·.phase) = List.replicate parsed.length Phase.parseFiles := by
    rw [List.eq_replicate_iff]
    refine ⟨List.length_map _, fun p hp => ?_⟩
    obtain ⟨e, he, rfl⟩ := List.mem_map.mp hp
    exact phase_of_mem_parsed hparsed he
  have hphases : (phaseEvents files parsed g load).map (List.map (·.phase)) =
      [[.extractArchive, .extractArchive],
        Phase.parseFiles :: List.replicate parsed.length Phase.parseFiles,
        [.buildGraph, .buildGraph], [.loadStore, .loadStore], [.ready]] := by
    simp only [phaseEvents, List.map_cons, List.map_nil, hall]
    rfl
  have hstill := destutter'_replicate_append .parseFiles parsed.length []
  rw [List.append_nil] at hstill
  rw [List.map_flatten, List.map_take, hphases]
  rcases k with _ | _ | _ | _ | _ | k <;>
    simp [List.destutter, Phase.course, destutter'_replicate_append, hstill]

/-- No event before the last phase ends a run. -/
theorem isTerminal_of_mem_phaseEvents {k : Nat} (hk : k ≤ 4) :
    ∀ e ∈ ((phaseEvents files parsed g load).take k).flatten, e.phase.isTerminal = false := by
  intro e he
  replace he := (List.take_sublist_take_left hk).flatten.subset he
  simp only [phaseEvents, List.take_succ_cons, List.take_zero, List.flatten_cons, List.flatten_nil,
    List.append_nil, List.cons_append, List.nil_append, List.mem_cons, List.mem_append,
    List.not_mem_nil, or_false] at he
  rcases he with rfl | rfl | rfl | he | rfl | rfl | rfl | rfl
  case inr.inr.inr.inl =>
    rw [phase_of_mem_parsed hparsed he]
    rfl
  all_goals rfl

omit hparsed in
theorem flatten_phaseEvents :
    (phaseEvents files parsed g load).flatten =
      ((phaseEvents files parsed g load).take 4).flatten ++ [readyEvent g load] := by
  simp [phaseEvents]

theorem ne_error_of_mem_phaseEvents :
    ∀ e ∈ (phaseEvents files parsed g load).flatten, e.phase ≠ .error := by
  intro e he hphase
  rw [flatten_phaseEvents, List.mem_append, List.mem_singleton] at he
  rcases he with he | rfl
  · have hfalse := isTerminal_of_mem_phaseEvents files hparsed g load le_rfl e he
    rw [hphase] at hfalse
    exact absurd hfalse (by decide)
  · cases hphase

end Phases

/-! ## Fronts of a run -/

/-- **The first phases of a run are told in an orderly way.** -/
theorem orderly_front {files : List SourceFile} {order : List Nat}
    (h : IsSchedule files.length order) (g : Graph) (load : LoadResult) (k : Nat) :
    Orderly (.ok files) ((phaseEvents files (parseEvents files order) g load).take k).flatten := by
  obtain ⟨ps, hps, hclimbs, hend⟩ := exists_climbs_parseEvents h
  have hsub := (List.take_sublist k (phaseEvents files (parseEvents files order) g load)).flatten
  have hwhole : (((phaseEvents files (parseEvents files order) g load).take k).flatten).takeWhile
      (·.phase != .error) = ((phaseEvents files (parseEvents files order) g load).take k).flatten := by
    rw [List.takeWhile_eq_self_iff]
    intro e he
    exact bne_iff_ne.mpr (ne_error_of_mem_phaseEvents files hps g load e (hsub.subset he))
  have hfilter := filter_phaseEvents files hps g load k
  refine ⟨?_, ?_, ?_⟩
  · rw [hwhole]
    have hforward := forward_marksOf hclimbs
    rw [← map_mark_phaseEvents files hps g load] at hforward
    exact hforward.sublist (hsub.map _)
  · rw [hwhole, destutter_phaseEvents files hps]
    exact List.take_prefix k _
  · -- Either the files were not reached, or all of them are finished.
    by_cases hk : k < 2
    · rw [if_pos hk] at hfilter
      refine ⟨[], by rw [increments, hfilter]; rfl, ⟨.nil, by simp⟩, by decide, ?_⟩
      rintro _ - - ⟨e, he, hphase⟩
      exact absurd (beq_iff_eq.mpr hphase) (List.filter_eq_nil_iff.mp hfilter e he)
    · rw [if_neg hk] at hfilter
      refine ⟨ps, ?_, hclimbs, hclimbs.length_le, ?_⟩
      · have hpercents := congrArg (List.map Prod.snd) hps
        rw [List.map_map, List.map_map] at hpercents
        rw [increments, hfilter, List.tail_cons]
        exact hpercents
      · rintro _ ⟨⟩ hfiles -
        exact hend hfiles

/-- A run that is cancelled before anything is read. -/
theorem wellTold_nil [Engine] (read : Except ArchiveError (List SourceFile)) (store : Store) :
    WellTold read ⟨[], store, .error .cancelled⟩ where
  orderly := ⟨⟨.nil, .nil, by simp⟩, List.nil_prefix, [], rfl, ⟨.nil, by simp⟩, by decide, by simp⟩
  ready := by simp
  failed := by simp
  silent := by simp

/-- A run whose archive cannot be read. -/
theorem wellTold_unreadable [Engine] (e : ArchiveError) (store : Store) :
    WellTold (.error e) (failure [readingEvent] store (.unreadable e)) where
  orderly :=
    { forward := show Forward [(.extractArchive, 0)] from ⟨by decide, by decide, by decide⟩
      course := show [Phase.extractArchive] <+: Phase.course by decide
      increments := ⟨[], rfl, ⟨.nil, by simp⟩, by decide, by simp⟩ }
  ready := by simp [failure]
  failed := by
    intro _ _ _
    refine ⟨[readingEvent], errorEvent (.unreadable e), rfl, rfl, rfl, fun x hx => ?_⟩
    rw [List.mem_singleton.mp hx]
    rfl
  silent := by simp [failure]

section Files

variable {files : List SourceFile} {order : List Nat} (h : IsSchedule files.length order)
  (g : Graph) (load : LoadResult)

include h

/-- A run that is cancelled before one of the later phases. -/
theorem wellTold_cancelled [Engine] (store : Store) {k : Nat} (hk : k ≤ 4) :
    WellTold (.ok files) ⟨((phaseEvents files (parseEvents files order) g load).take k).flatten, store,
      .error .cancelled⟩ where
  orderly := orderly_front h g load k
  ready := by simp
  failed := by simp
  silent := by
    obtain ⟨ps, hps, -⟩ := exists_climbs_parseEvents h
    intro _ e he
    exact isTerminal_of_mem_phaseEvents files hps g load hk e he

/-- A run that goes through all phases. -/
theorem wellTold_ready [Engine] (store : Store) (x : Ingested) :
    WellTold (.ok files)
      ⟨(phaseEvents files (parseEvents files order) g load).flatten, store, .ok x⟩ where
  orderly := orderly_front h g load 5
  ready := by
    obtain ⟨ps, hps, -⟩ := exists_climbs_parseEvents h
    intro _ _
    exact ⟨_, readyEvent g load, flatten_phaseEvents files g load, rfl, rfl,
      isTerminal_of_mem_phaseEvents files hps g load le_rfl⟩
  failed := by simp
  silent := by simp

end Files

/-- **The progress of every run.** Let files be extracted by one or more, and finish in any order. For
every archive, every store with any of its calls failing, and every phase before which the run is
cancelled, the events are orderly: up to the event of a failure they go forward through the phases
with percentages that do not fall; while files finish the percentages climb strictly between 15 and 60,
so there are at most 46 of them, and they come to 60 if there are files. A run that finishes concludes
with the one event that it is ready, at 100 per cent; a run that fails concludes with the one event of
its failure; a run that is cancelled has neither. -/
theorem run_progress [Engine] {o : IngestOptions} (hworkers : 1 ≤ o.workers) {w : Surroundings}
    (horder : ∀ n, IsSchedule n (w.order n)) (archive : Archive) (store : Store) :
    WellTold (archive.read o.read) (run o w archive store) := by
  rw [run_eq hworkers horder]
  by_cases hstart : w.cancelledAt 0 = true
  · rw [if_pos hstart]
    exact wellTold_nil _ store
  rw [if_neg hstart]
  cases archive.read o.read with
  | error e => exact wellTold_unreadable e store
  | ok files =>
      have h := horder files.length
      unfold runFiles
      split_ifs
      · exact wellTold_cancelled h _ _ _ (k := 1) (by decide)
      · exact wellTold_cancelled h _ _ _ (k := 2) (by decide)
      · exact wellTold_cancelled h _ _ _ (k := 3) (by decide)
      · exact wellTold_cancelled h _ _ _ (k := 4) (by decide)
      · exact wellTold_ready h _ _ _ _

/-- Three files that finish in reverse, a store that takes no table in, and a run that is cancelled
before it is ready. -/
theorem run_progress_cancelled :
    let o : IngestOptions := { read := ⟨.ofSettings {}, 1024⟩, workers := 2 }
    let w : Surroundings :=
      { order := fun n => (List.range n).reverse, cancelAfter := some 4, faults := .ofCopy }
    let archive := Archive.mapping
      [("b.js".toList, .text "f();".toList), ("a.sol".toList, .text []), ("c.md".toList, .text [])]
    1 ≤ o.workers ∧ (∀ n, IsSchedule n (w.order n)) ∧
      WellTold (archive.read o.read) (run o w archive {}) := by
  intro o w archive
  have hreversed : ∀ n, IsSchedule n (w.order n) := fun n => List.reverse_perm _
  exact ⟨by decide, hreversed, run_progress (by decide) hreversed archive {}⟩

end Ingestion

end CodeAtlas
