import CodeAtlas.Store.Database
import CodeAtlas.Worker
import Mathlib.Data.List.Basic

set_option autoImplicit false

/-! # Results after a termination

Terminating a worker is meant to discard the results of all that was submitted before. An ingestion
looks whether its session was cancelled and publishes its result in two steps, and a termination can
come in between: then the result is published all the same (`Worker.publish_after_terminate`). That is
the only way. A result that shows after a termination belongs to an ingestion submitted later, or to
one that had made its check by then (`Worker.result_after_terminate`).

What one step can do to the ingestions, the session and the result is said once, in
`Worker.Transition`; the stores do not matter here. The invariant `Worker.Abandoned` speaks of the
ingestions submitted before the termination: their sessions are cancelled, so none of them makes its
check any more.
-/

namespace CodeAtlas.Worker

section

variable [Engine]

/-- Take steps one after another, each with the calls of the store that fail meanwhile. -/
def stepAll (w : Worker) (steps : List (Step × Faults)) : Worker :=
  steps.foldl (fun w s => { w with faults := s.2 }.step s.1) w

/-! ## What a step can do -/

/-- Writing a store changes nothing else of what is looked at here. -/
theorem setStore_eq (w : Worker) (n : Nat) (s : Store) :
    (w.setStore n s).tasks = w.tasks ∧ (w.setStore n s).session = w.session ∧
      (w.setStore n s).result = w.result := by
  unfold setStore
  split <;> exact ⟨rfl, rfl, rfl⟩

/-- How an ingestion gets on before it publishes: it runs, it ends with an error, or it finds that its
session is not cancelled. -/
inductive Advances (w : Worker) (t : Task) : Stage → Prop where
  | run (r : Run) (h : t.stage = .queued) : Advances w t (.ran r)
  | stop {r : Run} (e : IngestError) (h : t.stage = .ran r) : Advances w t (.done (.error e))
  | pass {r : Run} (x : Ingested) (h : t.stage = .ran r) (hopen : w.isCancelled t.session = false) :
      Advances w t (.checked r x)

/-- What becomes of an ingestion when its session is terminated. -/
def abandon (t : Task) : Task :=
  match t.stage with
  | .queued => { t with stage := .done (.error .cancelled) }
  | _ => t

theorem session_abandon (t : Task) : (abandon t).session = t.session := by
  unfold abandon
  split <;> rfl

theorem stage_abandon (t : Task) :
    (abandon t).stage = t.stage ∨ ∃ outcome, (abandon t).stage = .done outcome := by
  unfold abandon
  split
  · exact Or.inr ⟨_, rfl⟩
  · exact Or.inl rfl

/-- What a step can do to the ingestions, the session and the result of a worker. -/
inductive Transition (w w' : Worker) : Prop where
  | idle (htasks : w'.tasks = w.tasks) (hsession : w'.session = w.session)
      (hresult : w'.result = w.result)
  | submit (a : Archive) (htasks : w'.tasks = w.tasks ++ [{ archive := a, session := w.session }])
      (hsession : w'.session = w.session) (hresult : w'.result = w.result)
  | advance {i : Nat} {t : Task} {stage : Stage} (ht : w.tasks[i]? = some t)
      (hstage : w.Advances t stage)
      (htasks : w'.tasks = w.tasks.modify i fun t => { t with stage := stage })
      (hsession : w'.session = w.session) (hresult : w'.result = w.result)
  | publish {i : Nat} {t : Task} {r : Run} {x : Ingested} (ht : w.tasks[i]? = some t)
      (hstage : t.stage = .checked r x)
      (htasks : w'.tasks = w.tasks.modify i fun t => { t with stage := .done (.ok x) })
      (hsession : w'.session = w.session) (hresult : w'.result = some ⟨i, x⟩)
  | terminate (htasks : w'.tasks = w.tasks.map abandon) (hsession : w'.session = w.session + 1)
      (hresult : w'.result = none)

/-- **What a step can do.** -/
theorem transition_step (w : Worker) (faults : Faults) (s : Step) :
    Transition w ({ w with faults := faults }.step s) := by
  cases s with
  | submit a => exact .submit a rfl rfl rfl
  | run i =>
      show Transition w ({ w with faults := faults }.runTask i)
      unfold runTask
      split
      · next archive session hi =>
        split
        · obtain ⟨htasks, hsession, hresult⟩ := setStore_eq { w with faults := faults } session _
          exact .advance hi (.run _ rfl) (congrArg (List.modify · i _) htasks) hsession hresult
        · exact .idle rfl rfl rfl
      · exact .idle rfl rfl rfl
  | check i =>
      show Transition w ({ w with faults := faults }.checkTask i)
      unfold checkTask
      split
      · next archive session run hi =>
        split
        · next e _ => exact .advance hi (.stop e rfl) rfl rfl rfl
        · next x _ =>
          split
          · obtain ⟨htasks, hsession, hresult⟩ := setStore_eq { w with faults := faults } session _
            exact .advance hi (.stop _ rfl) (congrArg (List.modify · i _) htasks) hsession hresult
          · next hopen => exact .advance hi (.pass x rfl (Bool.eq_false_iff.mpr hopen)) rfl rfl rfl
      · exact .idle rfl rfl rfl
  | publish i =>
      show Transition w ({ w with faults := faults }.publishTask i)
      unfold publishTask
      split
      · next hi => exact .publish hi rfl rfl rfl rfl
      · exact .idle rfl rfl rfl
  | terminate => exact .terminate rfl rfl rfl

/-- What every transition keeps holds after all steps. -/
theorem invariant_stepAll {P : Worker → Prop} (hP : ∀ w w', Transition w w' → P w → P w') {w : Worker}
    (h : P w) (steps : List (Step × Faults)) : P (w.stepAll steps) := by
  induction steps generalizing w with
  | nil => exact h
  | cons s steps ih => exact ih (hP w _ (transition_step w s.2 s.1) h)

/-! ## One ingestion in one step -/

theorem getElem?_modify_stage {tasks : List Task} {i j : Nat} {stage : Stage} {t' : Task}
    (h : (tasks.modify i fun t => { t with stage := stage })[j]? = some t') :
    ∃ t, tasks[j]? = some t ∧ t'.session = t.session ∧
      (t'.stage = t.stage ∨ i = j ∧ t'.stage = stage) := by
  rw [List.getElem?_modify] at h
  obtain ⟨t, ht, rfl⟩ := Option.map_eq_some_iff.mp h
  by_cases hij : i = j
  · exact ⟨t, ht, by rw [if_pos hij], Or.inr ⟨hij, by rw [if_pos hij]⟩⟩
  · exact ⟨t, ht, by rw [if_neg hij], Or.inl (by rw [if_neg hij])⟩

/-- **What becomes of one ingestion in one step**: it stays in its session and, if its stage changes at
all, it gets on or it is over. Only a new one is queued. -/
theorem Transition.of_task {w w' : Worker} (h : Transition w w') {j : Nat} {t' : Task}
    (ht' : w'.tasks[j]? = some t') :
    (∃ t, w.tasks[j]? = some t ∧ t'.session = t.session ∧
      (t'.stage = t.stage ∨ w.Advances t t'.stage ∨ ∃ outcome, t'.stage = .done outcome)) ∨
    (w.tasks.length ≤ j ∧ t'.session = w.session ∧ t'.stage = .queued) := by
  cases h with
  | idle htasks _ _ =>
      rw [htasks] at ht'
      exact Or.inl ⟨t', ht', rfl, Or.inl rfl⟩
  | submit a htasks _ _ =>
      rw [htasks] at ht'
      by_cases hj : j < w.tasks.length
      · rw [List.getElem?_append_left hj] at ht'
        exact Or.inl ⟨t', ht', rfl, Or.inl rfl⟩
      · rw [List.getElem?_append_right (by omega), List.getElem?_singleton] at ht'
        split at ht'
        · obtain rfl := Option.some.inj ht'
          exact Or.inr ⟨by omega, rfl, rfl⟩
        · cases ht'
  | @advance i t stage ht hstage htasks _ _ =>
      rw [htasks] at ht'
      obtain ⟨u, hu, hsession, hsame | ⟨rfl, hnew⟩⟩ := getElem?_modify_stage ht'
      · exact Or.inl ⟨u, hu, hsession, Or.inl hsame⟩
      · obtain rfl := Option.some.inj (ht.symm.trans hu)
        exact Or.inl ⟨t, hu, hsession, Or.inr (Or.inl (hnew ▸ hstage))⟩
  | publish ht hstage htasks _ _ =>
      rw [htasks] at ht'
      obtain ⟨u, hu, hsession, hsame | ⟨-, hnew⟩⟩ := getElem?_modify_stage ht'
      · exact Or.inl ⟨u, hu, hsession, Or.inl hsame⟩
      · exact Or.inl ⟨u, hu, hsession, Or.inr (Or.inr ⟨_, hnew⟩)⟩
  | terminate htasks _ _ =>
      rw [htasks, List.getElem?_map] at ht'
      obtain ⟨t, ht, rfl⟩ := Option.map_eq_some_iff.mp ht'
      refine Or.inl ⟨t, ht, session_abandon t, ?_⟩
      rcases stage_abandon t with hsame | hdone
      · exact Or.inl hsame
      · exact Or.inr (Or.inr hdone)

/-- Sessions only go up. -/
theorem Transition.session_le {w w' : Worker} (h : Transition w w') : w.session ≤ w'.session := by
  cases h with
  | idle _ hsession _ => omega
  | submit _ _ hsession _ => omega
  | advance _ _ _ hsession _ => omega
  | publish _ _ _ hsession _ => omega
  | terminate _ hsession _ => omega

/-- Ingestions are only added. -/
theorem Transition.length_le {w w' : Worker} (h : Transition w w') :
    w.tasks.length ≤ w'.tasks.length := by
  cases h with
  | idle htasks _ _ => exact Nat.le_of_eq (by rw [htasks])
  | submit _ htasks _ _ => exact Nat.le.intro (by rw [htasks, List.length_append])
  | advance _ _ htasks _ _ => exact Nat.le_of_eq (by rw [htasks, List.length_modify])
  | publish _ _ htasks _ _ => exact Nat.le_of_eq (by rw [htasks, List.length_modify])
  | terminate htasks _ _ => exact Nat.le_of_eq (by rw [htasks, List.length_map])

/-! ## Ingestions of terminated sessions -/

/-- No ingestion belongs to a session that is still to come. -/
def Dated (w : Worker) : Prop := ∀ (i : Nat) (t : Task), w.tasks[i]? = some t → t.session ≤ w.session

theorem Dated.transition {w w' : Worker} (h : Transition w w') (hw : w.Dated) : w'.Dated := by
  intro i t' ht'
  have hsession := h.session_le
  rcases h.of_task ht' with ⟨t, ht, heq, -⟩ | ⟨-, heq, -⟩
  · have hle := hw i t ht
    omega
  · omega

/-- The first `n` ingestions are abandoned: their sessions are cancelled, and those of them that have
made their check or whose result shows are as `Passed` tells. -/
structure Abandoned (n : Nat) (Passed : Nat → Ingested → Prop) (w : Worker) : Prop where
  length_le : n ≤ w.tasks.length
  cancelled : ∀ i t, i < n → w.tasks[i]? = some t → w.isCancelled t.session = true
  checked : ∀ i t r x, i < n → w.tasks[i]? = some t → t.stage = .checked r x → Passed i x
  result : ∀ p, w.result = some p → p.task < n → Passed p.task p.result

/-- **Abandoned ingestions make no more checks**, so no more of their results come to show. -/
theorem Abandoned.transition {n : Nat} {Passed : Nat → Ingested → Prop} {w w' : Worker}
    (h : Transition w w') (hw : w.Abandoned n Passed) : w'.Abandoned n Passed where
  length_le := Nat.le_trans hw.length_le h.length_le
  cancelled := by
    intro i t' hi ht'
    have hsession := h.session_le
    have hlength := hw.length_le
    rcases h.of_task ht' with ⟨t, ht, heq, -⟩ | ⟨hnew, -⟩
    · have hcancelled := hw.cancelled i t hi ht
      simp only [isCancelled, decide_eq_true_eq] at hcancelled ⊢
      omega
    · omega
  checked := by
    intro i t' r x hi ht' hstage
    have hlength := hw.length_le
    rcases h.of_task ht' with ⟨t, ht, -, hsame | hadvance | ⟨outcome, hdone⟩⟩ | ⟨hnew, -⟩
    · exact hw.checked i t r x hi ht (hsame ▸ hstage)
    · -- To make its check it would need a session that is not cancelled.
      rw [hstage] at hadvance
      cases hadvance with
      | pass _ _ hopen =>
          rw [hw.cancelled i t hi ht] at hopen
          cases hopen
    · rw [hstage] at hdone
      cases hdone
    · omega
  result := by
    intro p hp hi
    cases h with
    | idle _ _ hresult => exact hw.result p (hresult ▸ hp) hi
    | submit _ _ _ hresult => exact hw.result p (hresult ▸ hp) hi
    | advance _ _ _ _ hresult => exact hw.result p (hresult ▸ hp) hi
    | publish ht hstage _ _ hresult =>
        obtain rfl := Option.some.inj (hresult.symm.trans hp)
        exact hw.checked _ _ _ _ hi ht hstage
    | terminate _ _ hresult =>
        rw [hresult] at hp
        cases hp

/-- The ingestion has found that its session is not cancelled and is about to publish this result. -/
def HasPassed (w : Worker) (i : Nat) (x : Ingested) : Prop :=
  ∃ t r, w.tasks[i]? = some t ∧ t.stage = .checked r x

/-- Terminating abandons all ingestions there are. -/
theorem abandoned_terminate {w : Worker} (hw : w.Dated) :
    w.terminate.Abandoned w.tasks.length w.HasPassed := by
  have htask : ∀ (i : Nat) (t' : Task), w.terminate.tasks[i]? = some t' →
      ∃ t, w.tasks[i]? = some t ∧ t' = abandon t := by
    intro i t' ht'
    have hmap : (w.tasks.map abandon)[i]? = some t' := ht'
    rw [List.getElem?_map] at hmap
    obtain ⟨t, ht, heq⟩ := Option.map_eq_some_iff.mp hmap
    exact ⟨t, ht, heq.symm⟩
  refine ⟨Nat.le_of_eq (List.length_map _).symm, ?_, ?_, ?_⟩
  · intro i t' _ ht'
    obtain ⟨t, ht, rfl⟩ := htask i t' ht'
    have hle := hw i t ht
    rw [isCancelled, session_abandon, decide_eq_true_eq]
    show t.session < w.session + 1
    omega
  · intro i t' r x _ ht' hstage
    obtain ⟨t, ht, rfl⟩ := htask i t' ht'
    rcases stage_abandon t with hsame | ⟨outcome, hdone⟩
    · exact ⟨t, r, ht, hsame ▸ hstage⟩
    · rw [hstage] at hdone
      cases hdone
  · intro p hp _
    cases hp

/-- **A result after a termination** belongs to an ingestion that was submitted later, or to one that
had made its check when the worker was terminated and had only to publish its result. An ingestion that
was queued or running or had its check before it never shows its result again, in whatever order the
steps of all ingestions come, however often the worker is terminated, and whatever fails in the
stores. -/
theorem result_after_terminate (o : IngestOptions) (store : Store) (before after : List (Step × Faults))
    (p : Published) :
    let w := ({ options := o, store := store } : Worker).stepAll before
    (w.terminate.stepAll after).result = some p →
      w.tasks.length ≤ p.task ∨ w.HasPassed p.task p.result := by
  intro w hp
  have hdated : w.Dated := by
    refine invariant_stepAll (fun _ _ h => Dated.transition h) ?_ before
    intro i t ht
    simp at ht
  have habandoned : (w.terminate.stepAll after).Abandoned w.tasks.length w.HasPassed :=
    invariant_stepAll (fun _ _ h => Abandoned.transition h) (abandoned_terminate hdated) after
  -- Only for the ingestions there were at the termination is there something to show.
  by_cases hlate : w.tasks.length ≤ p.task
  · exact Or.inl hlate
  · exact Or.inr (habandoned.result p hp (by omega))

end

/-! ## Between the check and the result -/

/-- A worker with one ingestion, of an archive without files, that has made its check and is about to
publish its result. -/
def checkedWorker : Worker :=
  ({ options := { read := ⟨.ofSettings {}, 1024⟩ } } : Worker).stepAll
    [(.submit (.mapping []), .none), (.run 0, .none), (.check 0, .none)]

/-- **There is room for a termination between the check and the result**: the result of an ingestion
that was submitted before the termination comes back after it. -/
theorem publish_after_terminate :
    checkedWorker.tasks.length = 1 ∧ checkedWorker.terminate.result.isNone = true ∧
      (checkedWorker.terminate.stepAll [(.publish 0, .none)]).result.map (·.task) = some 0 := by
  decide +kernel

/-- That result belongs to an ingestion that had made its check. -/
theorem result_after_terminate_checked :
    ∃ p, (checkedWorker.terminate.stepAll [(.publish 0, .none)]).result = some p ∧ p.task = 0 ∧
      (checkedWorker.tasks.length ≤ p.task ∨ checkedWorker.HasPassed p.task p.result) := by
  have hshown :
      (checkedWorker.terminate.stepAll [(.publish 0, .none)]).result.map (·.task) = some 0 := by
    decide +kernel
  obtain ⟨p, hp, htask⟩ := Option.map_eq_some_iff.mp hshown
  exact ⟨p, hp, htask, result_after_terminate _ _ _ _ p hp⟩

end CodeAtlas.Worker
