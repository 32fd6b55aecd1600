import CodeAtlas.Proofs.Store.Operation
import CodeAtlas.Store.Database

set_option autoImplicit false

/-! # When a store is ready

Three kinds of operations settle whether a store is ready: loading, resetting and closing. A load makes
it ready if it succeeds, and everything else they do leaves it not ready, whichever of their calls fails
(`Store.exists_load_eq`, `Store.exists_closeHandles_eq`, `Store.exists_reset_eq`). The other operations
leave it as it is (`Store.isReady_perform_of_not_settles`). So a store is ready exactly if the last
operation that settled it was a load that succeeded (`Store.isReady_performAll_iff`).

That a store is ready would be worth little if it could not be asked then. `Store.Steady` is what every
operation keeps: no load is under way, and a store that is ready has an open connection.
-/

namespace CodeAtlas.Store

section

variable [Engine]

/-! ## Answers -/

/-- What an operation hands back. -/
inductive Answer where
  | done
  | loaded (r : LoadResult)
  | rows (rows : List Database.Row)
  | counted (c : StoreStats)

/-- What an operation hands back, or the error that it ends in. -/
def answer (s : Store) (faults : Faults) : Operation → Except StoreError Answer
  | .openUp => (s.openUp faults).2.map fun _ => .done
  | .load nodes edges => .ok (.loaded (s.load faults nodes edges).2)
  | .query words params => (s.query faults words params).2.map .rows
  | .stats => .ok (.counted (s.stats faults))
  | .reset => (s.reset faults).2.map fun _ => .done
  | .close => (s.close faults).2.map fun _ => .done

/-- Does the operation settle whether the store is ready? A reset that could not take the store was not
performed. -/
def Operation.settles (op : Operation) (faults : Faults) : Bool :=
  match op with
  | .load _ _ | .close => true
  | .reset => !faults .acquire
  | .openUp | .query _ _ | .stats => false

/-- The last operation of a session that settled whether the store is ready was a load that
succeeded. -/
def EndsLoaded (s : Store) (ops : List (Operation × Faults)) : Prop :=
  ∃ before nodes edges faults after, ops = before ++ (.load nodes edges, faults) :: after ∧
    ((s.performAll before).load faults nodes edges).2.success = true ∧
    ∀ op ∈ after, op.1.settles op.2 = false

/-! ## What operations do to readiness -/

/-- A reset that takes the store leaves it not ready, whatever fails then. -/
theorem exists_reset_eq (s : Store) {faults : Faults} (h : faults .acquire = false) :
    ∃ m c, (s.reset faults).1 = { s with medium := m, connection := c, ready := false } := by
  obtain ⟨m, c, hclosed⟩ := s.exists_closeHandles_eq faults
  unfold reset
  rw [h, if_neg Bool.false_ne_true]
  split
  · next heq =>
    rw [heq] at hclosed
    exact ⟨m, c, hclosed⟩
  · next s' heq =>
    rw [heq] at hclosed
    obtain rfl : s' = { s with medium := m, connection := c, ready := false } := hclosed
    -- What lies on the disk may be removed as well.
    split
    · exact ⟨_, c, rfl⟩
    · exact ⟨_, c, rfl⟩
    · exact ⟨_, c, rfl⟩
    · split <;> exact ⟨_, c, rfl⟩
    · split <;> exact ⟨_, c, rfl⟩

theorem isReady_load (s : Store) (faults : Faults) (nodes edges : Text) :
    (s.load faults nodes edges).1.isReady = (s.load faults nodes edges).2.success := by
  obtain ⟨c, heq⟩ := s.exists_load_eq faults nodes edges
  rw [heq]
  exact Bool.and_true _

/-- **Resetting and closing** leave the store not ready. -/
theorem isReady_perform_of_settles {s : Store} {faults : Faults} {op : Operation}
    (hload : ∀ nodes edges, op ≠ .load nodes edges) (h : op.settles faults = true) :
    (s.perform faults op).isReady = false := by
  cases op with
  | load nodes edges => exact absurd rfl (hload nodes edges)
  | reset =>
      obtain ⟨m, c, heq⟩ := s.exists_reset_eq (by simpa [Operation.settles] using h)
      rw [perform, heq]
      rfl
  | close =>
      obtain ⟨m, c, heq⟩ := s.exists_closeHandles_eq faults
      rw [perform, close, heq]
      rfl
  | openUp => cases h
  | query words params => cases h
  | stats => cases h

/-- **The other operations** leave a store as ready as it is. -/
theorem isReady_perform_of_not_settles {s : Store} {faults : Faults} {op : Operation}
    (h : op.settles faults = false) : (s.perform faults op).isReady = s.isReady := by
  cases op with
  | openUp =>
      obtain ⟨c, heq⟩ := s.exists_openUp_eq faults
      rw [perform, heq]
      rfl
  | load nodes edges => cases h
  | query words params => exact s.isReady_query faults words params
  | stats => rfl
  | reset =>
      have hacquire : faults .acquire = true := by simpa [Operation.settles] using h
      rw [perform, reset, if_pos hacquire]
  | close => cases h

/-! ## The last operation that settles -/

theorem not_endsLoaded_nil (s : Store) : ¬ s.EndsLoaded [] := by
  rintro ⟨before, nodes, edges, faults, after, heq, -⟩
  simp at heq

/-- One more operation settles it, or what was settled before stands. -/
theorem endsLoaded_concat_iff (s : Store) (ops : List (Operation × Faults)) (op : Operation)
    (faults : Faults) :
    s.EndsLoaded (ops ++ [(op, faults)]) ↔
      (∃ nodes edges, op = .load nodes edges ∧
        ((s.performAll ops).load faults nodes edges).2.success = true) ∨
      op.settles faults = false ∧ s.EndsLoaded ops := by
  constructor
  · rintro ⟨before, nodes, edges, faults', after, heq, hsuccess, hafter⟩
    -- The load was the last operation, or came before it.
    rcases List.eq_nil_or_concat after with rfl | ⟨after, last, rfl⟩
    · obtain ⟨rfl, hlast⟩ := List.append_inj' heq rfl
      obtain ⟨rfl, rfl⟩ : op = .load nodes edges ∧ faults = faults' := by simpa using hlast
      exact Or.inl ⟨nodes, edges, rfl, hsuccess⟩
    · rw [List.concat_eq_append, ← List.cons_append, ← List.append_assoc] at heq
      obtain ⟨rfl, hlast⟩ := List.append_inj' heq rfl
      obtain rfl : (op, faults) = last := by simpa using hlast
      rw [List.concat_eq_append] at hafter
      refine Or.inr ⟨?_, before, nodes, edges, faults', after, rfl, hsuccess, fun x hx => ?_⟩
      · exact hafter (op, faults) (List.mem_append_right _ (List.mem_singleton_self _))
      · exact hafter x (List.mem_append_left _ hx)
  · rintro (⟨nodes, edges, rfl, hsuccess⟩ | ⟨hsettles, before, nodes, edges, faults', after, rfl,
      hsuccess, hafter⟩)
    · exact ⟨ops, nodes, edges, faults, [], rfl, hsuccess, by simp⟩
    · refine ⟨before, nodes, edges, faults', after ++ [(op, faults)], by simp, hsuccess, ?_⟩
      intro x hx
      rcases List.mem_append.mp hx with hx | hx
      · exact hafter x hx
      · rw [List.mem_singleton.mp hx]
        exact hsettles

theorem performAll_concat (s : Store) (ops : List (Operation × Faults)) (op : Operation)
    (faults : Faults) :
    s.performAll (ops ++ [(op, faults)]) = (s.performAll ops).perform faults op := by
  rw [performAll, List.foldl_append]
  rfl

/-- **A store is ready exactly if the last operation that settled it was a load that succeeded.** -/
theorem isReady_performAll_iff {s : Store} (hs : s.isReady = false)
    (ops : List (Operation × Faults)) : (s.performAll ops).isReady = true ↔ s.EndsLoaded ops := by
  -- From the end, since the last operation is the one that may settle it.
  induction ops using List.reverseRecOn with
  | nil =>
      show s.isReady = true ↔ _
      simp [hs, s.not_endsLoaded_nil]
  | append_singleton ops x ih =>
      obtain ⟨op, faults⟩ := x
      rw [performAll_concat, endsLoaded_concat_iff, ← ih]
      by_cases hload : ∃ nodes edges, op = .load nodes edges
      · obtain ⟨nodes, edges, rfl⟩ := hload
        rw [perform, isReady_load]
        simp [Operation.settles]
      · have hne : ∀ nodes edges, op ≠ .load nodes edges := by
          intro nodes edges heq
          exact hload ⟨nodes, edges, heq⟩
        cases hsettles : op.settles faults with
        | true => simp [isReady_perform_of_settles hne hsettles, hne]
        | false => simp [isReady_perform_of_not_settles hsettles, hne]

/-! ## Open connections -/

/-- Both tables are loaded only over an open connection, and what is there then is counted. -/
theorem loadTables_eq_some {s s' : Store} {faults : Faults} {nodes edges : Text} {count : Nat}
    (h : s.loadTables faults nodes edges = (s', some count)) :
    ∃ db, s'.connection = some ⟨db, true⟩ ∧ Engine.countNodes db = some count := by
  unfold loadTables at h
  -- A step that fails ends the load, so that only the way through all of them is left.
  split at h
  · cases h
  · split at h
    · cases h
    · next db₀ isOpen _ =>
      split at h
      · cases h
      · simp only at h
        split at h
        · cases h
        · split at h
          · cases h
          · next db _ =>
            split at h
            · cases h
            · next hopen =>
              obtain ⟨rfl, hcount⟩ := Prod.mk.inj h
              obtain rfl : isOpen = true := by
                cases isOpen with
                | true => rfl
                | false => simp at hopen
              exact ⟨db, rfl, hcount⟩

/-- **A load always answers**: it failed, or it succeeded with the number of nodes that are counted
then. -/
theorem load_cases (s : Store) (faults : Faults) (nodes edges : Text) :
    (s.load faults nodes edges).2 = .failed ∨
      ∃ db count, (s.load faults nodes edges).2 = ⟨true, count⟩ ∧
        Engine.countNodes db = some count ∧
        (s.load faults nodes edges).1.connection = some ⟨db, true⟩ := by
  unfold load
  split
  · exact Or.inl rfl
  · next count heq =>
    obtain ⟨db, hconn, hcount⟩ := loadTables_eq_some heq
    exact Or.inr ⟨db, count, rfl, hcount, hconn⟩

/-- A question leaves everything of a store but what its database holds. -/
theorem exists_query_eq (s : Store) (faults : Faults) (words : Text) (params : Mapping Text) :
    ∃ c, (s.query faults words params).1 = { s with connection := c } ∧
      c.map (·.isOpen) = s.connection.map (·.isOpen) := by
  rcases s.query_eq_or faults words params with heq | ⟨db, isOpen, hconn, heq⟩
  · exact ⟨s.connection, heq, rfl⟩
  · exact ⟨some ⟨(Engine.ask db words params).1, isOpen⟩, heq, by rw [hconn]; rfl⟩

/-- What holds of a store between two operations. -/
structure Steady (s : Store) : Prop where
  loading_eq : s.loading = false
  open_of_ready : s.ready = true → ∃ db, s.connection = some ⟨db, true⟩

namespace Steady

variable {s : Store}

/-- A store that is not ready has nothing to keep open. -/
theorem of_not_ready (hloading : s.loading = false) (hready : s.ready = false) : s.Steady where
  loading_eq := hloading
  open_of_ready := fun h => by cases hready.symm.trans h

theorem open_of_isReady (h : s.Steady) (hready : s.isReady = true) :
    ∃ db, s.connection = some ⟨db, true⟩ := by
  rw [isReady, Bool.and_eq_true] at hready
  exact h.open_of_ready hready.1

theorem openUp (h : s.Steady) (faults : Faults) : (s.openUp faults).1.Steady := by
  obtain ⟨c, heq⟩ := s.exists_openUp_eq faults
  cases hready : s.ready with
  | false =>
      rw [heq]
      exact of_not_ready h.loading_eq hready
  | true =>
      -- The connection is there already.
      obtain ⟨db, hconn⟩ := h.open_of_ready hready
      have hsame : (s.openUp faults).1 = s := by
        unfold Store.openUp
        rw [hconn]
      rwa [hsame]

theorem load (s : Store) (faults : Faults) (nodes edges : Text) :
    (s.load faults nodes edges).1.Steady := by
  obtain ⟨c, heq⟩ := s.exists_load_eq faults nodes edges
  constructor
  · rw [heq]
  · intro hready
    rcases s.load_cases faults nodes edges with hfailed | ⟨db, count, -, -, hconn⟩
    · rw [heq, hfailed] at hready
      cases hready
    · exact ⟨db, hconn⟩

theorem query (h : s.Steady) (faults : Faults) (words : Text) (params : Mapping Text) :
    (s.query faults words params).1.Steady := by
  obtain ⟨c, heq, hopen⟩ := s.exists_query_eq faults words params
  rw [heq]
  refine ⟨h.loading_eq, fun hready => ?_⟩
  obtain ⟨db, hconn⟩ := h.open_of_ready hready
  rw [hconn, Option.map_some] at hopen
  obtain ⟨⟨db', isOpen⟩, rfl, rfl⟩ := Option.map_eq_some_iff.mp hopen
  exact ⟨db', rfl⟩

theorem reset (h : s.Steady) (faults : Faults) : (s.reset faults).1.Steady := by
  cases hacquire : faults .acquire with
  | false =>
      obtain ⟨m, c, heq⟩ := s.exists_reset_eq hacquire
      rw [heq]
      exact of_not_ready h.loading_eq rfl
  | true =>
      rw [Store.reset, if_pos hacquire]
      exact h

theorem close (h : s.Steady) (faults : Faults) : (s.close faults).1.Steady := by
  obtain ⟨m, c, heq⟩ := s.exists_closeHandles_eq faults
  rw [Store.close, heq]
  exact of_not_ready h.loading_eq rfl

theorem perform (h : s.Steady) (faults : Faults) (op : Operation) : (s.perform faults op).Steady := by
  cases op with
  | openUp => exact h.openUp faults
  | load nodes edges => exact load s faults nodes edges
  | query words params => exact h.query faults words params
  | stats => exact h
  | reset => exact h.reset faults
  | close => exact h.close faults

theorem performAll (h : s.Steady) (ops : List (Operation × Faults)) : (s.performAll ops).Steady := by
  induction ops generalizing s with
  | nil => exact h
  | cons op ops ih => exact ih (h.perform op.2 op.1)

/-- **A question is refused exactly if the store is not ready.** -/
theorem answer_query_iff (h : s.Steady) (faults : Faults) (words : Text) (params : Mapping Text) :
    s.answer faults (.query words params) = .error .notReady ↔ s.isReady = false := by
  unfold answer Store.query
  cases hready : s.isReady with
  | false => simp [Except.map]
  | true =>
      obtain ⟨db, hconn⟩ := h.open_of_isReady hready
      simp only [hconn]
      -- An open connection refuses a question in its own words.
      split
      · simp [Except.map]
      · split <;> simp [Except.map]

end Steady

/-- A store that is not ready counts nothing. -/
theorem stats_of_not_ready {s : Store} (h : s.isReady = false) (faults : Faults) :
    s.stats faults = ⟨0, 0⟩ := by
  unfold stats
  rw [h]

/-! ## Sessions -/

/-- **Every session of a store**, whatever it lives on, whichever engine runs its database, whatever is
asked of it and whichever calls fail. Between two operations no load is under way, and the store is
ready exactly if the last load, reset or close was a load that succeeded; its connection is open then. A
further load answers in any case. A further question is refused as too early exactly if the store is not
ready, and it leaves everything of the store but what its database holds. The counts are always given,
and they are zeros if the store is not ready. -/
theorem session_readiness (medium : Medium) (delimiter : Text) (ops : List (Operation × Faults)) :
    let start : Store := { medium := medium, delimiter := delimiter }
    let s := start.performAll ops
    s.loading = false ∧ (s.isReady = true ↔ start.EndsLoaded ops) ∧
    (s.isReady = true → ∃ db, s.connection = some ⟨db, true⟩) ∧
    ∀ faults : Faults,
      (∀ nodes edges, ∃ r, s.answer faults (.load nodes edges) = .ok (.loaded r) ∧
        (r = .failed ∨ ∃ db count, r = ⟨true, count⟩ ∧ Engine.countNodes db = some count ∧
          (s.perform faults (.load nodes edges)).connection = some ⟨db, true⟩)) ∧
      (∀ words params,
        (s.answer faults (.query words params) = .error .notReady ↔ s.isReady = false) ∧
        ∃ c, s.perform faults (.query words params) = { s with connection := c } ∧
          c.map (·.isOpen) = s.connection.map (·.isOpen)) ∧
      ∃ c, s.answer faults .stats = .ok (.counted c) ∧ (s.isReady = false → c = ⟨0, 0⟩) := by
  intro start s
  have hsteady : s.Steady := Steady.performAll (.of_not_ready rfl rfl) ops
  refine ⟨hsteady.loading_eq, isReady_performAll_iff rfl ops, hsteady.open_of_isReady, ?_⟩
  intro faults
  refine ⟨fun nodes edges => ?_, fun words params => ?_, ?_⟩
  · exact ⟨_, rfl, s.load_cases faults nodes edges⟩
  · exact ⟨hsteady.answer_query_iff faults words params, s.exists_query_eq faults words params⟩
  · exact ⟨_, rfl, fun hready => stats_of_not_ready hready faults⟩

end

/-- A store is loaded and then closed, and its database fails to close. It keeps a connection that is
closed, and a second load over it fails. -/
theorem session_readiness_broken :
    let load : Operation := .load "id\n".toList "id\n".toList
    let broken : Faults := fun c => c == .closeDatabase
    let start : Store := {}
    let ops := [(load, Faults.none)]
    let more := ops ++ [(.close, broken), (load, Faults.none)]
    (start.performAll ops).isReady = true ∧ start.EndsLoaded ops ∧
    (∃ db, (start.performAll ops).connection = some ⟨db, true⟩) ∧
    (start.performAll more).isReady = false ∧ ¬ start.EndsLoaded more ∧
    ∃ c, (start.performAll more).answer .none .stats = .ok (.counted c) ∧ c = ⟨0, 0⟩ := by
  intro load broken start ops more
  have hloaded : (start.performAll ops).isReady = true := by decide
  have hbroken : (start.performAll more).isReady = false := by decide
  obtain ⟨-, hends, hopen, -⟩ := session_readiness .memory [','] ops
  obtain ⟨-, hends', -, hfurther⟩ := session_readiness .memory [','] more
  obtain ⟨-, -, c, hcounted, hzero⟩ := hfurther .none
  refine ⟨hloaded, hends.mp hloaded, hopen hloaded, hbroken, fun h => ?_, c, hcounted, hzero hbroken⟩
  exact Bool.false_ne_true (hbroken.symm.trans (hends'.mpr h))

end CodeAtlas.Store
