import CodeAtlas.Ingestion
import CodeAtlas.Proofs.Store.BulkLoad

set_option autoImplicit false

/-! # Counts after a load

Any call may fail during a load, and then the load fails. What it cannot do is to succeed with less
than the graph it was given: a table comes in as a whole or not at all, so after a load that succeeds
there are as many rows as nodes (`Engine.Laws.of_copyTable_nodes`) and as many edges as relationships
(`Engine.Laws.of_copyTable_edges`). Here nothing has to be known of the graph, in contrast to
`Store.reset_load`, which says that the load of a built graph does succeed.

`Ingestion.loadStore_exact` puts this together for the way a graph is put in the place of another: the
store is ready afterwards exactly if the load succeeded, and then it has the size of the graph.
-/

namespace CodeAtlas

variable [Engine] {laws : Engine.Laws}

/-! ## One table -/

/-- What it takes for a table to be taken in: it had no rows, or the copy succeeded. -/
theorem Store.copyTable_cases {fails : Bool} {copy : Text → Engine.State × Bool} {table : Text}
    {db db' : Engine.State} (h : copyTable fails copy table db = (db', true)) :
    (Table.hasRows table = false ∧ db' = db) ∨ copy table = (db', true) := by
  unfold copyTable at h
  by_cases hrows : Table.hasRows table = true
  · rw [if_pos hrows] at h
    cases fails with
    | true => cases h
    | false => exact Or.inr h
  · rw [if_neg hrows] at h
    cases h
    exact Or.inl ⟨Bool.eq_false_iff.mpr hrows, rfl⟩

namespace Engine.Laws

variable {delimiter : Text} {g : Graph} {fails : Bool} {db db' : State} {t : Tables}

/-- **Nodes come in one for one.** -/
theorem of_copyTable_nodes (hd : IsExactDelimiter delimiter) (h : laws.Holds db t)
    (hcopy : Store.copyTable fails (copyNodes db delimiter) (Table.nodes delimiter g) db =
      (db', true)) :
    ∃ rows, rows.length = g.nodeCount ∧ laws.Holds db' { t with nodes := t.nodes ++ rows } := by
  rcases Store.copyTable_cases hcopy with ⟨hrows, rfl⟩ | hcopy
  · refine ⟨[], ?_, by rwa [List.append_nil]⟩
    rw [Graph.nodeCount, Table.eq_nil_of_hasRows Table.visible_nodeFields hrows]
    rfl
  · rcases hd with ⟨d, rfl, hd⟩ | hrefused
    · obtain ⟨rows, hlength, hholds⟩ := laws.of_copyNodes h hd hcopy
      refine ⟨rows, ?_, hholds⟩
      rw [hlength, Table.body_nodes hd, List.length_map]
      exact List.length_map _
    · have hno := (hrefused db (Table.nodes delimiter g)).1
      rw [hcopy] at hno
      cases hno

/-- **Edges come in one for one.** -/
theorem of_copyTable_edges (hd : IsExactDelimiter delimiter) (h : laws.Holds db t)
    (hcopy : Store.copyTable fails (copyEdges db delimiter) (Table.edges delimiter g) db =
      (db', true)) :
    ∃ rows, rows.length = g.edgeCount ∧ laws.Holds db' { t with edges := t.edges ++ rows } := by
  rcases Store.copyTable_cases hcopy with ⟨hrows, rfl⟩ | hcopy
  · refine ⟨[], ?_, by rwa [List.append_nil]⟩
    rw [Graph.edgeCount, Table.eq_nil_of_hasRows Table.visible_edgeFields hrows]
    rfl
  · rcases hd with ⟨d, rfl, hd⟩ | hrefused
    · obtain ⟨rows, hlength, hholds⟩ := laws.of_copyEdges h hd hcopy
      refine ⟨rows, ?_, hholds⟩
      rw [hlength, Table.body_edges hd, List.length_map]
      exact List.length_map _
    · have hno := (hrefused db (Table.edges delimiter g)).2
      rw [hcopy] at hno
      cases hno

end Engine.Laws

/-! ## Both tables -/

namespace Store

/-- A store in memory that takes tables in exactly as they were written, or not at all. -/
structure IsExact (s : Store) : Prop where
  medium_eq : s.medium = .memory
  delimiter : Engine.IsExactDelimiter s.delimiter

theorem IsExact.of_fresh_eq {s s' : Store} (hfresh : s'.fresh = s.fresh) (h : s.IsExact) :
    s'.IsExact where
  medium_eq := (congrArg medium hfresh).trans h.medium_eq
  delimiter := by
    have hdelimiter : s'.fresh.delimiter = s.fresh.delimiter := by rw [hfresh]
    have hsame : s'.delimiter = s.delimiter := hdelimiter
    rw [hsame]
    exact h.delimiter

/-- In memory there is nothing to be found. -/
theorem openUp_memory {s s' : Store} (h : s.medium = .memory) (hnone : s.connection = none)
    {faults : Faults} (hopen : s.openUp faults = (s', .ok ())) :
    s' = { s with connection := some ⟨Engine.createTables (Engine.new false), true⟩ } := by
  unfold openUp found at hopen
  rw [hnone, h] at hopen
  simp only at hopen
  split at hopen
  · cases hopen
  · next db hfound =>
    split at hfound
    · cases hfound
    · obtain rfl := Except.ok.inj hfound
      split at hopen
      · cases hopen
      · obtain rfl := congrArg Prod.fst hopen
        rw [h]

theorem hasSize_of_loadTables {s s' : Store} (hs : s.IsExact) (hnone : s.connection = none)
    {faults : Faults} {g : Graph} {count : Nat}
    (h : s.loadTables faults (Table.nodes s.delimiter g) (Table.edges s.delimiter g) =
      (s', some count)) :
    ∃ db, s'.connection = some ⟨db, true⟩ ∧ laws.HasSize db g := by
  unfold loadTables at h
  -- A call that fails ends the load, so that only the way through all of them is left.
  split at h
  · cases h
  · next s₁ hopen =>
    obtain rfl := openUp_memory hs.medium_eq hnone hopen
    simp only at h
    split at h
    · cases h
    · split at h
      · cases h
      · next db₁ hnodes =>
        split at h
        · cases h
        · next db₂ hedges =>
          split at h
          · cases h
          · obtain ⟨rfl, -⟩ := Prod.mk.inj h
            obtain ⟨rows, hrows, h₁⟩ :=
              Engine.Laws.of_copyTable_nodes hs.delimiter laws.holds_new hnodes
            obtain ⟨rows', hrows', h₂⟩ := Engine.Laws.of_copyTable_edges hs.delimiter h₁ hedges
            exact ⟨db₂, rfl, _, h₂, hrows, hrows'⟩

/-- **A load that succeeds** in an empty store leaves a database of the size of the graph. -/
theorem hasSize_of_load {s : Store} (hs : s.IsExact) (hnone : s.connection = none) {faults : Faults}
    {g : Graph}
    (h : (s.load faults (Table.nodes s.delimiter g) (Table.edges s.delimiter g)).2.success = true) :
    ∃ db, (s.load faults (Table.nodes s.delimiter g) (Table.edges s.delimiter g)).1.connection =
      some ⟨db, true⟩ ∧ laws.HasSize db g := by
  have hfresh : fresh { s with loading := true, ready := false } = s.fresh := rfl
  unfold load at h ⊢
  split at h
  · cases h
  · next heq =>
    obtain ⟨db, hconn, hsize⟩ := hasSize_of_loadTables (hs.of_fresh_eq hfresh) hnone heq
    exact ⟨db, hconn, hsize⟩

end Store

namespace Ingestion

/-- **A graph in the place of another.** Whatever was in the store and whatever fails, except that the
store can be taken, it is ready afterwards exactly if the load succeeded, and it then has the size of
the new graph. -/
theorem loadStore_exact {s : Store} (hs : s.IsExact) {faults : Faults}
    (hfaults : faults .acquire = false) (g : Graph) :
    (loadStore faults g s).1.IsExact ∧
      (loadStore faults g s).1.isReady = (loadStore faults g s).2.success ∧
      ((loadStore faults g s).2.success = true →
        ∃ db, (loadStore faults g s).1.connection = some ⟨db, true⟩ ∧ laws.HasSize db g) := by
  obtain ⟨hready, hclosed⟩ := Store.reset_taken hs.medium_eq hfaults
  have hexact := hs.of_fresh_eq (Store.fresh_reset hs.medium_eq faults)
  unfold loadStore
  cases hreset : s.reset faults with
  | mk s₁ outcome =>
      rw [hreset] at hready hclosed hexact
      cases outcome with
      | error e =>
          refine ⟨hexact, ?_, fun h => by cases h⟩
          show (s₁.ready && !s₁.loading) = false
          rw [show s₁.ready = false from hready, Bool.false_and]
      | ok u =>
          have hnone : s₁.connection = none := hclosed rfl
          obtain ⟨c, hload⟩ :=
            s₁.exists_load_eq faults (Table.nodes s₁.delimiter g) (Table.edges s₁.delimiter g)
          refine ⟨hexact.of_fresh_eq (s₁.fresh_load faults _ _), ?_, ?_⟩
          · show (s₁.load faults _ _).1.isReady = (s₁.load faults _ _).2.success
            rw [hload]
            exact Bool.and_true _
          · exact Store.hasSize_of_load hexact hnone

end Ingestion

end CodeAtlas
