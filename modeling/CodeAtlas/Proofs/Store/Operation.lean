import CodeAtlas.Store.Basic
import Mathlib.Tactic

set_option autoImplicit false

/-! # Sessions of a store

A session is a sequence of operations, each with the calls that fail while it runs. Operations open,
fill, question and close the database of a store, but they do not change what kind of store it is: the
medium it lives on and the delimiter of its tables. For stores in memory that is all that has to be known
of what went before, because resetting them drops the rest.

Nothing is assumed of the engine that runs the database.
-/

namespace CodeAtlas

/-- No call fails but the writing of tables. -/
def Faults.OnlyWriting (faults : Faults) : Prop :=
  ∀ c, (∀ table, c ≠ .writeTable table) → faults c = false

namespace Store

variable [Engine]

/-- What can be asked of a store. -/
inductive Operation where
  | openUp
  | load (nodes edges : Text)
  | query (words : Text) (params : Mapping Text)
  | stats
  | reset
  | close
deriving DecidableEq

/-- The store that an operation leaves. -/
def perform (s : Store) (faults : Faults) : Operation → Store
  | .openUp => (s.openUp faults).1
  | .load nodes edges => (s.load faults nodes edges).1
  | .query words params => (s.query faults words params).1
  | .stats => s
  | .reset => (s.reset faults).1
  | .close => (s.close faults).1

/-- The store that a session leaves. -/
def performAll (s : Store) (ops : List (Operation × Faults)) : Store :=
  ops.foldl (fun s op => s.perform op.2 op.1) s

/-! ## What kind of store it is

A new store like the one there is (`Store.fresh`) has its medium and its delimiter, so that neither of
them changes is one equation. -/

/-- Opening writes the connection at most. -/
theorem exists_openUp_eq (s : Store) (faults : Faults) :
    ∃ c, (s.openUp faults).1 = { s with connection := c } := by
  unfold openUp
  split
  · exact ⟨s.connection, rfl⟩
  · split
    · exact ⟨s.connection, rfl⟩
    · split
      · exact ⟨s.connection, rfl⟩
      · exact ⟨_, rfl⟩

theorem fresh_openUp (s : Store) (faults : Faults) : (s.openUp faults).1.fresh = s.fresh := by
  obtain ⟨c, heq⟩ := s.exists_openUp_eq faults
  rw [heq]
  rfl

/-- Closing a database on a disk saves it there; one in memory is gone. -/
theorem fresh_closeHandles {s : Store} (h : s.medium = .memory) (faults : Faults) :
    (s.closeHandles faults).1.fresh = s.fresh := by
  unfold closeHandles
  simp only
  split
  · rfl
  · split
    · rfl
    · split
      · rfl
      · simp [fresh, h]

theorem fresh_reset {s : Store} (h : s.medium = .memory) (faults : Faults) :
    (s.reset faults).1.fresh = s.fresh := by
  unfold reset
  have hclosed := fresh_closeHandles h faults
  split
  · rfl
  · split
    · next heq => rwa [heq] at hclosed
    · -- In memory there is nothing else to remove.
      next s' heq =>
      rw [heq] at hclosed
      have hmedium : s'.medium = .memory := (congrArg medium hclosed).trans h
      rwa [hmedium]

/-- Whichever table comes in, only the connection is written. -/
theorem exists_loadTables_eq (s : Store) (faults : Faults) (nodes edges : Text) :
    ∃ c, (s.loadTables faults nodes edges).1 = { s with connection := c } := by
  obtain ⟨c, hopen⟩ := s.exists_openUp_eq faults
  unfold loadTables
  split
  · next heq =>
    rw [heq] at hopen
    exact ⟨c, hopen⟩
  · next s' heq =>
    rw [heq] at hopen
    obtain rfl : s' = { s with connection := c } := hopen
    split
    · exact ⟨_, rfl⟩
    · split
      · exact ⟨_, rfl⟩
      · simp only
        split
        · exact ⟨_, rfl⟩
        · split
          · exact ⟨_, rfl⟩
          · split <;> exact ⟨_, rfl⟩

/-- **A load leaves a store that is ready exactly if it succeeds**, and changes nothing else of it but
the connection. -/
theorem exists_load_eq (s : Store) (faults : Faults) (nodes edges : Text) :
    ∃ c, (s.load faults nodes edges).1 =
      { s with
        connection := c
        ready := (s.load faults nodes edges).2.success
        loading := false } := by
  obtain ⟨c, htables⟩ :=
    exists_loadTables_eq { s with loading := true, ready := false } faults nodes edges
  refine ⟨c, ?_⟩
  unfold load
  split
  · next s' heq =>
    rw [heq] at htables
    obtain rfl : s' = { s with connection := c, loading := true, ready := false } := htables
    rfl
  · next s' count heq =>
    rw [heq] at htables
    obtain rfl : s' = { s with connection := c, loading := true, ready := false } := htables
    rfl

theorem fresh_load (s : Store) (faults : Faults) (nodes edges : Text) :
    (s.load faults nodes edges).1.fresh = s.fresh := by
  obtain ⟨c, heq⟩ := s.exists_load_eq faults nodes edges
  rw [heq, fresh]
  rfl

/-- A question changes nothing but the database, and that as the engine does when it is asked. -/
theorem query_eq_or (s : Store) (faults : Faults) (words : Text) (params : Mapping Text) :
    (s.query faults words params).1 = s ∨
      ∃ db isOpen, s.connection = some ⟨db, isOpen⟩ ∧
        (s.query faults words params).1 =
          { s with connection := some ⟨(Engine.ask db words params).1, isOpen⟩ } := by
  unfold query
  split
  · next db isOpen _ hconn =>
    split
    · exact Or.inl rfl
    · refine Or.inr ⟨db, isOpen, hconn, ?_⟩
      split
      · next hask => rw [hask]
      · next hask => rw [hask]
  · exact Or.inl rfl

theorem isReady_query (s : Store) (faults : Faults) (words : Text) (params : Mapping Text) :
    (s.query faults words params).1.isReady = s.isReady := by
  rcases s.query_eq_or faults words params with heq | ⟨_, _, _, heq⟩
  · rw [heq]
  · rw [heq]
    rfl

theorem fresh_query (s : Store) (faults : Faults) (words : Text) (params : Mapping Text) :
    (s.query faults words params).1.fresh = s.fresh := by
  rcases s.query_eq_or faults words params with heq | ⟨_, _, _, heq⟩
  · rw [heq]
  · rw [heq]
    rfl

/-- **What kind of store it is** does not change, whatever is asked and whatever fails. -/
theorem fresh_perform {s : Store} (h : s.medium = .memory) (faults : Faults) (op : Operation) :
    (s.perform faults op).fresh = s.fresh := by
  cases op with
  | openUp => exact s.fresh_openUp faults
  | load nodes edges => exact s.fresh_load faults nodes edges
  | query words params => exact s.fresh_query faults words params
  | stats => rfl
  | reset => exact fresh_reset h faults
  | close => exact fresh_closeHandles h faults

/-! ## Resetting -/

/-- Closing writes the medium and the connection at most, and whatever fails, the store is not ready
afterwards. -/
theorem exists_closeHandles_eq (s : Store) (faults : Faults) :
    ∃ m c, (s.closeHandles faults).1 = { s with medium := m, connection := c, ready := false } := by
  unfold closeHandles
  simp only
  split
  · exact ⟨s.medium, s.connection, rfl⟩
  · split
    · exact ⟨s.medium, s.connection, rfl⟩
    · split
      · exact ⟨s.medium, _, rfl⟩
      · exact ⟨_, none, rfl⟩

theorem ready_closeHandles (s : Store) (faults : Faults) :
    (s.closeHandles faults).1.ready = false := by
  obtain ⟨m, c, heq⟩ := s.exists_closeHandles_eq faults
  rw [heq]

theorem connection_of_closeHandles {s s' : Store} {faults : Faults}
    (h : s.closeHandles faults = (s', .ok ())) : s'.connection = none := by
  unfold closeHandles at h
  simp only at h
  split at h
  · next hnone =>
    cases h
    exact hnone
  · split at h
    · cases h
    · split at h
      · cases h
      · cases h
        rfl

/-- **A reset that has taken the store** leaves it not ready, and if it succeeds, without a
connection. -/
theorem reset_taken {s : Store} (h : s.medium = .memory) {faults : Faults}
    (hfaults : faults .acquire = false) :
    (s.reset faults).1.ready = false ∧
      ((s.reset faults).2 = .ok () → (s.reset faults).1.connection = none) := by
  have hready := s.ready_closeHandles faults
  have hfresh := fresh_closeHandles h faults
  unfold reset
  rw [hfaults, if_neg Bool.false_ne_true]
  cases heq : s.closeHandles faults with
  | mk s' outcome =>
      rw [heq] at hready hfresh
      cases outcome with
      | error e => exact ⟨hready, fun hok => by cases hok⟩
      | ok u =>
          have hmedium : s'.medium = .memory := (congrArg medium hfresh).trans h
          simp only [hmedium]
          exact ⟨hready, fun _ => connection_of_closeHandles heq⟩

/-- A store in memory whose tables are separated by commas. -/
structure IsPlain (s : Store) : Prop where
  medium_eq : s.medium = .memory
  delimiter_eq : s.delimiter = [',']

namespace IsPlain

variable {s : Store}

theorem of_fresh_eq {s' : Store} (hfresh : s'.fresh = s.fresh) (h : s.IsPlain) : s'.IsPlain where
  medium_eq := (congrArg medium hfresh).trans h.medium_eq
  delimiter_eq := (congrArg delimiter hfresh).trans h.delimiter_eq

theorem performAll (h : s.IsPlain) (ops : List (Operation × Faults)) :
    (s.performAll ops).IsPlain := by
  induction ops generalizing s with
  | nil => exact h
  | cons op ops ih => exact ih (h.of_fresh_eq (fresh_perform h.medium_eq op.2 op.1))

/-- A reset that nothing gets in the way of leaves a store without a connection. -/
theorem reset_onlyWriting (h : s.IsPlain) {faults : Faults} (hfaults : faults.OnlyWriting) :
    ∃ s', s.reset faults = (s', .ok ()) ∧ s'.IsPlain ∧ s'.connection = none := by
  have hacquire : faults .acquire = false := hfaults _ (by simp)
  have hok : (s.reset faults).2 = .ok () := by
    have hfresh := fresh_closeHandles h.medium_eq faults
    have hclosed : (s.closeHandles faults).2 = .ok () := by
      have hconnection : faults .closeConnection = false := hfaults _ (by simp)
      have hdatabase : faults .closeDatabase = false := hfaults _ (by simp)
      unfold closeHandles
      simp only [hconnection, hdatabase]
      split <;> rfl
    cases heq : s.closeHandles faults with
    | mk s' outcome =>
        rw [heq] at hclosed hfresh
        obtain rfl : outcome = .ok () := hclosed
        have hmedium : s'.medium = .memory := (congrArg medium hfresh).trans h.medium_eq
        simp [reset, hacquire, heq, hmedium]
  refine ⟨(s.reset faults).1, Prod.ext rfl hok, ?_, ?_⟩
  · exact h.of_fresh_eq (fresh_reset h.medium_eq faults)
  · exact (reset_taken h.medium_eq hacquire).2 hok

end IsPlain

end Store

end CodeAtlas
