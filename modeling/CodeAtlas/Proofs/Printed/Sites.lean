import CodeAtlas.Proofs.Pattern.Words
import CodeAtlas.Proofs.Text.Place

set_option autoImplicit false

/-! # Items printed one after another

A printed text is a list of items, one printed after the other. The sites of the list say where each of
them stands and on which line (`Site.ofList`). An item stands where its site says (`Site.stands_of_mem`),
the sites come in text order and do not overlap (`Site.pairwise_ofList`), and what a pattern finds in
each item is what it finds in the whole list (`Pattern.Finds.flatMap`).
-/

namespace CodeAtlas

/-- An item in a text, with the position it is printed at and the line of that position. -/
structure Site (α : Type) where
  item : α
  start : Nat
  line : Nat

namespace Site

variable {α : Type}

/-- The items that are printed one after another from a position and a line on. -/
def ofList (print : α → Text) : Nat → Nat → List α → List (Site α)
  | _, _, [] => []
  | i, line, a :: as =>
    ⟨a, i, line⟩ :: ofList print (i + (print a).length) (line + (print a).count '\n') as

/-- The site of an item behind some spaces that are printed with it. -/
def behind (n : Nat) (x : Site α) : Site α := { x with start := x.start + n }

variable {print : α → Text} {i line : Nat} {as : List α} {x : Site α}

theorem exists_of_mem (h : x ∈ ofList print i line as) : ∃ as₁ as₂, as = as₁ ++ x.item :: as₂ ∧
    x.start = i + (as₁.flatMap print).length ∧ x.line = line + (as₁.flatMap print).count '\n' := by
  induction as generalizing i line with
  | nil => simp [ofList] at h
  | cons a as ih =>
      rcases List.mem_cons.mp h with rfl | h
      · exact ⟨[], as, rfl, rfl, rfl⟩
      · obtain ⟨as₁, as₂, rfl, hstart, hline⟩ := ih h
        refine ⟨a :: as₁, as₂, rfl, ?_, ?_⟩
        · rw [hstart, List.flatMap_cons, List.length_append]
          omega
        · rw [hline, List.flatMap_cons, List.count_append]
          omega

theorem bounds_of_mem (h : x ∈ ofList print i line as) :
    i ≤ x.start ∧ x.start + (print x.item).length ≤ i + (as.flatMap print).length := by
  obtain ⟨as₁, as₂, rfl, hstart, -⟩ := exists_of_mem h
  rw [List.flatMap_append, List.flatMap_cons, List.length_append, List.length_append]
  omega

theorem stands_of_mem {t : Text} (ht : Text.Stands t (as.flatMap print) i line)
    (h : x ∈ ofList print i line as) : Text.Stands t (print x.item) x.start x.line := by
  obtain ⟨as₁, as₂, rfl, hstart, hline⟩ := exists_of_mem h
  rw [List.flatMap_append, List.flatMap_cons] at ht
  rw [hstart, hline]
  exact ht.within

theorem pairwise_ofList (print : α → Text) (i line : Nat) (as : List α) :
    (ofList print i line as).Pairwise fun x y => x.start + (print x.item).length ≤ y.start := by
  induction as generalizing i line with
  | nil => exact .nil
  | cons a as ih =>
      exact List.pairwise_cons.mpr ⟨fun y hy => (bounds_of_mem hy).1, ih _ _⟩

theorem map_item_ofList (print : α → Text) (i line : Nat) (as : List α) :
    (ofList print i line as).map (·.item) = as := by
  induction as generalizing i line with
  | nil => rfl
  | cons a as ih => rw [ofList, List.map_cons, ih]

end Site

/-- **What is found in one item after another** is found in the list. What the pattern asks for in front
of an item must hold behind every other one. -/
theorem Pattern.Finds.flatMap {α β : Type} {p : Pattern} {R : β → Match → Prop} {print : α → Text}
    {l : Site α → List β} {P : Text → Prop} {as : List α}
    (hP : ∀ a ∈ as, ∀ u, P (u ++ print a))
    (h : ∀ a ∈ as, ∀ (line : Nat) (u v : Text), P u →
      p.Finds R u (print a) v (l ⟨a, u.length, line⟩))
    (line : Nat) {u : Text} (hu : P u) (v : Text) :
    p.Finds R u (as.flatMap print) v ((Site.ofList print u.length line as).flatMap l) := by
  induction as generalizing u line with
  | nil => exact ⟨[], by simp, .nil⟩
  | cons a as ih =>
      -- The rest of the list stands behind the first item, on the line that item's breaks lead to.
      have hrest := ih (fun b hb => hP b (List.mem_cons_of_mem a hb))
        (fun b hb => h b (List.mem_cons_of_mem a hb)) (line + (print a).count '\n')
        (hP a List.mem_cons_self u)
      rw [List.length_append] at hrest
      exact (h a List.mem_cons_self line u _ hu).append hrest

end CodeAtlas
