import CodeAtlas.Text.Basic
import Mathlib.Data.List.Forall2
import Mathlib.Data.List.Sort

set_option autoImplicit false

/-! # Sorting

`sortBy` is insertion sort by a test that can be run (`sortBy_eq_insertionSort`), so what is known of
insertion sort goes for it. Two consequences are drawn here: elements that compare equal keep their order
(`filter_sortBy`), and lists that compare alike are sorted alike (`forall₂_sortBy`).
-/

namespace CodeAtlas

section

variable {α β : Type} {le : α → α → Bool} {le' : β → β → Bool}

theorem insertSorted_eq_orderedInsert (le : α → α → Bool) (a : α) (l : List α) :
    insertSorted le a l = l.orderedInsert (le · ·) a := by
  induction l with
  | nil => rfl
  | cons b l ih => rw [insertSorted, ih, List.orderedInsert_cons]

theorem sortBy_eq_insertionSort (le : α → α → Bool) (l : List α) :
    sortBy le l = l.insertionSort (le · ·) := by
  induction l with
  | nil => rfl
  | cons a l ih =>
      rw [List.insertionSort_cons, ← ih, ← insertSorted_eq_orderedInsert]
      rfl

theorem sortBy_perm (le : α → α → Bool) (l : List α) : (sortBy le l).Perm l := by
  rw [sortBy_eq_insertionSort]
  exact List.perm_insertionSort _ l

theorem pairwise_sortBy (le : α → α → Bool) (htrans : ∀ a b c, le a b → le b c → le a c)
    (htotal : ∀ a b, le a b ∨ le b a) (l : List α) : (sortBy le l).Pairwise (le · ·) := by
  have : Std.Total (fun a b => le a b = true) := ⟨htotal⟩
  have : IsTrans α (fun a b => le a b = true) := ⟨htrans⟩
  rw [sortBy_eq_insertionSort]
  exact List.pairwise_insertionSort _ l

/-- **Sorting is stable**: elements of which each may stand before each other keep their order. -/
theorem filter_sortBy {q : α → Bool} (hq : ∀ a b, q a = true → q b = true → le a b = true)
    (l : List α) : (sortBy le l).filter q = l.filter q := by
  have hpairwise : (l.filter q).Pairwise (le · ·) := List.pairwise_of_forall_mem_list fun a ha b hb =>
    hq a b (List.mem_filter.mp ha).2 (List.mem_filter.mp hb).2
  -- What is selected stands in this order among what is sorted, and nothing else is selected there.
  have hsublist : (l.filter q).Sublist (sortBy le l) := by
    rw [sortBy_eq_insertionSort]
    exact List.sublist_insertionSort hpairwise List.filter_sublist
  have hselected := hsublist.filter q
  rw [List.filter_filter] at hselected
  simp only [Bool.and_self] at hselected
  exact (hselected.eq_of_length ((sortBy_perm le l).filter q).length_eq.symm).symm

theorem map_sortBy {f : α → β} {l : List α} (h : ∀ a ∈ l, ∀ b ∈ l, le' (f a) (f b) = le a b) :
    (sortBy le l).map f = sortBy le' (l.map f) := by
  rw [sortBy_eq_insertionSort, sortBy_eq_insertionSort]
  exact List.map_insertionSort _ _ f l fun a ha b hb => by rw [h a ha b hb]

/-- **Lists that compare alike** have the same elements at the same place when they are sorted. -/
theorem forall₂_sortBy {R : α → β → Prop} (hle : ∀ a b a' b', R a b → R a' b' → le' b b' = le a a')
    {as : List α} {bs : List β} (h : List.Forall₂ R as bs) :
    List.Forall₂ R (sortBy le as) (sortBy le' bs) ∧
      ((sortBy le as).zip (sortBy le' bs)).Perm (as.zip bs) := by
  obtain ⟨hlength, hrel⟩ := List.forall₂_iff_zip.mp h
  have hmem : ∀ p ∈ as.zip bs, R p.1 p.2 := fun p hp => hrel hp
  -- Both are sorted as their pairs are.
  have hfst : (sortBy (fun p q => le p.1 q.1) (as.zip bs)).map Prod.fst = sortBy le as := by
    rw [map_sortBy (fun _ _ _ _ => rfl), List.map_fst_zip hlength.le]
  have hsnd : (sortBy (fun p q => le p.1 q.1) (as.zip bs)).map Prod.snd = sortBy le' bs := by
    rw [map_sortBy (fun p hp q hq => hle _ _ _ _ (hmem p hp) (hmem q hq)),
      List.map_snd_zip hlength.ge]
  have hzip : (sortBy le as).zip (sortBy le' bs) = sortBy (fun p q => le p.1 q.1) (as.zip bs) := by
    rw [← hfst, ← hsnd, List.zip_map']
    exact List.map_id _
  have hperm := sortBy_perm (fun p q => le p.1 q.1) (as.zip bs)
  rw [hzip]
  refine ⟨List.forall₂_iff_zip.mpr ⟨?_, fun hp => ?_⟩, hperm⟩
  · rw [(sortBy_perm le as).length_eq, (sortBy_perm le' bs).length_eq, hlength]
  · rw [hzip] at hp
    exact hmem _ (hperm.mem_iff.mp hp)

end

end CodeAtlas
