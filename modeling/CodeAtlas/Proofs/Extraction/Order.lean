import CodeAtlas.Proofs.Extraction.Distinct

set_option autoImplicit false

/-! # Text order

Regions that come one after another: at most one of them holds a position, so that the innermost is
found at once (`Region.innermost_of_pairwise`). Definitions that start at different positions: there is
one way to sort them (`sortBy_start_eq`). Matches that stand for items of a list in order: what is read
off the matches is read off the items (`filterMap_of_forall₂`).
-/

namespace CodeAtlas

theorem eq_or_rel_of_pairwise {α : Type} {R : α → α → Prop} {l : List α} (h : l.Pairwise R) {a b : α}
    (ha : a ∈ l) (hb : b ∈ l) : a = b ∨ R a b ∨ R b a := by
  refine List.Pairwise.forall_of_forall_of_flip (R := fun a b => a = b ∨ R a b ∨ R b a)
    (fun _ _ => Or.inl rfl) (h.imp ?_) (h.imp ?_) ha hb
  · exact fun hab => Or.inr (Or.inl hab)
  · exact fun hab => Or.inr (Or.inr hab)

/-! ## Regions that do not overlap -/

theorem Region.contains_iff {r : Region} {index : Int} :
    r.contains index = true ↔ r.first < index ∧ index ≤ r.last := by
  simp [contains]

/-- **Of regions in text order that do not overlap, one holds a position.** -/
theorem Region.innermost_of_pairwise {rs : List Region} {r : Region} {index : Int}
    (hrs : rs.Pairwise fun r r' => r.last ≤ r'.first) (hr : r ∈ rs)
    (hindex : r.contains index = true) :
    innermost (rs.filter (·.contains index)) = some r := by
  obtain ⟨rs₁, rs₂, rfl⟩ := List.append_of_mem hr
  obtain ⟨-, hright, hcross⟩ := List.pairwise_append.mp hrs
  have hbounds := contains_iff.mp hindex
  have hbefore : rs₁.filter (·.contains index) = [] := by
    refine List.filter_eq_nil_iff.mpr fun r' hr' => ?_
    have hle := hcross r' hr' r List.mem_cons_self
    rw [contains_iff]
    omega
  have hafter : rs₂.filter (·.contains index) = [] := by
    refine List.filter_eq_nil_iff.mpr fun r' hr' => ?_
    have hle := (List.pairwise_cons.mp hright).1 r' hr'
    rw [contains_iff]
    omega
  rw [List.filter_append, hbefore, List.nil_append, List.filter_cons, hindex, hafter]
  rfl

/-! ## Sorting -/

theorem pairwise_sortBy_start (l : List Definition) :
    (sortBy (fun a b => a.start ≤ b.start) l).Pairwise (·.start ≤ ·.start) := by
  have hpairwise := pairwise_sortBy (fun a b : Definition => a.start ≤ b.start)
    (fun a b c hab hbc => by simp only [decide_eq_true_eq] at hab hbc ⊢; omega)
    (fun a b => by simp only [decide_eq_true_eq]; omega) l
  simpa only [decide_eq_true_eq] using hpairwise

/-- Definitions that start at different positions are sorted in one way. -/
theorem sortBy_start_eq {l l' : List Definition} (hperm : l.Perm l')
    (hl' : l'.Pairwise fun a b => a.start < b.start) :
    sortBy (fun a b => a.start ≤ b.start) l = l' := by
  have hsorted := pairwise_sortBy_start l
  have hsame := (sortBy_perm (fun a b => a.start ≤ b.start) l).trans hperm
  refine List.Perm.eq_of_pairwise (fun a b ha hb hab hba => ?_) hsorted (hl'.imp le_of_lt) hsame
  rcases eq_or_rel_of_pairwise hl' (hsame.mem_iff.mp ha) hb with heq | hlt | hlt
  · exact heq
  · exact absurd hba (not_le_of_gt hlt)
  · exact absurd hab (not_le_of_gt hlt)

/-! ## Items and their matches -/

theorem filterMap_of_forall₂ {α β γ : Type} {R : α → β → Prop} {f : β → Option γ}
    {g : α → Option γ} {as : List α} {bs : List β} (hbs : List.Forall₂ R as bs)
    (h : ∀ a ∈ as, ∀ b, R a b → f b = g a) : bs.filterMap f = as.filterMap g := by
  induction hbs with
  | nil => rfl
  | @cons a b as bs hab _ ih =>
      have hrest := ih fun a' ha' => h a' (List.mem_cons_of_mem a ha')
      rw [List.filterMap_cons, List.filterMap_cons, h a List.mem_cons_self b hab, hrest]

/-- **A loop over the matches of items in order**: what each match takes from the items passed so far on
to one more holds of all items in the end. -/
theorem foldl_of_forall₂ {α β σ : Type} {R : α → β → Prop} {S : α → α → Prop} {P : List α → σ → Prop}
    {f : σ → β → σ} {as : List α} {bs : List β} (hbs : List.Forall₂ R as bs) (has : as.Pairwise S)
    (hstep : ∀ passed a b s, a ∈ as → passed ⊆ as → (∀ a' ∈ passed, S a' a) → R a b → P passed s →
      P (passed ++ [a]) (f s b)) {s : σ} (h : P [] s) : P as (bs.foldl f s) := by
  suffices hloop : ∀ rest bs, List.Forall₂ R rest bs → ∀ passed s, as = passed ++ rest → P passed s →
      P as (bs.foldl f s) from hloop as bs hbs [] s rfl h
  intro rest bs hbs
  induction hbs with
  | nil =>
      intro passed s hall h
      rw [List.append_nil] at hall
      exact hall ▸ h
  | @cons a b rest bs hab _ ih =>
      intro passed s hall h
      have hbefore : ∀ a' ∈ passed, S a' a := fun a' ha' =>
        (List.pairwise_append.mp (hall ▸ has)).2.2 a' ha' a List.mem_cons_self
      have hmem : a ∈ as := hall ▸ List.mem_append_right passed List.mem_cons_self
      have hsub : passed ⊆ as := hall ▸ List.subset_append_left passed (a :: rest)
      have hrest : as = (passed ++ [a]) ++ rest := by rw [hall, List.append_assoc]; rfl
      exact ih (passed ++ [a]) (f s b) hrest (hstep passed a b s hmem hsub hbefore hab h)

theorem filterMap_eq_flatMap_of_forall₂ {α β γ δ : Type} {R : β → γ → Prop} {l : α → List β}
    {f : γ → Option δ} {g : α → List δ} {as : List α} {cs : List γ}
    (hcs : List.Forall₂ R (as.flatMap l) cs)
    (h : ∀ a ∈ as, ∀ cs', List.Forall₂ R (l a) cs' → cs'.filterMap f = g a) :
    cs.filterMap f = as.flatMap g := by
  induction as generalizing cs with
  | nil =>
      cases hcs
      rfl
  | cons a as ih =>
      rw [List.flatMap_cons] at hcs
      have hfirst := (List.forall₂_take_append _ _ _ hcs.flip).flip
      have hrest := (List.forall₂_drop_append _ _ _ hcs.flip).flip
      have hih := ih hrest fun a' ha' => h a' (List.mem_cons_of_mem a ha')
      rw [List.flatMap_cons, ← h a List.mem_cons_self _ hfirst, ← hih, ← List.filterMap_append,
        List.take_append_drop]

end CodeAtlas
