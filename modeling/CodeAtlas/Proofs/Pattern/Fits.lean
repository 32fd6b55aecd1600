import CodeAtlas.Pattern.Search
import Mathlib.Tactic

set_option autoImplicit false

/-! # What a match tells about the text

`Pattern.run` finds the first match in a fixed order and hands on to a continuation. Most facts about
an extraction need none of that order: they need to know what stands at a match. `Fits p s t` says, as
a derivation, that the pattern `p` may lead from state `s` to state `t`; whatever `run` finds, it finds
along such a derivation (`fits_of_run`).

Three things are read off a derivation by looking at the pattern alone: the text that was taken
(`Fits.reads`), the characters that may occur in it (`Pattern.mayTake`), and which part of the pattern
a remembered group was taken by (`Fits.group_mem`). The matches of a search stand in the text that is
searched (`text_eq_of_mem_scan`) and come in text order (`pairwise_findAll`).
-/

namespace CodeAtlas

/-! ## Cursors -/

namespace Cursor

/-- Reading the text `w` leads from one cursor to the other. -/
def Reads (a : Cursor) (w : Text) (b : Cursor) : Prop :=
  a.rest = w ++ b.rest ∧ b.before = w.reverse ++ a.before

theorem Reads.refl (a : Cursor) : a.Reads [] a := ⟨rfl, rfl⟩

theorem Reads.trans {a b c : Cursor} {w v : Text} (hab : a.Reads w b) (hbc : b.Reads v c) :
    a.Reads (w ++ v) c := by
  refine ⟨?_, ?_⟩
  · rw [hab.1, hbc.1, List.append_assoc]
  · rw [hbc.2, hab.2, List.reverse_append, List.append_assoc]

theorem Reads.pos_eq {a b : Cursor} {w : Text} (h : a.Reads w b) : b.pos = a.pos + w.length := by
  unfold pos
  rw [h.2, List.length_append, List.length_reverse, Nat.add_comm]

theorem Reads.between_eq {a b : Cursor} {w : Text} (h : a.Reads w b) : a.between b = w := by
  unfold between
  rw [h.pos_eq, Nat.add_sub_cancel_left, h.1, List.take_left]

/-- Both cursors stand in the same text. -/
theorem Reads.text_eq {a b : Cursor} {w : Text} (h : a.Reads w b) :
    b.before.reverse ++ b.rest = a.before.reverse ++ a.rest := by
  rw [h.1, h.2, List.reverse_append, List.reverse_reverse, List.append_assoc]

end Cursor

namespace Pattern

/-! ## Derivations -/

/-- A pattern may lead from one state of a match to another. -/
inductive Fits : Pattern → MatchState → MatchState → Prop where
  | empty (s : MatchState) : Fits .empty s s
  | one {p : Char → Bool} {c : Char} {before rest : Text} {groups : List (Nat × Cursor × Cursor)}
      (hc : p c = true) : Fits (.one p) ⟨⟨before, c :: rest⟩, groups⟩ ⟨⟨c :: before, rest⟩, groups⟩
  | many {p : Char → Bool} {w before rest : Text} {groups : List (Nat × Cursor × Cursor)}
      (hw : ∀ c ∈ w, p c = true) :
      Fits (.many p) ⟨⟨before, w ++ rest⟩, groups⟩ ⟨⟨w.reverse ++ before, rest⟩, groups⟩
  | few {p : Char → Bool} {w before rest : Text} {groups : List (Nat × Cursor × Cursor)}
      (hw : ∀ c ∈ w, p c = true) :
      Fits (.few p) ⟨⟨before, w ++ rest⟩, groups⟩ ⟨⟨w.reverse ++ before, rest⟩, groups⟩
  | seq {a b : Pattern} {s t u : MatchState} (ha : Fits a s t) (hb : Fits b t u) :
      Fits (.seq a b) s u
  | altLeft {a b : Pattern} {s t : MatchState} (ha : Fits a s t) : Fits (.alt a b) s t
  | altRight {a b : Pattern} {s t : MatchState} (hb : Fits b s t) : Fits (.alt a b) s t
  | starDone {a : Pattern} (s : MatchState) : Fits (.star a) s s
  | starMore {a : Pattern} {s t u : MatchState} (ha : Fits a s t) (has : Fits (.star a) t u) :
      Fits (.star a) s u
  | group {n : Nat} {a : Pattern} {s t : MatchState} (ha : Fits a s t) :
      Fits (.group n a) s { t with groups := (n, s.cursor, t.cursor) :: t.groups }
  | boundary {s : MatchState} (h : atBoundary s.cursor = true) : Fits .boundary s s
  | after {p : Char → Bool} {s : MatchState} (h : s.cursor.before.head?.any p = true) :
      Fits (.after p) s s
  | notAfter {p : Char → Bool} {s : MatchState} (h : s.cursor.before.head?.any p = false) :
      Fits (.notAfter p) s s
  | ahead {a : Pattern} {s t : MatchState} (ha : Fits a s t) : Fits (.ahead a) s s
  | finish {s : MatchState} (h : atFinish s.cursor = true) : Fits .finish s s

/-! ## Stretches of a class

Both ways of taking a stretch try the same stops, one from the far end and one from the near end. -/

section Stops

variable {α : Type} {p : Char → Bool}

/-- The cursors behind stretches of a class, the shortest stretch first. -/
def stops (p : Char → Bool) : Text → Text → List Cursor
  | before, [] => [⟨before, []⟩]
  | before, c :: rest => ⟨before, c :: rest⟩ :: if p c then stops p (c :: before) rest else []

theorem takeFew_eq_findSome? (k : Cursor → Option α) (before rest : Text) :
    takeFew p k before rest = (stops p before rest).findSome? k := by
  induction rest generalizing before with
  | nil => rw [takeFew, stops, List.findSome?_singleton]
  | cons c rest ih =>
      rw [takeFew, stops, List.findSome?_cons, ih]
      cases k ⟨before, c :: rest⟩ <;> split <;> rfl

theorem takeMany_eq_findSome? (k : Cursor → Option α) (before rest : Text) :
    takeMany p k before rest = (stops p before rest).reverse.findSome? k := by
  induction rest generalizing before with
  | nil => rw [takeMany, stops, List.reverse_singleton, List.findSome?_singleton]
  | cons c rest ih =>
      rw [takeMany, stops, List.reverse_cons, List.findSome?_append, List.findSome?_singleton, ih]
      split
      · rfl
      · rfl

theorem exists_of_mem_stops {before rest : Text} {s : Cursor} (h : s ∈ stops p before rest) :
    ∃ w r, rest = w ++ r ∧ (∀ c ∈ w, p c = true) ∧ s = ⟨w.reverse ++ before, r⟩ := by
  induction rest generalizing before with
  | nil => exact ⟨[], [], rfl, by simp, List.mem_singleton.mp h⟩
  | cons c rest ih =>
      rw [stops, List.mem_cons] at h
      rcases h with rfl | h
      · exact ⟨[], c :: rest, rfl, by simp, rfl⟩
      · split at h
        · next hc =>
          obtain ⟨w, r, rfl, hw, rfl⟩ := ih h
          exact ⟨c :: w, r, rfl, by simpa [hc] using hw, by simp⟩
        · cases h

end Stops

theorem takeStar_eq_some {α : Type} {a : Pattern} {k : MatchState → Option α} {limit : Nat}
    {s : MatchState} {x : α}
    (ha : ∀ (k : MatchState → Option α) (s : MatchState), run a k s = some x →
      ∃ t, Fits a s t ∧ k t = some x)
    (h : takeStar (run a) k limit s = some x) : ∃ t, Fits (.star a) s t ∧ k t = some x := by
  induction limit generalizing s with
  | zero => exact ⟨s, .starDone s, h⟩
  | succ limit ih =>
      rw [takeStar, Option.or_eq_some_iff] at h
      rcases h with h | ⟨-, h⟩
      · obtain ⟨t, hst, hrun⟩ := ha _ s h
        obtain ⟨u, htu, hk⟩ := ih hrun
        exact ⟨u, .starMore hst htu, hk⟩
      · exact ⟨s, .starDone s, h⟩

/-- **What `run` finds, it finds along a derivation.** -/
theorem fits_of_run {α : Type} (p : Pattern) {k : MatchState → Option α} {s : MatchState} {x : α}
    (h : run p k s = some x) : ∃ t, Fits p s t ∧ k t = some x := by
  induction p generalizing α s with
  | empty => exact ⟨s, .empty s, h⟩
  | one p =>
      obtain ⟨⟨before, rest⟩, groups⟩ := s
      cases rest with
      | nil => simp [run] at h
      | cons c rest =>
          simp only [run, Option.ite_none_right_eq_some] at h
          exact ⟨_, .one h.1, h.2⟩
  | many p =>
      obtain ⟨⟨before, rest⟩, groups⟩ := s
      rw [run, takeMany_eq_findSome?] at h
      obtain ⟨t, ht, hk⟩ := List.exists_of_findSome?_eq_some h
      obtain ⟨w, r, rfl, hw, rfl⟩ := exists_of_mem_stops (List.mem_reverse.mp ht)
      exact ⟨_, .many hw, hk⟩
  | few p =>
      obtain ⟨⟨before, rest⟩, groups⟩ := s
      rw [run, takeFew_eq_findSome?] at h
      obtain ⟨t, ht, hk⟩ := List.exists_of_findSome?_eq_some h
      obtain ⟨w, r, rfl, hw, rfl⟩ := exists_of_mem_stops ht
      exact ⟨_, .few hw, hk⟩
  | seq a b iha ihb =>
      obtain ⟨t, hst, hrun⟩ := iha h
      obtain ⟨u, htu, hk⟩ := ihb hrun
      exact ⟨u, .seq hst htu, hk⟩
  | alt a b iha ihb =>
      rw [run, Option.or_eq_some_iff] at h
      rcases h with h | ⟨-, h⟩
      · obtain ⟨t, hst, hk⟩ := iha h
        exact ⟨t, .altLeft hst, hk⟩
      · obtain ⟨t, hst, hk⟩ := ihb h
        exact ⟨t, .altRight hst, hk⟩
  | star a iha => exact takeStar_eq_some (fun _ _ hrun => iha hrun) h
  | group n a iha =>
      obtain ⟨t, hst, hk⟩ := iha h
      exact ⟨_, .group hst, hk⟩
  | boundary =>
      simp only [run, Option.ite_none_right_eq_some] at h
      exact ⟨s, .boundary h.1, h.2⟩
  | after p =>
      simp only [run, Option.ite_none_right_eq_some] at h
      exact ⟨s, .after h.1, h.2⟩
  | notAfter p =>
      simp only [run, Option.ite_none_left_eq_some, Bool.not_eq_true] at h
      exact ⟨s, .notAfter h.1, h.2⟩
  | ahead a iha =>
      simp only [run, Option.ite_none_right_eq_some] at h
      obtain ⟨y, hy⟩ := Option.isSome_iff_exists.mp h.1
      obtain ⟨t, hst, -⟩ := iha hy
      exact ⟨s, .ahead hst, h.2⟩
  | finish =>
      simp only [run, Option.ite_none_right_eq_some] at h
      exact ⟨s, .finish h.1, h.2⟩

/-! ## Patterns one after another -/

theorem fits_all_cons {a : Pattern} {as : List Pattern} {s u : MatchState} :
    Fits (all (a :: as)) s u ↔ ∃ t, Fits a s t ∧ Fits (all as) t u := by
  cases as with
  | nil =>
      constructor
      · intro h
        exact ⟨u, h, .empty u⟩
      · rintro ⟨t, hst, htu⟩
        cases htu
        exact hst
  | cons b bs =>
      constructor
      · intro h
        cases h with
        | seq ha hb => exact ⟨_, ha, hb⟩
      · rintro ⟨t, hst, htu⟩
        exact .seq hst htu

/-! ## Single parts -/

theorem fits_one {q : Char → Bool} {s t : MatchState} (h : (Pattern.one q).Fits s t) :
    ∃ c, q c = true ∧ s.cursor.Reads [c] t.cursor := by
  cases h with
  | one hc => exact ⟨_, hc, rfl, rfl⟩

theorem fits_many {q : Char → Bool} {s t : MatchState} (h : (Pattern.many q).Fits s t) :
    ∃ w, (∀ c ∈ w, q c = true) ∧ s.cursor.Reads w t.cursor := by
  cases h with
  | many hw => exact ⟨_, hw, rfl, rfl⟩

theorem fits_char {c : Char} {s t : MatchState} (h : (char c).Fits s t) :
    s.cursor.Reads [c] t.cursor := by
  obtain ⟨d, hd, hreads⟩ := fits_one h
  rwa [beq_iff_eq.mp hd] at hreads

theorem fits_group {n : Nat} {p : Pattern} {s t : MatchState} (h : (Pattern.group n p).Fits s t) :
    ∃ u, p.Fits s u ∧ u.cursor = t.cursor := by
  cases h with
  | group h => exact ⟨_, h, rfl⟩

theorem fits_lit {w : Text} {s t : MatchState} (h : (lit w).Fits s t) :
    s.cursor.Reads w t.cursor := by
  induction w generalizing s with
  | nil =>
      cases h
      exact Cursor.Reads.refl _
  | cons c w ih =>
      obtain ⟨u, hc, hw⟩ := fits_all_cons.mp h
      exact (fits_char hc).trans (ih hw)

/-! ## The text taken by a match -/

/-- May a match of the pattern take this character? -/
def mayTake : Pattern → Char → Bool
  | .one p, c | .many p, c | .few p, c => p c
  | .seq a b, c | .alt a b, c => a.mayTake c || b.mayTake c
  | .star a, c | .group _ a, c => a.mayTake c
  | .empty, _ | .boundary, _ | .after _, _ | .notAfter _, _ | .ahead _, _ | .finish, _ => false

/-- **A match reads a text of characters that the pattern may take.** -/
theorem Fits.reads {p : Pattern} {s t : MatchState} (h : Fits p s t) :
    ∃ w, s.cursor.Reads w t.cursor ∧ ∀ c ∈ w, p.mayTake c = true := by
  induction h with
  | empty | starDone | boundary | after | notAfter | ahead | finish =>
      exact ⟨[], Cursor.Reads.refl _, by simp⟩
  | @one p c before rest groups hc => exact ⟨[c], ⟨rfl, rfl⟩, by simpa [mayTake] using hc⟩
  | @many p w before rest groups hw => exact ⟨w, ⟨rfl, rfl⟩, hw⟩
  | @few p w before rest groups hw => exact ⟨w, ⟨rfl, rfl⟩, hw⟩
  | seq _ _ iha ihb =>
      obtain ⟨w, hw, hcw⟩ := iha
      obtain ⟨v, hv, hcv⟩ := ihb
      refine ⟨w ++ v, hw.trans hv, fun c hc => ?_⟩
      rw [mayTake, Bool.or_eq_true]
      rcases List.mem_append.mp hc with hc | hc
      · exact Or.inl (hcw c hc)
      · exact Or.inr (hcv c hc)
  | altLeft _ ih =>
      obtain ⟨w, hw, hcw⟩ := ih
      exact ⟨w, hw, fun c hc => by rw [mayTake, hcw c hc, Bool.true_or]⟩
  | altRight _ ih =>
      obtain ⟨w, hw, hcw⟩ := ih
      exact ⟨w, hw, fun c hc => by rw [mayTake, hcw c hc, Bool.or_true]⟩
  | starMore _ _ iha ihs =>
      obtain ⟨w, hw, hcw⟩ := iha
      obtain ⟨v, hv, hcv⟩ := ihs
      refine ⟨w ++ v, hw.trans hv, fun c hc => ?_⟩
      rcases List.mem_append.mp hc with hc | hc
      · exact hcw c hc
      · exact hcv c hc
  | group _ ih => exact ih

/-! ## Groups -/

/-- The parts of a pattern whose text is remembered under a number. -/
def groupBodies (n : Nat) : Pattern → List Pattern
  | .seq a b | .alt a b => a.groupBodies n ++ b.groupBodies n
  | .star a => a.groupBodies n
  | .group m a => if m = n then a :: a.groupBodies n else a.groupBodies n
  | _ => []

/-- The ends of a group were reached by one of the parts remembered under its number. -/
def Took (bodies : List Pattern) (a b : Cursor) : Prop :=
  ∃ q ∈ bodies, ∃ u v : MatchState, u.cursor = a ∧ v.cursor = b ∧ Fits q u v

theorem Took.mono {l l' : List Pattern} {a b : Cursor} (h : Took l a b) (hl : l ⊆ l') :
    Took l' a b := by
  obtain ⟨q, hq, rest⟩ := h
  exact ⟨q, hl hq, rest⟩

/-- **A group remembered by a match** was there before, or is the text of a part of the pattern that
is remembered under its number. -/
theorem Fits.group_mem {p : Pattern} {s t : MatchState} (h : Fits p s t) {n : Nat} {a b : Cursor}
    (hmem : (n, a, b) ∈ t.groups) : (n, a, b) ∈ s.groups ∨ Took (p.groupBodies n) a b := by
  induction h with
  | empty | one | many | few | starDone | boundary | after | notAfter | ahead | finish =>
      exact Or.inl hmem
  | seq _ _ iha ihb =>
      -- A later part may remember the group again; else it is there from the earlier one.
      rcases ihb hmem with hmem | hb
      · rcases iha hmem with hmem | ha
        · exact Or.inl hmem
        · exact Or.inr (ha.mono (List.subset_append_left _ _))
      · exact Or.inr (hb.mono (List.subset_append_right _ _))
  | altLeft _ ih =>
      exact (ih hmem).imp_right fun h => h.mono (List.subset_append_left _ _)
  | altRight _ ih =>
      exact (ih hmem).imp_right fun h => h.mono (List.subset_append_right _ _)
  | starMore _ _ iha ihs =>
      rcases ihs hmem with hmem | hs
      · exact iha hmem
      · exact Or.inr hs
  | @group m q u v hq ih =>
      rcases List.mem_cons.mp hmem with heq | hmem
      · -- The group that this very part remembers.
        obtain ⟨rfl, rfl, rfl⟩ := by simpa using heq
        exact Or.inr ⟨q, by simp [groupBodies], u, v, rfl, rfl, hq⟩
      · refine (ih hmem).imp_right fun h => h.mono ?_
        rw [groupBodies]
        split
        · exact List.subset_cons_self _ _
        · exact List.Subset.refl _

/-! ## Matches found in a text -/

/-- The match was made by the pattern. -/
def Makes (p : Pattern) (m : Match) : Prop :=
  ∃ t : MatchState, Fits p ⟨m.first, []⟩ t ∧ m.last = t.cursor ∧ m.groups = t.groups

theorem makes_of_matchAt? {p : Pattern} {c : Cursor} {m : Match} (h : p.matchAt? c = some m) :
    m.first = c ∧ p.Makes m := by
  obtain ⟨s, hs, rfl⟩ := Option.map_eq_some_iff.mp h
  obtain ⟨t, ht, hts⟩ := fits_of_run p hs
  obtain rfl := Option.some_inj.mp hts
  exact ⟨rfl, t, ht, rfl, rfl⟩

theorem makes_of_mem_scan {p : Pattern} {skip : Nat} {before rest : Text} {m : Match}
    (h : m ∈ p.scan skip before rest) : p.Makes m := by
  fun_induction Pattern.scan p skip before rest with
  | case1 => simp at h
  | case2 before skip c rest ih => exact ih h
  | case3 before c rest found hfound ih =>
      rcases List.mem_cons.mp h with rfl | h
      · exact (makes_of_matchAt? hfound).2
      · exact ih h
  | case4 before c rest _ ih => exact ih h

theorem makes_of_mem_findAll {p : Pattern} {t : Text} {m : Match} (h : m ∈ p.findAll t) :
    p.Makes m :=
  makes_of_mem_scan h

theorem makes_of_mem_findAllIn {p : Pattern} {t : Text} {index limit : Nat} {m : Match}
    (h : m ∈ p.findAllIn t index limit) : p.Makes m :=
  makes_of_mem_scan h

/-- A group that took part has the text of a part remembered under its number. -/
theorem Makes.group_of_span {p : Pattern} {m : Match} (h : p.Makes m) {n : Nat} {a b : Cursor}
    (hspan : m.span? n = some (a, b)) : ∃ q ∈ p.groupBodies n, ∃ u v : MatchState,
      Fits q u v ∧ u.cursor.Reads (m.group n) v.cursor := by
  obtain ⟨t, ht, -, hgroups⟩ := h
  obtain ⟨l₁, l₂, hl, -⟩ := List.lookup_eq_some_iff.mp hspan
  have hmem : (n, a, b) ∈ t.groups := by rw [← hgroups, hl]; simp
  have hgroup : m.group n = a.between b := by rw [Match.group, hspan]
  rcases ht.group_mem hmem with hnil | ⟨q, hq, u, v, rfl, rfl, hfits⟩
  · simp at hnil
  · obtain ⟨w, hw, -⟩ := hfits.reads
    refine ⟨q, hq, u, v, hfits, ?_⟩
    rwa [hgroup, hw.between_eq]

/-- The text of a group is empty or the text of a part remembered under its number. -/
theorem Makes.group_eq {p : Pattern} {m : Match} (h : p.Makes m) (n : Nat) :
    m.group n = [] ∨ ∃ q ∈ p.groupBodies n, ∃ u v : MatchState,
      Fits q u v ∧ u.cursor.Reads (m.group n) v.cursor := by
  cases hspan : m.span? n with
  | none => exact Or.inl (by rw [Match.group, hspan])
  | some ends => exact Or.inr (h.group_of_span hspan)

/-- Does every match remember a group under the number? -/
def remembers (n : Nat) : Pattern → Bool
  | .seq a b => a.remembers n || b.remembers n
  | .alt a b => a.remembers n && b.remembers n
  | .group m a => m == n || a.remembers n
  | _ => false

/-- Nothing that is remembered is forgotten. -/
theorem Fits.groups_subset {p : Pattern} {s t : MatchState} (h : Fits p s t) :
    s.groups ⊆ t.groups := by
  induction h with
  | empty | one | many | few | starDone | boundary | after | notAfter | ahead | finish =>
      exact List.Subset.refl _
  | seq _ _ iha ihb => exact List.Subset.trans iha ihb
  | altLeft _ ih | altRight _ ih => exact ih
  | starMore _ _ iha ihs => exact List.Subset.trans iha ihs
  | group _ ih => exact List.subset_cons_of_subset _ ih

theorem Fits.exists_group {p : Pattern} {s t : MatchState} (h : Fits p s t) {n : Nat}
    (hp : p.remembers n = true) : ∃ a b, (n, a, b) ∈ t.groups := by
  induction h with
  | empty | one | many | few | starDone | starMore | boundary | after | notAfter | ahead | finish =>
      simp [remembers] at hp
  | seq _ hb iha ihb =>
      rw [remembers, Bool.or_eq_true] at hp
      rcases hp with hp | hp
      · obtain ⟨a, b, hmem⟩ := iha hp
        exact ⟨a, b, hb.groups_subset hmem⟩
      · exact ihb hp
  | altLeft _ ih =>
      rw [remembers, Bool.and_eq_true] at hp
      exact ih hp.1
  | altRight _ ih =>
      rw [remembers, Bool.and_eq_true] at hp
      exact ih hp.2
  | group _ ih =>
      rw [remembers, Bool.or_eq_true, beq_iff_eq] at hp
      rcases hp with rfl | hp
      · exact ⟨_, _, List.mem_cons_self⟩
      · obtain ⟨a, b, hmem⟩ := ih hp
        exact ⟨a, b, List.mem_cons_of_mem _ hmem⟩

/-- **A group that every match remembers** has the text of a part remembered under its number. -/
theorem Makes.took_group {p : Pattern} {m : Match} (h : p.Makes m) {n : Nat}
    (hp : p.remembers n = true) : ∃ q ∈ p.groupBodies n, ∃ u v : MatchState,
      Fits q u v ∧ u.cursor.Reads (m.group n) v.cursor := by
  obtain ⟨t, ht, -, hgroups⟩ := id h
  obtain ⟨a, b, hmem⟩ := ht.exists_group hp
  cases hspan : m.span? n with
  | none =>
      rw [← hgroups] at hmem
      exact absurd (List.lookup_eq_none_iff.mp hspan _ hmem) (by simp)
  | some ends => exact h.group_of_span hspan

/-- The characters of a group are those that the parts remembered under its number may take. -/
theorem Makes.mayTake_of_mem_group {p : Pattern} {m : Match} (h : p.Makes m) {n : Nat} {c : Char}
    (hc : c ∈ m.group n) : ∃ q ∈ p.groupBodies n, q.mayTake c = true := by
  rcases h.group_eq n with hnil | ⟨q, hq, u, v, hfits, hreads⟩
  · rw [hnil] at hc
    simp at hc
  · obtain ⟨w, hw, hcw⟩ := hfits.reads
    have hgroup : m.group n = w := by rw [← hreads.between_eq, hw.between_eq]
    exact ⟨q, hq, hcw c (hgroup ▸ hc)⟩

/-! ## Where a match stands -/

theorem text_eq_of_mem_scan {p : Pattern} {skip : Nat} {before rest : Text} {m : Match}
    (h : m ∈ p.scan skip before rest) :
    m.first.before.reverse ++ m.first.rest = before.reverse ++ rest := by
  fun_induction Pattern.scan p skip before rest with
  | case1 => simp at h
  | case2 before skip c rest ih => simpa using ih h
  | case3 before c rest found hfound ih =>
      rcases List.mem_cons.mp h with rfl | h
      · rw [(makes_of_matchAt? hfound).1]
      · simpa using ih h
  | case4 before c rest _ ih => simpa using ih h

theorem before_of_fits_all {l : List Pattern} {c : Char} (hl : l.getLast? = some (char c))
    {s t : MatchState} (h : (all l).Fits s t) : ∃ before, t.cursor.before = c :: before := by
  induction l generalizing s with
  | nil => simp at hl
  | cons a l ih =>
      obtain ⟨u, ha, hrest⟩ := fits_all_cons.mp h
      cases l with
      | nil =>
          obtain rfl : a = char c := by simpa using hl
          cases hrest
          exact ⟨s.cursor.before, (fits_char ha).2⟩
      | cons b l => exact ih (by simpa using hl) hrest

/-- The last character of a match, for a pattern that ends in a given one. -/
theorem getElem?_of_mem_findAll {l : List Pattern} {c : Char} (hl : l.getLast? = some (char c))
    {t : Text} {m : Match} (h : m ∈ (all l).findAll t) : t[m.stop - 1]? = some c := by
  obtain ⟨u, hfits, hlast, -⟩ := makes_of_mem_findAll h
  obtain ⟨w, hw, -⟩ := hfits.reads
  obtain ⟨before, hbefore⟩ := before_of_fits_all hl hfits
  have htext : u.cursor.before.reverse ++ u.cursor.rest = t := by
    rw [hw.text_eq]
    exact text_eq_of_mem_scan h
  show t[m.last.before.length - 1]? = some c
  rw [hlast, ← htext, hbefore]
  simp

theorem Makes.start_le_stop {p : Pattern} {m : Match} (h : p.Makes m) : m.start ≤ m.stop := by
  obtain ⟨t, hfits, hlast, -⟩ := h
  obtain ⟨w, hw, -⟩ := hfits.reads
  show m.first.pos ≤ m.last.pos
  rw [hlast, hw.pos_eq]
  exact Nat.le_add_right _ _

/-- A match of a pattern that ends in a character takes at least that one. -/
theorem Makes.start_lt_stop {l : List Pattern} {c : Char} (hl : l.getLast? = some (char c))
    {m : Match} (h : (all l).Makes m) : m.start < m.stop := by
  obtain ⟨t, hfits, hlast, -⟩ := h
  show m.first.pos < m.last.pos
  rw [hlast]
  generalize hs : (⟨m.first, []⟩ : MatchState) = s at hfits
  have hpos : m.first.pos = s.cursor.pos := by rw [← hs]
  rw [hpos]
  clear hs hpos
  induction l generalizing s with
  | nil => simp at hl
  | cons a l ih =>
      obtain ⟨u, ha, hrest⟩ := fits_all_cons.mp hfits
      cases l with
      | nil =>
          obtain rfl : a = char c := by simpa using hl
          cases hrest
          rw [(fits_char ha).pos_eq]
          exact Nat.lt_succ_self _
      | cons b l =>
          obtain ⟨w, hw, -⟩ := ha.reads
          have := ih (by simpa using hl) u hrest
          rw [hw.pos_eq] at this
          omega

/-! ## The order of matches -/

theorem le_start_of_mem_scan {p : Pattern} {skip : Nat} {before rest : Text} {m : Match}
    (h : m ∈ p.scan skip before rest) : before.length + skip ≤ m.start := by
  fun_induction Pattern.scan p skip before rest with
  | case1 => simp at h
  | case2 before skip c rest ih =>
      have := ih h
      rw [List.length_cons] at this
      omega
  | case3 before c rest found hfound ih =>
      rcases List.mem_cons.mp h with rfl | h
      · rw [Match.start, (makes_of_matchAt? hfound).1]
        exact Nat.le_refl _
      · have := ih h
        rw [List.length_cons] at this
        omega
  | case4 before c rest _ ih =>
      have := ih h
      rw [List.length_cons] at this
      omega

theorem pairwise_scan (p : Pattern) (skip : Nat) (before rest : Text) :
    (p.scan skip before rest).Pairwise fun m m' => m.start < m'.start := by
  fun_induction Pattern.scan p skip before rest with
  | case1 => exact List.Pairwise.nil
  | case2 before skip c rest ih => exact ih
  | case3 before c rest found hfound ih =>
      refine List.pairwise_cons.mpr ⟨fun m hm => ?_, ih⟩
      -- What comes after was found from the next character on.
      have hstart : found.start = before.length := by
        rw [Match.start, (makes_of_matchAt? hfound).1]
        rfl
      have := le_start_of_mem_scan hm
      rw [List.length_cons] at this
      omega
  | case4 before c rest _ ih => exact ih

/-- **Matches are found in text order.** -/
theorem pairwise_findAll (p : Pattern) (t : Text) :
    (p.findAll t).Pairwise fun m m' => m.start < m'.start :=
  pairwise_scan p 0 [] t

end Pattern

end CodeAtlas
