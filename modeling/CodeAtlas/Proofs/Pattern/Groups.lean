import CodeAtlas.Proofs.Pattern.Choice

set_option autoImplicit false

/-! # Where a group stands

A match reads its text from left to right and remembers its groups on the way, so a group lies between
the start of the match and its stop (`Fits.group_within`), and in the text that is searched its characters
stand at its position (`Makes.shows`). A group is not empty if the part that it remembers has to take a
character (`Makes.group_ne_nil`), and of two groups that are remembered one after the other the first one
ends before the second one starts (`Makes.group_before`).
-/

namespace CodeAtlas

/-! ## Cursors of one text -/

namespace Cursor

/-- Reading some text leads from one cursor to the other. -/
def Reaches (a b : Cursor) : Prop := ∃ w, a.Reads w b

theorem Reaches.refl (a : Cursor) : a.Reaches a := ⟨[], Reads.refl a⟩

theorem Reaches.trans {a b c : Cursor} (hab : a.Reaches b) (hbc : b.Reaches c) : a.Reaches c := by
  obtain ⟨w, hw⟩ := hab
  obtain ⟨v, hv⟩ := hbc
  exact ⟨w ++ v, hw.trans hv⟩

theorem Reaches.pos_le {a b : Cursor} (h : a.Reaches b) : a.pos ≤ b.pos := by
  obtain ⟨w, hw⟩ := h
  rw [hw.pos_eq]
  exact Nat.le_add_right _ _

/-- The cursor stands in a text that may go on behind what the cursor sees. -/
def LiesIn (a : Cursor) (t : Text) : Prop := a.before.reverse ++ a.rest <+: t

theorem LiesIn.of_reaches {a b : Cursor} {t : Text} (ha : a.LiesIn t) (h : a.Reaches b) :
    b.LiesIn t := by
  obtain ⟨w, hw⟩ := h
  rwa [LiesIn, hw.text_eq]

/-- What is read from a cursor stands at its position. -/
theorem LiesIn.reads {a b : Cursor} {t w : Text} (ha : a.LiesIn t) (h : a.Reads w b) :
    w <+: t.drop a.pos := by
  obtain ⟨v, rfl⟩ := ha
  have hdrop : (a.before.reverse ++ a.rest ++ v).drop a.pos = a.rest ++ v := by
    rw [List.append_assoc, pos, ← List.length_reverse, List.drop_left]
  rw [hdrop, h.1, List.append_assoc]
  exact List.prefix_append w _

/-- A window lies in its text. -/
theorem liesIn_window (t : Text) (index limit : Nat) : (window t index limit).LiesIn t := by
  show (t.take index).reverse.reverse ++ (t.take limit).drop index <+: t
  rw [List.reverse_reverse]
  rcases Nat.le_total index limit with hle | hle
  · rw [← min_eq_left hle, ← List.take_take, min_eq_left hle, List.take_append_drop]
    exact List.take_prefix limit t
  · -- The text is cut before the window starts, and nothing is left to see.
    rw [List.drop_eq_nil_of_le ((List.length_take_le limit t).trans hle), List.append_nil]
    exact List.take_prefix index t

end Cursor

namespace Pattern

/-! ## Matches of one text -/

theorem Fits.reaches {p : Pattern} {s t : MatchState} (h : Fits p s t) :
    s.cursor.Reaches t.cursor := by
  obtain ⟨w, hw, -⟩ := h.reads
  exact ⟨w, hw⟩

theorem liesIn_of_mem_scan {p : Pattern} {skip : Nat} {before rest t : Text} {m : Match}
    (h : m ∈ p.scan skip before rest) (ht : before.reverse ++ rest <+: t) : m.first.LiesIn t := by
  rwa [Cursor.LiesIn, text_eq_of_mem_scan h]

theorem liesIn_of_mem_findAll {p : Pattern} {t : Text} {m : Match} (h : m ∈ p.findAll t) :
    m.first.LiesIn t :=
  liesIn_of_mem_scan h (List.prefix_refl t)

theorem liesIn_of_mem_findAllIn {p : Pattern} {t : Text} {index limit : Nat} {m : Match}
    (h : m ∈ p.findAllIn t index limit) : m.first.LiesIn t :=
  liesIn_of_mem_scan h (Cursor.liesIn_window t index limit)

/-! ## Characters that have to be taken -/

/-- Does every match of the pattern take a character? -/
def mustTake : Pattern → Bool
  | .one _ => true
  | .seq a b => a.mustTake || b.mustTake
  | .alt a b => a.mustTake && b.mustTake
  | .group _ a => a.mustTake
  | _ => false

theorem Fits.pos_lt {p : Pattern} {s t : MatchState} (h : Fits p s t) (hp : p.mustTake = true) :
    s.cursor.pos < t.cursor.pos := by
  induction h with
  | empty | many | few | starDone | starMore | boundary | after | notAfter | ahead | finish =>
      simp [mustTake] at hp
  | one hc => exact Nat.lt_succ_self _
  | seq ha hb iha ihb =>
      rw [mustTake, Bool.or_eq_true] at hp
      rcases hp with hp | hp
      · exact (iha hp).trans_le hb.reaches.pos_le
      · exact ha.reaches.pos_le.trans_lt (ihb hp)
  | altLeft _ ih =>
      rw [mustTake, Bool.and_eq_true] at hp
      exact ih hp.1
  | altRight _ ih =>
      rw [mustTake, Bool.and_eq_true] at hp
      exact ih hp.2
  | group _ ih => exact ih hp

/-- A group is not empty if the parts that are remembered under its number have to take something. -/
theorem Makes.group_ne_nil {p : Pattern} {m : Match} (h : p.Makes m) {n : Nat}
    (hp : p.remembers n = true) (hq : (p.groupBodies n).all mustTake = true) : m.group n ≠ [] := by
  obtain ⟨q, hmem, u, v, hfits, hreads⟩ := h.took_group hp
  have hlt := hfits.pos_lt (List.all_eq_true.mp hq q hmem)
  intro hnil
  rw [hreads.pos_eq, hnil, List.length_nil] at hlt
  omega

/-! ## Groups within a match -/

/-- **A group remembered by a match** was there before, or it lies on the way of the match. -/
theorem Fits.group_within {p : Pattern} {s t : MatchState} (h : Fits p s t) {n : Nat} {a b : Cursor}
    (hmem : (n, a, b) ∈ t.groups) :
    (n, a, b) ∈ s.groups ∨ (s.cursor.Reaches a ∧ b.Reaches t.cursor) := by
  induction h with
  | empty | one | many | few | starDone | boundary | after | notAfter | ahead | finish =>
      exact Or.inl hmem
  | seq ha hb iha ihb =>
      rcases ihb hmem with hmem | ⟨hstart, hstop⟩
      · rcases iha hmem with hmem | ⟨hstart, hstop⟩
        · exact Or.inl hmem
        · exact Or.inr ⟨hstart, hstop.trans hb.reaches⟩
      · exact Or.inr ⟨ha.reaches.trans hstart, hstop⟩
  | altLeft _ ih | altRight _ ih => exact ih hmem
  | starMore ha hs iha ihs =>
      rcases ihs hmem with hmem | ⟨hstart, hstop⟩
      · rcases iha hmem with hmem | ⟨hstart, hstop⟩
        · exact Or.inl hmem
        · exact Or.inr ⟨hstart, hstop.trans hs.reaches⟩
      · exact Or.inr ⟨ha.reaches.trans hstart, hstop⟩
  | group hq ih =>
      rcases List.mem_cons.mp hmem with heq | hmem
      · obtain ⟨-, rfl, rfl⟩ := by simpa using heq
        exact Or.inr ⟨Cursor.Reaches.refl _, Cursor.Reaches.refl _⟩
      · exact ih hmem

theorem mem_groups_of_span {m : Match} {n : Nat} {a b : Cursor} (h : m.span? n = some (a, b)) :
    (n, a, b) ∈ m.groups := by
  obtain ⟨l₁, l₂, hl, -⟩ := List.lookup_eq_some_iff.mp h
  rw [hl]
  exact List.mem_append_right l₁ List.mem_cons_self

theorem exists_span_of_mem {m : Match} {n : Nat} {a b : Cursor} (h : (n, a, b) ∈ m.groups) :
    ∃ a' b', m.span? n = some (a', b') := by
  cases hspan : m.span? n with
  | none => exact absurd (List.lookup_eq_none_iff.mp hspan _ h) (by simp)
  | some ends => exact ⟨ends.1, ends.2, rfl⟩

/-- The ends of a group enclose its text. -/
theorem Makes.reads_of_span {p : Pattern} {m : Match} (h : p.Makes m) {n : Nat} {a b : Cursor}
    (hspan : m.span? n = some (a, b)) : a.Reads (m.group n) b := by
  obtain ⟨t, ht, -, hgroups⟩ := h
  have hmem : (n, a, b) ∈ t.groups := hgroups ▸ mem_groups_of_span hspan
  obtain ⟨q, -, u, v, rfl, rfl, hfits⟩ := (ht.group_mem hmem).resolve_left List.not_mem_nil
  obtain ⟨w, hw, -⟩ := hfits.reads
  rwa [Match.group_eq_of_span hspan hw]

end Pattern

/-- The characters of a group stand in the text at the position of the group, within the match. -/
structure Match.Shows (m : Match) (t : Text) (n : Nat) : Prop where
  start_le : m.start ≤ m.groupStart n
  le_stop : m.groupStart n + (m.group n).length ≤ m.stop
  stands : m.group n <+: t.drop (m.groupStart n)

namespace Pattern

/-- **A group that every match remembers** is shown. -/
theorem Makes.shows {p : Pattern} {m : Match} (h : p.Makes m) {t : Text} (ht : m.first.LiesIn t)
    {n : Nat} (hp : p.remembers n = true) : m.Shows t n := by
  obtain ⟨u, hfits, hlast, hgroups⟩ := id h
  obtain ⟨a, b, hspan⟩ : ∃ a b, m.span? n = some (a, b) := by
    obtain ⟨a, b, hmem⟩ := hfits.exists_group hp
    exact exists_span_of_mem (hgroups ▸ hmem)
  have hmem : (n, a, b) ∈ u.groups := hgroups ▸ mem_groups_of_span hspan
  obtain ⟨hstart, hstop⟩ := (hfits.group_within hmem).resolve_left List.not_mem_nil
  have hreads := h.reads_of_span hspan
  have hgroup := Match.groupStart_eq_of_span hspan
  refine ⟨?_, ?_, ?_⟩
  · rw [hgroup]
    exact hstart.pos_le
  · rw [hgroup, ← hreads.pos_eq, Match.stop, hlast]
    exact hstop.pos_le
  · rw [hgroup]
    exact (ht.of_reaches hstart).reads hreads

/-! ## Groups one after the other -/

theorem fits_all_append {l₁ l₂ : List Pattern} {s u : MatchState} :
    Fits (all (l₁ ++ l₂)) s u ↔ ∃ t, Fits (all l₁) s t ∧ Fits (all l₂) t u := by
  induction l₁ generalizing s with
  | nil =>
      constructor
      · intro h
        exact ⟨s, .empty s, h⟩
      · rintro ⟨t, hst, htu⟩
        cases hst
        exact htu
  | cons a l₁ ih =>
      simp only [List.cons_append, fits_all_cons, ih]
      constructor
      · rintro ⟨t, ha, t', h₁, h₂⟩
        exact ⟨t', ⟨t, ha, h₁⟩, h₂⟩
      · rintro ⟨t', ⟨t, ha, h₁⟩, h₂⟩
        exact ⟨t, ha, t', h₁, h₂⟩

/-- A group that no part of the pattern remembers is none that a match adds. -/
theorem Fits.mem_groups_of_groupBodies {p : Pattern} {s t : MatchState} (h : Fits p s t) {n : Nat}
    {a b : Cursor} (hp : p.groupBodies n = []) (hmem : (n, a, b) ∈ t.groups) :
    (n, a, b) ∈ s.groups := by
  rcases h.group_mem hmem with hmem | ⟨q, hq, -⟩
  · exact hmem
  · rw [hp] at hq
    exact absurd hq List.not_mem_nil

/-- **A group ends before another one starts**, if the first `i` parts of the pattern remember the one
and the other parts remember the other. -/
theorem Makes.group_before {l : List Pattern} {m : Match} (h : (all l).Makes m) (i : Nat) {n k : Nat}
    (hn : (all (l.take i)).remembers n = true) (hn' : (all (l.drop i)).groupBodies n = [])
    (hk : (all (l.drop i)).remembers k = true) (hk' : (all (l.take i)).groupBodies k = []) :
    m.groupStart n + (m.group n).length ≤ m.groupStart k := by
  obtain ⟨t, ht, -, hgroups⟩ := id h
  rw [← List.take_append_drop i l] at ht
  obtain ⟨u, hleft, hright⟩ := fits_all_append.mp ht
  -- The first group is remembered up to `u` and not again.
  obtain ⟨a, b, hspan⟩ : ∃ a b, m.span? n = some (a, b) := by
    obtain ⟨a, b, hmem⟩ := hleft.exists_group hn
    exact exists_span_of_mem (hgroups ▸ hright.groups_subset hmem)
  have hmem : (n, a, b) ∈ u.groups :=
    hright.mem_groups_of_groupBodies hn' (hgroups ▸ mem_groups_of_span hspan)
  have hbefore : b.Reaches u.cursor := ((hleft.group_within hmem).resolve_left List.not_mem_nil).2
  -- The second one is remembered from `u` on.
  obtain ⟨a', b', hspan'⟩ : ∃ a b, m.span? k = some (a, b) := by
    obtain ⟨a, b, hmem⟩ := hright.exists_group hk
    exact exists_span_of_mem (hgroups ▸ hmem)
  have hafter : u.cursor.Reaches a' := by
    rcases hright.group_within (hgroups ▸ mem_groups_of_span hspan') with hmem' | ⟨hstart, -⟩
    · exact absurd (hleft.mem_groups_of_groupBodies hk' hmem') List.not_mem_nil
    · exact hstart
  calc m.groupStart n + (m.group n).length = b.pos := by
        rw [Match.groupStart_eq_of_span hspan, (h.reads_of_span hspan).pos_eq]
    _ ≤ u.cursor.pos := hbefore.pos_le
    _ ≤ a'.pos := hafter.pos_le
    _ = m.groupStart k := (Match.groupStart_eq_of_span hspan').symm

end Pattern

end CodeAtlas
