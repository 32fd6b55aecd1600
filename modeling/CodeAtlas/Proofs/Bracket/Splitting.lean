import CodeAtlas.Proofs.Bracket.Clauses

set_option autoImplicit false

/-! # Splitting a list of clauses

`Bracket.splitTopLevel` splits a text at its separators, which are the commas where the depth is zero
(`Bracket.IsSeparator`). The depth does not fall below zero and brackets of all kinds count alike, so this
makes sense for every text, whether its brackets match or not. What a text is split into is told here by
positions: its parts are the stretches that `Bracket.Divides` describes, and only separators and white
space belong to none of them.

A text without separators is one part or none (`exists_divides_of_unsplit`), and the parts on both sides of
a separator are the parts of the whole (`Divides.append`), since the depth at a separator is zero and what
comes behind it is read as if it were a text of its own (`isSeparator_behind`).
-/

namespace CodeAtlas.Bracket

/-! ## Separators -/

/-- At the position stands a comma, and the depth before it is zero. -/
def IsSeparator (t : Text) (i : Nat) : Prop := t[i]? = some ',' ∧ depthAfter 0 (t.take i) = 0

theorem Unsplit.not_isSeparator {t : Text} (h : Unsplit 0 t) (i : Nat) : ¬ IsSeparator t i := by
  rintro ⟨hcomma, hdepth⟩
  have hprefix : t.take i ++ [','] <+: t := by
    refine ⟨t.drop (i + 1), ?_⟩
    obtain ⟨hi, hget⟩ := List.getElem?_eq_some_iff.mp hcomma
    rw [List.append_assoc, List.singleton_append, ← hget, List.cons_getElem_drop_succ,
      List.take_append_drop]
  exact h (t.take i) ((List.mem_inits _ _).mpr (List.take_prefix i t)) hprefix hdepth

theorem isSeparator_append_left {u : Text} {i : Nat} (hi : i < u.length) (v : Text) :
    IsSeparator (u ++ v) i ↔ IsSeparator u i := by
  rw [IsSeparator, IsSeparator, List.getElem?_append_left hi, List.take_append_of_le_length hi.le]

theorem isSeparator_append_right {u : Text} {i : Nat} (hu : depthAfter 0 u = 0) (v : Text) :
    IsSeparator (u ++ v) (u.length + i) ↔ IsSeparator v i := by
  rw [IsSeparator, IsSeparator, List.getElem?_append_right (Nat.le_add_right _ _),
    Nat.add_sub_cancel_left, List.take_length_add_append, depthAfter_append, hu]

/-- A text has no separator, or there is a first one. -/
theorem unsplit_or_exists_append (d : Nat) (t : Text) :
    Unsplit d t ∨ ∃ u v, t = u ++ ',' :: v ∧ Unsplit d u ∧ depthAfter d u = 0 := by
  induction t generalizing d with
  | nil => exact Or.inl (unsplit_nil d)
  | cons c t ih =>
      by_cases hsep : c = ',' ∧ d = 0
      · obtain ⟨rfl, rfl⟩ := hsep
        exact Or.inr ⟨[], t, rfl, unsplit_nil 0, rfl⟩
      · have hc : c = ',' → d ≠ 0 := fun hcomma hzero => hsep ⟨hcomma, hzero⟩
        rcases ih (clauseDepth d c) with ht | ⟨u, v, rfl, hu, hdepth⟩
        · exact Or.inl (unsplit_cons.mpr ⟨hc, ht⟩)
        · exact Or.inr ⟨c :: u, v, rfl, unsplit_cons.mpr ⟨hc, hu⟩, hdepth⟩

/-! ## Spans -/

/-- A stretch of a text, from a position up to another one. -/
structure Span where
  first : Nat
  last : Nat

/-- The characters of a span. -/
def Span.text (t : Text) (s : Span) : Text := (t.take s.last).drop s.first

/-- Is the position in the span? -/
def Span.Has (s : Span) (i : Nat) : Prop := s.first ≤ i ∧ i < s.last

/-- The span that lies a number of characters further on. -/
def Span.shift (n : Nat) (s : Span) : Span := ⟨n + s.first, n + s.last⟩

theorem Span.has_shift_iff {n i : Nat} {s : Span} :
    (s.shift n).Has i ↔ ∃ j, i = n + j ∧ s.Has j := by
  simp only [Span.Has, Span.shift]
  constructor
  · intro h
    exact ⟨i - n, by omega, by omega⟩
  · rintro ⟨j, rfl, h⟩
    omega

theorem Span.text_append_left {u : Text} {s : Span} (hs : s.last ≤ u.length) (v : Text) :
    s.text (u ++ v) = s.text u := by
  rw [Span.text, Span.text, List.take_append_of_le_length hs]

theorem Span.text_append_right (u v : Text) (s : Span) : (s.shift u.length).text (u ++ v) = s.text v := by
  rw [Span.text, Span.shift, List.take_length_add_append, List.drop_length_add_append, Span.text]

/-! ## Parts -/

/-- The parts of a text: the stretches between its separators, without the white space around them,
as far as there is anything else. -/
structure Divides (t : Text) (spans : List Span) : Prop where
  bounds : ∀ s ∈ spans, s.first < s.last ∧ s.last ≤ t.length
  stripped : ∀ s ∈ spans, Text.IsStripped (s.text t)
  /-- No separator is in a part. -/
  whole : ∀ s ∈ spans, ∀ i, s.Has i → ¬ IsSeparator t i
  /-- The parts are in order, and a separator is between any two. -/
  apart : spans.Pairwise fun r s => ∃ i, IsSeparator t i ∧ r.last ≤ i ∧ i < s.first
  /-- Only separators and white space are in no part. -/
  covered : ∀ i c, t[i]? = some c → Text.isBlank c = false → ¬ IsSeparator t i →
    ∃ s ∈ spans, s.Has i

theorem divides_blank {t : Text} (ht : ∀ c ∈ t, Text.isBlank c = true) : Divides t [] := by
  refine ⟨by simp, by simp, by simp, List.Pairwise.nil, fun i c hc hblank _ => ?_⟩
  rw [ht c (List.mem_of_getElem? hc)] at hblank
  contradiction

/-- A text without separators is one part if anything is left of it without the white space around. -/
theorem divides_surrounded {b n d : Text} (hb : ∀ c ∈ b, Text.isBlank c = true)
    (hd : ∀ c ∈ d, Text.isBlank c = true) (hne : n ≠ []) (hn : Text.IsStripped n)
    (h : Unsplit 0 (b ++ (n ++ d))) :
    Divides (b ++ (n ++ d)) [⟨b.length, b.length + n.length⟩] ∧
      Span.text (b ++ (n ++ d)) ⟨b.length, b.length + n.length⟩ = n := by
  have htext : Span.text (b ++ (n ++ d)) ⟨b.length, b.length + n.length⟩ = n := by
    rw [Span.text, List.take_length_add_append, List.take_left, List.drop_left]
  have hpos : 0 < n.length := List.length_pos_iff.mpr hne
  refine ⟨⟨?_, ?_, ?_, ?_, ?_⟩, htext⟩
  · simp only [List.mem_singleton, forall_eq, List.length_append]
    omega
  · simp only [List.mem_singleton, forall_eq, htext]
    exact hn
  · intro s _ i _
    exact h.not_isSeparator i
  · exact List.pairwise_singleton _ _
  · intro i c hc hblank _
    refine ⟨_, List.mem_singleton_self _, ?_⟩
    -- What stands before or after the part is white space.
    by_contra hout
    have hmem : c ∈ b ++ d := by
      rw [List.mem_append]
      by_cases hi : i < b.length
      · rw [List.getElem?_append_left hi] at hc
        exact Or.inl (List.mem_of_getElem? hc)
      · simp only [Span.Has] at hout
        rw [List.getElem?_append_right (by omega), List.getElem?_append_right (by omega)] at hc
        exact Or.inr (List.mem_of_getElem? hc)
    rw [List.forall_mem_append.mpr ⟨hb, hd⟩ c hmem] at hblank
    contradiction

theorem exists_divides_of_unsplit {t : Text} (h : Unsplit 0 t) :
    ∃ spans, Divides t spans ∧ splitTopLevel [','] t = spans.map (·.text t) := by
  obtain ⟨b, d, ht, hb, hd⟩ := Text.exists_append_trim t
  by_cases hnil : Text.trim t = []
  · refine ⟨[], divides_blank ?_, ?_⟩
    · rw [ht, hnil]
      exact List.forall_mem_append.mpr ⟨hb, hd⟩
    · rw [splitTopLevel, topLevelPieces_eq_singleton h, List.map_singleton, hnil]
      rfl
  · rw [ht] at h
    obtain ⟨hdivides, htext⟩ := divides_surrounded hb hd hnil (Text.isStripped_trim t) h
    rw [← ht] at h hdivides htext
    refine ⟨_, hdivides, ?_⟩
    rw [splitTopLevel_eq_singleton h hnil, List.map_singleton, htext]

/-! ## On both sides of a separator -/

section Separator

variable {u : Text} (hu : depthAfter 0 u = 0)

theorem append_comma (u v : Text) :
    u ++ ',' :: v = (u ++ [',']) ++ v ∧ (u ++ [',']).length = u.length + 1 := by
  simp

include hu in
theorem isSeparator_length (v : Text) : IsSeparator (u ++ ',' :: v) u.length :=
  (isSeparator_append_right (i := 0) hu (',' :: v)).mpr ⟨rfl, rfl⟩

include hu in
/-- Behind a separator the depth is reckoned as if a text started there. -/
theorem isSeparator_behind (v : Text) (i : Nat) :
    IsSeparator (u ++ ',' :: v) (u.length + 1 + i) ↔ IsSeparator v i := by
  obtain ⟨hsplit, hlength⟩ := append_comma u v
  have hdepth : depthAfter 0 (u ++ [',']) = 0 := by
    rw [depthAfter_append, hu]
    rfl
  rw [hsplit, ← hlength, isSeparator_append_right hdepth]

theorem Span.text_behind (u v : Text) (s : Span) :
    (s.shift (u.length + 1)).text (u ++ ',' :: v) = s.text v := by
  obtain ⟨hsplit, hlength⟩ := append_comma u v
  rw [hsplit, ← hlength, Span.text_append_right]

include hu in
/-- **The parts before a separator and the parts behind it are the parts of the whole.** -/
theorem Divides.append {v : Text} {l r : List Span} (hl : Divides u l) (hr : Divides v r) :
    Divides (u ++ ',' :: v) (l ++ r.map (Span.shift (u.length + 1))) := by
  refine ⟨?bounds, ?stripped, ?whole, ?apart, ?covered⟩
  case bounds =>
    rw [List.forall_mem_append, List.forall_mem_map]
    simp only [List.length_append, List.length_cons, Span.shift]
    constructor
    · intro s hs
      have hbounds := hl.bounds s hs
      omega
    · intro s hs
      have hbounds := hr.bounds s hs
      omega
  case stripped =>
    rw [List.forall_mem_append, List.forall_mem_map]
    constructor
    · intro s hs
      rw [Span.text_append_left (hl.bounds s hs).2]
      exact hl.stripped s hs
    · intro s hs
      rw [Span.text_behind]
      exact hr.stripped s hs
  case whole =>
    rw [List.forall_mem_append, List.forall_mem_map]
    constructor
    · intro s hs i hi
      rw [isSeparator_append_left (hi.2.trans_le (hl.bounds s hs).2)]
      exact hl.whole s hs i hi
    · intro s hs i hi
      obtain ⟨j, rfl, hj⟩ := Span.has_shift_iff.mp hi
      rw [isSeparator_behind hu]
      exact hr.whole s hs j hj
  case apart =>
    rw [List.pairwise_append, List.pairwise_map]
    refine ⟨?_, ?_, ?_⟩
    · refine hl.apart.imp_of_mem fun {s s'} _ hs' ⟨i, hi, hfirst, hlast⟩ => ?_
      have hbounds := hl.bounds s' hs'
      exact ⟨i, (isSeparator_append_left (by omega) _).mpr hi, hfirst, hlast⟩
    · refine hr.apart.imp fun {s s'} ⟨i, hi, hfirst, hlast⟩ => ?_
      refine ⟨u.length + 1 + i, (isSeparator_behind hu v i).mpr hi, ?_⟩
      simp only [Span.shift]
      omega
    · -- The separator itself is between a part before it and one behind it.
      intro s hs s' hs'
      obtain ⟨s', -, rfl⟩ := List.mem_map.mp hs'
      refine ⟨u.length, isSeparator_length hu v, (hl.bounds s hs).2, ?_⟩
      simp only [Span.shift]
      omega
  case covered =>
    intro i c hc hblank hnot
    rcases Nat.lt_trichotomy i u.length with hi | rfl | hi
    · rw [isSeparator_append_left hi] at hnot
      rw [List.getElem?_append_left hi] at hc
      obtain ⟨s, hs, hhas⟩ := hl.covered i c hc hblank hnot
      exact ⟨s, List.mem_append_left _ hs, hhas⟩
    · exact absurd (isSeparator_length hu v) hnot
    · obtain ⟨j, rfl⟩ : ∃ j, i = u.length + 1 + j := ⟨i - (u.length + 1), by omega⟩
      obtain ⟨hsplit, hlength⟩ := append_comma u v
      rw [isSeparator_behind hu] at hnot
      rw [hsplit, List.getElem?_append_right (by omega), hlength, Nat.add_sub_cancel_left] at hc
      obtain ⟨s, hs, hhas⟩ := hr.covered j c hc hblank hnot
      exact ⟨s.shift (u.length + 1), List.mem_append_right _ (List.mem_map_of_mem hs),
        Span.has_shift_iff.mpr ⟨j, rfl, hhas⟩⟩

end Separator

/-! ## Splitting -/

/-- **A text is split into its parts**, whatever its brackets. -/
theorem exists_divides (t : Text) :
    ∃ spans, Divides t spans ∧ splitTopLevel [','] t = spans.map (·.text t) := by
  -- What comes behind the first separator is shorter.
  induction hn : t.length using Nat.strongRecOn generalizing t with
  | ind n ih =>
      rcases unsplit_or_exists_append 0 t with ht | ⟨u, v, rfl, hu, hend⟩
      · exact exists_divides_of_unsplit ht
      · have hshorter : v.length < n := by
          rw [← hn, List.length_append, List.length_cons]
          omega
        obtain ⟨l, hl, hleft⟩ := exists_divides_of_unsplit hu
        obtain ⟨r, hr, hright⟩ := ih v.length hshorter v rfl
        refine ⟨_, hl.append hend hr, ?_⟩
        have hmap_left : l.map (·.text u) = l.map (·.text (u ++ ',' :: v)) :=
          List.map_congr_left fun s hs => (Span.text_append_left (hl.bounds s hs).2 _).symm
        have hmap_right : r.map (·.text v) =
            (r.map (Span.shift (u.length + 1))).map (·.text (u ++ ',' :: v)) := by
          rw [List.map_map]
          exact List.map_congr_left fun s _ => (Span.text_behind u v s).symm
        rw [splitTopLevel_append_comma hu hend, hleft, hright, hmap_left, hmap_right,
          List.map_append]

/-- A clause of a list: not empty, without white space at its ends, without a comma outside of its
brackets, and with no bracket open where it ends. -/
structure IsClause (p : Text) : Prop where
  ne_nil : p ≠ []
  stripped : Text.IsStripped p
  unsplit : Unsplit 0 p
  depth_eq : depthAfter 0 p = 0

instance (p : Text) : Decidable (IsClause p) :=
  decidable_of_iff (p ≠ [] ∧ Text.IsStripped p ∧ Unsplit 0 p ∧ depthAfter 0 p = 0)
    ⟨fun ⟨hne, hstripped, hunsplit, hdepth⟩ => ⟨hne, hstripped, hunsplit, hdepth⟩,
      fun h => ⟨h.ne_nil, h.stripped, h.unsplit, h.depth_eq⟩⟩

/-- **Splitting undoes joining, and nothing is lost.** Clauses joined with commas and spaces are got back.
Any text is split into parts that are stretches of it, in order, none of them empty and none with white
space at its ends; between any two is a comma outside of all brackets, within a part is none, and only
such commas and white space are in no part. -/
theorem clauses_split :
    (∀ ps : List Text, (∀ p ∈ ps, IsClause p) →
      splitTopLevel [','] (", ".toList.intercalate ps) = ps) ∧
    ∀ t : Text, ∃ spans, Divides t spans ∧ splitTopLevel [','] t = spans.map (·.text t) := by
  refine ⟨fun ps hps => ?_, exists_divides⟩
  have htrim : ∀ p ∈ ps, Text.trim p = p := fun p hp => (hps p hp).stripped.trim_eq
  have hne : ∀ p ∈ ps, Text.trim p ≠ [] := by
    intro p hp
    rw [htrim p hp]
    exact (hps p hp).ne_nil
  have hspace : ∀ c ∈ [' '], Text.isBlank c = true := List.forall_mem_singleton.mpr rfl
  calc splitTopLevel [','] (", ".toList.intercalate ps) = ps.map Text.trim :=
        splitTopLevel_join hspace hne (fun p hp => (hps p hp).unsplit)
          fun p hp => (hps p (List.mem_of_mem_dropLast hp)).depth_eq
    _ = ps.map id := List.map_congr_left htrim
    _ = ps := List.map_id ps

/-- Clauses with commas in brackets of each kind, and one that closes what is not open. -/
def bracketedClauses : List Text :=
  ["map<k, v> m".toList, "f(a, [b, c], \x7bd, e\x7d)".toList, ")x".toList]

/-- Brackets that do not match, blank stretches, and a comma that is hidden by an operator. -/
def unevenText : Text := " )a ],, , (b, c> , d < e, f ".toList

theorem clauses_split_uneven :
    (∀ p ∈ bracketedClauses, IsClause p) ∧
      splitTopLevel [','] (", ".toList.intercalate bracketedClauses) = bracketedClauses ∧
      ∃ spans, Divides unevenText spans ∧ splitTopLevel [','] unevenText = spans.map (·.text unevenText) ∧
        splitTopLevel [','] unevenText = [")a ]".toList, "(b, c>".toList, "d < e, f".toList] := by
  have hclauses : ∀ p ∈ bracketedClauses, IsClause p := by decide +kernel
  obtain ⟨hjoined, hparts⟩ := clauses_split
  obtain ⟨spans, hdivides, hsplit⟩ := hparts unevenText
  exact ⟨hclauses, hjoined bracketedClauses hclauses, spans, hdivides, hsplit, by decide +kernel⟩

end CodeAtlas.Bracket
