import CodeAtlas.Bracket
import CodeAtlas.Proofs.Text.Trim
import CodeAtlas.Text.Word
import Mathlib.Data.List.Infix

set_option autoImplicit false

/-! # Lists of clauses

A list of parents is split at its commas, and type arguments are dropped from it. Splitting reckons with
one depth for brackets of all kinds: a clause stays whole if none of its commas stands where the depth is
zero (`Unsplit`), and the next clause starts afresh if the depth has come back to zero (`depthAfter`).
White space around a list is of no account (`splitTopLevel_blank_append`, `splitTopLevel_append_blank`).

Dropping reckons with angle brackets only, so that arguments vanish as a whole if the angle brackets in
them are balanced (`strips_arguments`).
-/

namespace CodeAtlas.Bracket

/-! ## Balanced brackets -/

/-- A closing bracket comes after the opening one that it closes, and every opening one is closed. -/
def Balanced (opener closer : Char) (t : Text) : Prop :=
  (∀ u ∈ t.inits, u.count closer ≤ u.count opener) ∧ t.count closer = t.count opener

instance (opener closer : Char) (t : Text) : Decidable (Balanced opener closer t) :=
  inferInstanceAs (Decidable (_ ∧ _))

/-- The text leads from one number of open brackets to another, and closes none that is not open. -/
inductive Climbs (opener closer : Char) : Nat → Text → Nat → Prop where
  | nil (d : Nat) : Climbs opener closer d [] d
  | opener {d e : Nat} {t : Text} (h : Climbs opener closer (d + 1) t e) :
      Climbs opener closer d (opener :: t) e
  | closer {d e : Nat} {t : Text} (h : Climbs opener closer d t e) :
      Climbs opener closer (d + 1) (closer :: t) e
  | other {d e : Nat} {c : Char} {t : Text} (hopen : c ≠ opener) (hclose : c ≠ closer)
      (h : Climbs opener closer d t e) : Climbs opener closer d (c :: t) e

theorem climbs_of_prefix {opener closer : Char} (hne : opener ≠ closer) {t : Text} {d : Nat}
    (h : ∀ u, u <+: t → u.count closer ≤ d + u.count opener) :
    Climbs opener closer d t (d + t.count opener - t.count closer) := by
  induction t generalizing d with
  | nil => exact .nil d
  | cons c t ih =>
      have hprefix : ∀ u, u <+: t → (c :: u).count closer ≤ d + (c :: u).count opener := fun u hu =>
        h (c :: u) (List.cons_prefix_cons.mpr ⟨rfl, hu⟩)
      by_cases hopen : c = opener
      · subst hopen
        have hrest := ih (d := d + 1) fun u hu => by
          have hle := hprefix u hu
          rw [List.count_cons_self, List.count_cons_of_ne hne] at hle
          omega
        rw [List.count_cons_self, List.count_cons_of_ne hne, Nat.add_comm _ 1, ← Nat.add_assoc]
        exact .opener hrest
      · by_cases hclose : c = closer
        · subst hclose
          have hpos := hprefix [] List.nil_prefix
          obtain ⟨d, rfl⟩ : ∃ d', d = d' + 1 := ⟨d - 1, by simp [hopen] at hpos; omega⟩
          have hrest := ih (d := d) fun u hu => by
            have hle := hprefix u hu
            rw [List.count_cons_self, List.count_cons_of_ne (Ne.symm hne)] at hle
            omega
          rw [List.count_cons_self, List.count_cons_of_ne (Ne.symm hne), Nat.add_right_comm,
            Nat.add_sub_add_right]
          exact .closer hrest
        · have hrest := ih (d := d) fun u hu => by
            simpa [List.count_cons, hopen, hclose] using hprefix u hu
          rw [List.count_cons_of_ne hopen, List.count_cons_of_ne hclose]
          exact .other hopen hclose hrest

theorem Balanced.climbs {opener closer : Char} (hne : opener ≠ closer) {t : Text}
    (h : Balanced opener closer t) : Climbs opener closer 0 t 0 := by
  have hclimbs := climbs_of_prefix hne (d := 0) (t := t) fun u hu => by
    simpa using h.1 u ((List.mem_inits u t).mpr hu)
  rwa [h.2, Nat.zero_add, Nat.sub_self] at hclimbs

/-! ## Type arguments -/

/-- Within angle brackets everything is dropped. -/
theorem Climbs.stripAngles_append {d e : Nat} {w : Text} (h : Climbs '<' '>' d w e) (t : Text) :
    stripAngles (d + 1) (w ++ t) = stripAngles (e + 1) t := by
  induction h with
  | nil d => rfl
  | opener _ ih => exact ih
  | closer _ ih =>
      rw [← ih, List.cons_append, stripAngles, if_neg (by decide), if_pos (by simp), Nat.add_sub_cancel]
  | other hopen hclose _ ih =>
      rw [← ih, List.cons_append, stripAngles, if_neg (by simpa using hopen), if_neg (by simp [hclose]),
        if_neg (by simp)]

/-- Dropping the arguments leaves `v` of the text `w`, whatever comes after it. -/
def Strips (w v : Text) : Prop := ∀ t, stripAngles 0 (w ++ t) = v ++ stripAngles 0 t

theorem Strips.stripGenerics_eq {w v : Text} (h : Strips w v) : stripGenerics w = v := by
  have hnil := h []
  rwa [List.append_nil, stripAngles, List.append_nil] at hnil

theorem Strips.append {w v w' v' : Text} (h : Strips w v) (h' : Strips w' v') :
    Strips (w ++ w') (v ++ v') := by
  intro t
  rw [List.append_assoc, h, h', List.append_assoc]

theorem strips_of_notMem {w : Text} (hopen : '<' ∉ w) (hclose : '>' ∉ w) : Strips w w := by
  intro t
  induction w with
  | nil => rfl
  | cons c w ih =>
      rw [List.mem_cons, not_or] at hopen hclose
      have hopen' : (c == '<') = false := by simpa using Ne.symm hopen.1
      have hclose' : (c == '>') = false := by simpa using Ne.symm hclose.1
      rw [List.cons_append, stripAngles, hopen', hclose', ih hopen.2 hclose.2]
      rfl

/-- **Arguments are dropped as a whole** if the angle brackets in them are balanced. -/
theorem strips_arguments {w : Text} (hw : Balanced '<' '>' w) : Strips ('<' :: (w ++ ['>'])) [] := by
  intro t
  have hinner := (hw.climbs (by decide)).stripAngles_append ('>' :: t)
  rw [List.cons_append, List.append_assoc, stripAngles, if_pos (by decide), List.singleton_append,
    hinner]
  rfl

theorem Strips.join {sep : Text} (hsep : Strips sep sep) {α : Type} {f g : α → Text} {l : List α}
    (h : ∀ a ∈ l, Strips (f a) (g a)) :
    Strips (sep.intercalate (l.map f)) (sep.intercalate (l.map g)) := by
  induction l with
  | nil => exact strips_of_notMem (by simp) (by simp)
  | cons a l ih =>
      obtain ⟨ha, hl⟩ := List.forall_mem_cons.mp h
      cases l with
      | nil =>
          rw [List.map_singleton, List.map_singleton, List.intercalate_singleton,
            List.intercalate_singleton]
          exact ha
      | cons b l =>
          rw [List.map_cons, List.map_cons, List.map_cons, List.map_cons, List.intercalate_cons_cons,
            List.intercalate_cons_cons]
          exact (ha.append hsep).append (ih hl)

/-! ## The depth along a clause -/

/-- The depth after a text. -/
def depthAfter (depth : Nat) (t : Text) : Nat := t.foldl clauseDepth depth

/-- No comma of the text stands where the depth is zero. -/
def Unsplit (depth : Nat) (t : Text) : Prop :=
  ∀ u ∈ t.inits, u ++ [','] <+: t → depthAfter depth u ≠ 0

instance (depth : Nat) (t : Text) : Decidable (Unsplit depth t) :=
  inferInstanceAs (Decidable (∀ u ∈ t.inits, u ++ [','] <+: t → depthAfter depth u ≠ 0))

theorem depthAfter_append (d : Nat) (u v : Text) :
    depthAfter d (u ++ v) = depthAfter (depthAfter d u) v :=
  List.foldl_append

theorem unsplit_nil (d : Nat) : Unsplit d [] := by
  intro u _ hu
  simp at hu

theorem unsplit_cons {d : Nat} {c : Char} {t : Text} :
    Unsplit d (c :: t) ↔ (c = ',' → d ≠ 0) ∧ Unsplit (clauseDepth d c) t := by
  constructor
  · intro h
    refine ⟨fun hc => ?_, fun u _ hu => ?_⟩
    · exact h [] (by simp) (by simp [hc])
    · have hcu : c :: u ++ [','] <+: c :: t := List.cons_prefix_cons.mpr ⟨rfl, hu⟩
      exact h (c :: u) ((List.mem_inits _ _).mpr ((List.prefix_append _ _).trans hcu)) hcu
  · rintro ⟨hc, ht⟩ u - hu
    cases u with
    | nil => exact hc (List.cons_prefix_cons.mp hu).1.symm
    | cons x u =>
        obtain ⟨rfl, hut⟩ : x = c ∧ u ++ [','] <+: t := List.cons_prefix_cons.mp hu
        exact ht u ((List.mem_inits _ _).mpr ((List.prefix_append _ _).trans hut)) hut

theorem Unsplit.append {d : Nat} {u v : Text} (hu : Unsplit d u) (hv : Unsplit (depthAfter d u) v) :
    Unsplit d (u ++ v) := by
  induction u generalizing d with
  | nil => exact hv
  | cons c u ih =>
      obtain ⟨hc, hu⟩ := unsplit_cons.mp hu
      exact unsplit_cons.mpr ⟨hc, ih hu hv⟩

theorem unsplit_of_notMem {t : Text} (h : ',' ∉ t) (d : Nat) : Unsplit d t := by
  rintro u - ⟨v, rfl⟩
  exact absurd (by simp) h

/-- In a bracket, balanced parentheses keep the depth above zero if there are no other brackets. -/
theorem Climbs.unsplit {d e : Nat} {w : Text} (h : Climbs '(' ')' d w e)
    (hw : ∀ c ∈ w, c ∉ "[]<>\x7b\x7d".toList) :
    Unsplit (d + 1) w ∧ depthAfter (d + 1) w = e + 1 := by
  induction h with
  | nil d => exact ⟨unsplit_nil _, rfl⟩
  | opener _ ih =>
      obtain ⟨hunsplit, hdepth⟩ := ih (List.forall_mem_cons.mp hw).2
      exact ⟨unsplit_cons.mpr ⟨by simp, hunsplit⟩, hdepth⟩
  | closer _ ih =>
      obtain ⟨hunsplit, hdepth⟩ := ih (List.forall_mem_cons.mp hw).2
      exact ⟨unsplit_cons.mpr ⟨by simp, hunsplit⟩, hdepth⟩
  | @other d e c t hopen hclose _ ih =>
      obtain ⟨hc, hw⟩ := List.forall_mem_cons.mp hw
      obtain ⟨hunsplit, hdepth⟩ := ih hw
      have hsame : clauseDepth (d + 1) c = d + 1 := by
        simp at hc
        simp [clauseDepth, opens, closes, hopen, hclose, hc]
      refine ⟨unsplit_cons.mpr ⟨by simp, by rwa [hsame]⟩, ?_⟩
      show depthAfter (clauseDepth (d + 1) c) t = e + 1
      rwa [hsame]

/-- Arguments in parentheses are a clause that leaves the depth at zero. -/
theorem unsplit_arguments {w : Text} (hbalanced : Balanced '(' ')' w)
    (hw : ∀ c ∈ w, c ∉ "[]<>\x7b\x7d".toList) :
    Unsplit 0 ('(' :: (w ++ [')'])) ∧ depthAfter 0 ('(' :: (w ++ [')'])) = 0 := by
  obtain ⟨hunsplit, hdepth⟩ := (hbalanced.climbs (by decide)).unsplit hw
  refine ⟨unsplit_cons.mpr ⟨by simp, hunsplit.append (unsplit_of_notMem (by decide) _)⟩, ?_⟩
  show depthAfter 1 (w ++ [')']) = 0
  rw [depthAfter_append, hdepth]
  rfl

/-- A character that neither separates clauses nor changes the depth. -/
def IsInert (c : Char) : Prop := c ≠ ',' ∧ clauseDepth 0 c = 0

/-- The characters of a class are inert if the class leaves out the comma and the brackets. -/
theorem isInert_of_class {p : Char → Bool} (hp : ",()[]<>\x7b\x7d".toList.any p = false) {c : Char}
    (hc : p c = true) : IsInert c := by
  have hne : ∀ d ∈ ",()[]<>\x7b\x7d".toList, c ≠ d := by
    rintro d hd rfl
    rw [List.any_eq_false] at hp
    exact hp c hd hc
  refine ⟨hne ',' (by decide), ?_⟩
  simp [clauseDepth, opens, closes, hne '(' (by decide), hne '[' (by decide), hne '\x7b' (by decide),
    hne '<' (by decide), hne ')' (by decide), hne ']' (by decide), hne '\x7d' (by decide),
    hne '>' (by decide)]

theorem isInert_of_isBlank {c : Char} (h : Text.isBlank c = true) : IsInert c :=
  isInert_of_class (by decide) h

theorem isInert_of_isWord {c : Char} (h : Text.isWord c = true) : IsInert c :=
  isInert_of_class (by decide) h

/-- A text of inert characters is a clause that leaves the depth at zero. -/
theorem unsplit_of_isInert {t : Text} (h : ∀ c ∈ t, IsInert c) :
    Unsplit 0 t ∧ depthAfter 0 t = 0 := by
  induction t with
  | nil => exact ⟨unsplit_nil 0, rfl⟩
  | cons c t ih =>
      obtain ⟨hcomma, hdepth⟩ := h c List.mem_cons_self
      obtain ⟨hunsplit, hend⟩ := ih fun d hd => h d (List.mem_cons_of_mem c hd)
      refine ⟨unsplit_cons.mpr ⟨fun hc => absurd hc hcomma, ?_⟩, ?_⟩
      · rwa [hdepth]
      · show depthAfter (clauseDepth 0 c) t = 0
        rwa [hdepth]

/-! ## Splitting -/

theorem topLevelPieces_cons {d : Nat} {c : Char} (hc : c = ',' → d ≠ 0) {t p : Text} {ps : List Text}
    (ht : topLevelPieces [','] (clauseDepth d c) t = p :: ps) :
    topLevelPieces [','] d (c :: t) = (c :: p) :: ps := by
  have hsep : ([c] == [','] && clauseDepth d c == 0) = false := by
    by_cases hcomma : c = ','
    · subst hcomma
      have hdepth : clauseDepth d ',' = d := rfl
      simpa [hdepth] using hc rfl
    · simp [hcomma]
  simp only [topLevelPieces, hsep, Bool.false_eq_true, if_false, ht]

theorem topLevelPieces_eq_singleton {d : Nat} {w : Text} (hw : Unsplit d w) :
    topLevelPieces [','] d w = [w] := by
  induction w generalizing d with
  | nil => rfl
  | cons c w ih =>
      obtain ⟨hc, hw⟩ := unsplit_cons.mp hw
      exact topLevelPieces_cons hc (ih hw)

theorem topLevelPieces_append {d : Nat} {w : Text} (hw : Unsplit d w) (hend : depthAfter d w = 0)
    (t : Text) : topLevelPieces [','] d (w ++ ',' :: t) = w :: topLevelPieces [','] 0 t := by
  induction w generalizing d with
  | nil =>
      obtain rfl : d = 0 := hend
      rfl
  | cons c w ih =>
      obtain ⟨hc, hw⟩ := unsplit_cons.mp hw
      exact topLevelPieces_cons hc (ih hw hend)

/-- A text without commas goes to the last piece. -/
theorem exists_topLevelPieces_append {w : Text} (hw : ',' ∉ w) (d : Nat) (t : Text) :
    ∃ ps p, topLevelPieces [','] d t = ps ++ [p] ∧
      topLevelPieces [','] d (t ++ w) = ps ++ [p ++ w] := by
  induction t generalizing d with
  | nil => exact ⟨[], [], rfl, topLevelPieces_eq_singleton (unsplit_of_notMem hw d)⟩
  | cons c t ih =>
      obtain ⟨ps, p, hps, hpsw⟩ := ih (clauseDepth d c)
      by_cases hsep : ([c] == [','] && clauseDepth d c == 0) = true
      · refine ⟨[] :: ps, p, ?_, ?_⟩
        · simp only [topLevelPieces, hsep, if_true, hps, List.cons_append]
        · simp only [List.cons_append, topLevelPieces, hsep, if_true, hpsw]
      · have hc : c = ',' → d ≠ 0 := by
          rintro rfl rfl
          exact hsep rfl
        cases ps with
        | nil => exact ⟨[], c :: p, topLevelPieces_cons hc hps, topLevelPieces_cons hc hpsw⟩
        | cons q ps =>
            exact ⟨(c :: q) :: ps, p, topLevelPieces_cons hc hps, topLevelPieces_cons hc hpsw⟩

/-- A clause is all there is. -/
theorem splitTopLevel_eq_singleton {w : Text} (hw : Unsplit 0 w) (hne : Text.trim w ≠ []) :
    splitTopLevel [','] w = [Text.trim w] := by
  simp [splitTopLevel, topLevelPieces_eq_singleton hw, hne]

/-- What comes before a separator is split on its own. -/
theorem splitTopLevel_append_comma {w : Text} (hw : Unsplit 0 w) (hend : depthAfter 0 w = 0)
    (t : Text) :
    splitTopLevel [','] (w ++ ',' :: t) = splitTopLevel [','] w ++ splitTopLevel [','] t := by
  rw [splitTopLevel, topLevelPieces_append hw hend, splitTopLevel, topLevelPieces_eq_singleton hw,
    splitTopLevel, ← List.filter_append, ← List.map_append, List.singleton_append]

/-- A clause comes before other ones. -/
theorem splitTopLevel_append {w : Text} (hw : Unsplit 0 w) (hend : depthAfter 0 w = 0)
    (hne : Text.trim w ≠ []) (t : Text) :
    splitTopLevel [','] (w ++ ',' :: t) = Text.trim w :: splitTopLevel [','] t := by
  rw [splitTopLevel_append_comma hw hend, splitTopLevel_eq_singleton hw hne, List.singleton_append]

/-! ## White space around a list -/

theorem splitTopLevel_blank_append {g : Text} (hg : ∀ c ∈ g, Text.isBlank c = true) (t : Text) :
    splitTopLevel [','] (g ++ t) = splitTopLevel [','] t := by
  have hpieces : ∃ p ps, topLevelPieces [','] 0 t = p :: ps ∧
      topLevelPieces [','] 0 (g ++ t) = (g ++ p) :: ps := by
    induction g with
    | nil =>
        obtain ⟨ps, p, hps, -⟩ := exists_topLevelPieces_append (w := []) (by simp) 0 t
        cases ps with
        | nil => exact ⟨p, [], hps, hps⟩
        | cons q ps => exact ⟨q, ps ++ [p], hps, hps⟩
    | cons c g ih =>
        obtain ⟨p, ps, hps, hgps⟩ := ih fun d hd => hg d (List.mem_cons_of_mem c hd)
        obtain ⟨hcomma, hdepth⟩ := isInert_of_isBlank (hg c List.mem_cons_self)
        exact ⟨p, ps, hps, topLevelPieces_cons (fun hc => absurd hc hcomma) (by rwa [hdepth])⟩
  obtain ⟨p, ps, hps, hgps⟩ := hpieces
  simp only [splitTopLevel, hps, hgps, List.map_cons, Text.trim_blank_append hg]

theorem splitTopLevel_append_blank {g : Text} (hg : ∀ c ∈ g, Text.isBlank c = true) (t : Text) :
    splitTopLevel [','] (t ++ g) = splitTopLevel [','] t := by
  have hcomma : ',' ∉ g := fun hmem => absurd (hg ',' hmem) (by decide)
  obtain ⟨ps, p, hps, hpsg⟩ := exists_topLevelPieces_append hcomma 0 t
  simp only [splitTopLevel, hps, hpsg, List.map_append, List.map_cons, Text.trim_append_blank hg]

/-! ## Joined clauses -/

/-- **Clauses that were joined are got back**, with the white space around them trimmed. Where a clause
follows, the depth has to be zero again. -/
theorem splitTopLevel_join {g : Text} (hg : ∀ c ∈ g, Text.isBlank c = true) {ts : List Text}
    (hne : ∀ t ∈ ts, Text.trim t ≠ []) (hunsplit : ∀ t ∈ ts, Unsplit 0 t)
    (hend : ∀ t ∈ ts.dropLast, depthAfter 0 t = 0) :
    splitTopLevel [','] ((',' :: g).intercalate ts) = ts.map Text.trim := by
  induction ts with
  | nil => rfl
  | cons t ts ih =>
      obtain ⟨htne, hne⟩ := List.forall_mem_cons.mp hne
      obtain ⟨ht, hunsplit⟩ := List.forall_mem_cons.mp hunsplit
      cases ts with
      | nil =>
          rw [List.intercalate_singleton]
          exact splitTopLevel_eq_singleton ht htne
      | cons u us =>
          rw [List.dropLast_cons_of_ne_nil (List.cons_ne_nil u us)] at hend
          obtain ⟨htend, hend⟩ := List.forall_mem_cons.mp hend
          have hsplit : (',' :: g).intercalate (t :: u :: us) =
              t ++ ',' :: (g ++ (',' :: g).intercalate (u :: us)) := by
            simp
          rw [hsplit, splitTopLevel_append ht htend htne, splitTopLevel_blank_append hg,
            ih hne hunsplit hend]
          rfl

end CodeAtlas.Bracket
