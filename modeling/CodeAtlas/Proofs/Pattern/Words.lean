import CodeAtlas.Extraction.Scan
import CodeAtlas.Proofs.Pattern.Choice
import Mathlib.Data.List.TakeWhile

set_option autoImplicit false

/-! # Searching a text stretch by stretch

A search runs over a text character by character. To know its outcome on a text of known shape it is
enough to know it on the stretches that the text is put together from: `Finds p R u w v l` says that
the search for `p`, on its way through the stretch `w` between `u` and `v`, makes one match for each
item of `l`, related to the item by `R`. Such statements compose (`Finds.append`).

Most stretches hold no match at all. A pattern that starts with a keyword matches only at a whole word
that is this keyword (`HeadedBy`), so it passes over every stretch whose words are other ones
(`HeadedBy.passes`). A call site is a name with a parenthesis after it, so it is passed over where no
parenthesis follows (`callSite_passes_name`, `callSite_passes_marks`, `callSite_passes_closed`).
-/

namespace CodeAtlas

/-! ## Words -/

namespace Text

/-- The stretches of word characters between the other characters; some may be empty. -/
def words (t : Text) : List Text := t.splitOnP fun c => !isWord c

theorem words_append_cons (s t : Text) {c : Char} (hc : isWord c = false) :
    words (s ++ c :: t) = words s ++ words t :=
  List.splitOnP_append_cons s t (by simp [hc])

theorem words_eq_singleton {w : Text} (hw : ∀ c ∈ w, isWord c = true) : words w = [w] :=
  List.splitOnP_eq_singleton fun c hc => by simp [hw c hc]

theorem takeWhile_mem_words (t : Text) : t.takeWhile isWord ∈ words t := by
  have hword : ∀ c ∈ t.takeWhile isWord, isWord c = true := fun c hc => List.mem_takeWhile_imp hc
  cases hrest : t.dropWhile isWord with
  | nil =>
      have hall : t.takeWhile isWord = t := by
        conv_rhs => rw [← List.takeWhile_append_dropWhile (p := isWord) (l := t), hrest,
          List.append_nil]
      rw [hall] at hword ⊢
      rw [words_eq_singleton hword]
      exact List.mem_singleton.mpr rfl
  | cons c rest =>
      have hc : isWord c = false := by
        have hhead := List.head?_dropWhile_not isWord t
        rwa [hrest] at hhead
      have hmem : t.takeWhile isWord ∈ words (t.takeWhile isWord ++ c :: rest) := by
        rw [words_append_cons _ _ hc, words_eq_singleton hword]
        exact List.mem_cons_self
      rwa [← hrest, List.takeWhile_append_dropWhile] at hmem

/-- The words of two texts, where no word goes on from one to the other. -/
theorem mem_words_append {a b w : Text}
    (hseam : a.getLast?.any isWord = false ∨ b.head?.any isWord = false) (hw : w ∈ words (a ++ b)) :
    w ∈ words a ∨ w ∈ words b := by
  rcases List.eq_nil_or_concat' a with rfl | ⟨a, c, rfl⟩
  · exact Or.inr hw
  cases b with
  | nil => exact Or.inl (by rwa [List.append_nil] at hw)
  | cons d b =>
      rcases hseam with hc | hd
      · have hc : isWord c = false := by simpa using hc
        rw [List.append_assoc, List.singleton_append, words_append_cons _ _ hc] at hw
        rw [words_append_cons _ _ hc]
        exact (List.mem_append.mp hw).imp_left (List.mem_append_left _)
      · have hd : isWord d = false := by simpa using hd
        rw [words_append_cons _ _ hd] at hw
        rw [← List.nil_append (d :: b), words_append_cons _ _ hd]
        exact (List.mem_append.mp hw).imp_right (List.mem_append_right _)

/-- No word of the text is one of the given words. -/
def Lacks (ws : List Text) (t : Text) : Prop := ∀ w ∈ words t, w ∉ ws

theorem Lacks.mono {ws ws' : List Text} {t : Text} (h : Lacks ws t) (hsub : ws' ⊆ ws) : Lacks ws' t :=
  fun w hw hmem => h w hw (hsub hmem)

theorem Lacks.append {ws : List Text} {s t : Text} (hs : Lacks ws s) (ht : Lacks ws t)
    (hseam : s.getLast?.any isWord = false ∨ t.head?.any isWord = false) : Lacks ws (s ++ t) := by
  intro w hw
  rcases mem_words_append hseam hw with hw | hw
  · exact hs w hw
  · exact ht w hw

theorem lacks_word {ws : List Text} {w : Text} (hw : ∀ c ∈ w, isWord c = true) (hws : w ∉ ws) :
    Lacks ws w := by
  intro x hx
  rw [words_eq_singleton hw, List.mem_singleton] at hx
  rwa [hx]

/-- The words of texts that are put together with a mark between them. -/
theorem lacks_join {ws : List Text} {c : Char} (hc : isWord c = false) (hnil : [] ∉ ws)
    {ts : List Text} (h : ∀ t ∈ ts, Lacks ws t) : Lacks ws ([c].intercalate ts) := by
  induction ts with
  | nil => exact lacks_word (by simp) hnil
  | cons t ts ih =>
      have hrest := ih fun u hu => h u (List.mem_cons_of_mem t hu)
      cases ts with
      | nil =>
          rw [List.intercalate_singleton]
          exact h t List.mem_cons_self
      | cons u us =>
          intro w hw
          rw [List.intercalate_cons_cons, List.append_assoc, List.singleton_append,
            words_append_cons t _ hc] at hw
          rcases List.mem_append.mp hw with hw | hw
          · exact h t List.mem_cons_self w hw
          · exact hrest w hw

/-- No word of the text is one of the given words, and the text does not end within a word. -/
def Avoids (ws : List Text) (t : Text) : Prop :=
  (∀ w ∈ words t, w ∉ ws) ∧ t.getLast?.any isWord = false

theorem Avoids.mono {ws ws' : List Text} {t : Text} (h : Avoids ws t) (hsub : ws' ⊆ ws) :
    Avoids ws' t :=
  ⟨fun w hw hmem => h.1 w hw (hsub hmem), h.2⟩

theorem Avoids.append {ws : List Text} {s t : Text} (hs : Avoids ws s) (ht : Avoids ws t) :
    Avoids ws (s ++ t) := by
  refine ⟨Lacks.append hs.1 ht.1 (Or.inl hs.2), ?_⟩
  rw [List.getLast?_append]
  cases hlast : t.getLast? with
  | none => simpa using hs.2
  | some d => simpa [hlast] using ht.2

/-- A word that is none of the given ones may stand before a text that starts between words. -/
theorem Avoids.word_append {ws : List Text} {w t : Text} (hw : ∀ c ∈ w, isWord c = true)
    (hws : w ∉ ws) (ht : Avoids ws t) (hhead : t.head?.any (fun c => !isWord c) = true) :
    Avoids ws (w ++ t) := by
  obtain ⟨c, t, rfl⟩ : ∃ c t', t = c :: t' := by
    cases t with
    | nil => simp at hhead
    | cons c t => exact ⟨c, t, rfl⟩
  have hc : isWord c = false := by simpa using hhead
  refine ⟨(lacks_word hw hws).append ht.1 (Or.inr hc), ?_⟩
  rw [List.getLast?_append_of_ne_nil _ (List.cons_ne_nil c t)]
  exact ht.2

theorem avoids_nil {ws : List Text} (hnil : [] ∉ ws) : Avoids ws [] :=
  ⟨fun w hw => by rwa [List.mem_singleton.mp hw], rfl⟩

theorem avoids_marks {ws : List Text} {t : Text} (ht : ∀ c ∈ t, isWord c = false)
    (hnil : [] ∉ ws) : Avoids ws t := by
  induction t with
  | nil => exact avoids_nil hnil
  | cons c t ih =>
      have hc : isWord c = false := ht c List.mem_cons_self
      have htail := ih fun d hd => ht d (List.mem_cons_of_mem c hd)
      have hone : Avoids ws [c] := by
        have hwords : words [c] = words [] ++ words [] := words_append_cons [] [] hc
        refine ⟨fun w hw => ?_, by simpa using hc⟩
        rw [hwords] at hw
        rcases List.mem_append.mp hw with hw | hw
        · rwa [List.mem_singleton.mp hw]
        · rwa [List.mem_singleton.mp hw]
      exact hone.append htail

theorem Avoids.flatMap {ws : List Text} {α : Type} {l : List α} {f : α → Text}
    (h : ∀ a ∈ l, Avoids ws (f a)) (hnil : [] ∉ ws) : Avoids ws (l.flatMap f) := by
  induction l with
  | nil => exact avoids_nil hnil
  | cons a l ih =>
      rw [List.flatMap_cons]
      exact (h a List.mem_cons_self).append (ih fun b hb => h b (List.mem_cons_of_mem a hb))

/-- What a search sees of a stretch from a position in it is a word of the stretch, provided that no word
goes on from before the position or beyond the stretch. -/
theorem takeWhile_mem_words_of_split {a b rest : Text} (hb : b ≠ [])
    (ha : a.getLast?.any isWord = false)
    (hseam : (a ++ b).getLast?.any isWord = false ∨ rest.head?.any isWord = false) :
    (b ++ rest).takeWhile isWord ∈ words (a ++ b) := by
  -- The word ends within `b`, or what follows `b` starts with no word character.
  have hstop : (b ++ rest).takeWhile isWord = b.takeWhile isWord := by
    rw [List.takeWhile_append]
    split
    · next hlength =>
      have hall := List.takeWhile_eq_self_iff.mp
        ((List.takeWhile_sublist isWord).eq_of_length hlength)
      have hrest : rest.takeWhile isWord = [] := by
        rcases hseam with hlast | hhead
        · obtain ⟨b, c, rfl⟩ := List.eq_nil_or_concat' b |>.resolve_left hb
          have hc : isWord c = false := by
            rw [← List.append_assoc] at hlast
            simpa using hlast
          rw [hall c (by simp)] at hc
          contradiction
        · cases rest with
          | nil => rfl
          | cons c rest => exact List.takeWhile_cons_of_neg (by simpa using hhead)
      rw [hrest, List.append_nil, List.takeWhile_eq_self_iff.mpr hall]
    · rfl
  rw [hstop]
  induction a using List.reverseRecOn with
  | nil => exact takeWhile_mem_words b
  | append_singleton a c =>
      have hc : isWord c = false := by simpa using ha
      rw [List.append_assoc, List.singleton_append, words_append_cons a b hc]
      exact List.mem_append_right _ (takeWhile_mem_words b)

end Text

namespace Pattern

/-! ## Stretches without a match -/

/-- The search for the pattern passes over the stretch `w` between `u` and `v`. -/
def Passes (p : Pattern) (u w v : Text) : Prop :=
  p.scan 0 u.reverse (w ++ v) = p.scan 0 (u ++ w).reverse v

theorem Passes.findAll_eq_nil {p : Pattern} {t : Text} (h : p.Passes [] t []) :
    p.findAll t = [] := by
  have hscan : p.scan 0 [] (t ++ []) = p.scan 0 t.reverse [] := h
  rw [List.append_nil, Pattern.scan] at hscan
  exact hscan

/-- A walk that moves on where there is no match moves over a stretch in which the pattern fits
nowhere. -/
theorem walk_append {β : Type} {p : Pattern} {walk : Text → Text → β}
    (hwalk : ∀ before c rest, p.matchAt? ⟨before, c :: rest⟩ = none →
      walk before (c :: rest) = walk (c :: before) rest) {u w v : Text}
    (h : ∀ a b, w = a ++ b → b ≠ [] → ∀ t, ¬ p.Fits ⟨⟨(u ++ a).reverse, b ++ v⟩, []⟩ t) :
    walk u.reverse (w ++ v) = walk (u ++ w).reverse v := by
  induction w generalizing u with
  | nil => rw [List.append_nil, List.nil_append]
  | cons c w ih =>
      have hnone : p.matchAt? ⟨u.reverse, c :: (w ++ v)⟩ = none := by
        refine matchAt?_eq_none fun t => ?_
        simpa using h [] (c :: w) rfl (List.cons_ne_nil c w) t
      have hrest := ih (u := u ++ [c]) fun a b hab hb t => by
        simpa using h (c :: a) b (by rw [hab, List.cons_append]) hb t
      rw [List.cons_append, hwalk _ _ _ hnone]
      simpa using hrest

theorem passes_of_forall {p : Pattern} {u w v : Text}
    (h : ∀ a b, w = a ++ b → b ≠ [] → ∀ t, ¬ p.Fits ⟨⟨(u ++ a).reverse, b ++ v⟩, []⟩ t) :
    p.Passes u w v :=
  walk_append (fun _ _ _ hnone => by rw [Pattern.scan, hnone]) h

/-- A search goes on after a stretch in which the pattern fits nowhere. -/
theorem searchFrom_append {p : Pattern} {u w v : Text}
    (h : ∀ a b, w = a ++ b → b ≠ [] → ∀ t, ¬ p.Fits ⟨⟨(u ++ a).reverse, b ++ v⟩, []⟩ t) :
    p.searchFrom u.reverse (w ++ v) = p.searchFrom (u ++ w).reverse v :=
  walk_append (fun _ _ _ hnone => by rw [searchFrom, hnone, Option.none_or]) h

/-! ## Keywords -/

/-- A match of the pattern starts with a whole word that is one of the given words. -/
def HeadedBy (ws : List Text) (p : Pattern) : Prop :=
  ∀ s t, p.Fits s t →
    s.cursor.before.head?.any Text.isWord = false ∧ s.cursor.rest.takeWhile Text.isWord ∈ ws

/-- A pattern that starts with a word of a kind fits nowhere within a stretch of other words. -/
theorem not_fits_of_words {P : Text → Prop} {p : Pattern}
    (hp : ∀ s t, p.Fits s t →
      s.cursor.before.head?.any Text.isWord = false ∧ P (s.cursor.rest.takeWhile Text.isWord))
    {a b v : Text} (hw : ∀ x ∈ Text.words (a ++ b), ¬ P x) (hb : b ≠ [])
    (hseam : (a ++ b).getLast?.any Text.isWord = false ∨ v.head?.any Text.isWord = false) (u : Text)
    (groups : List (Nat × Cursor × Cursor)) (t : MatchState) :
    ¬ p.Fits ⟨⟨(u ++ a).reverse, b ++ v⟩, groups⟩ t := by
  intro ht
  obtain ⟨hbefore, hword⟩ := hp _ _ ht
  have ha : a.getLast?.any Text.isWord = false := by
    cases hlast : a.getLast? with
    | none => rfl
    | some c =>
        simp only [List.head?_reverse, List.getLast?_append, hlast, Option.some_or] at hbefore
        exact hbefore
  exact hw _ (Text.takeWhile_mem_words_of_split hb ha hseam) hword

/-- A search for words of a kind passes over a stretch of other words. -/
theorem passes_of_avoids {P : Text → Prop} {p : Pattern}
    (hp : ∀ s t, p.Fits s t →
      s.cursor.before.head?.any Text.isWord = false ∧ P (s.cursor.rest.takeWhile Text.isWord))
    {w : Text} (hw : ∀ x, P x → Text.Avoids [x] w) (u v : Text) : p.Passes u w v := by
  refine passes_of_forall fun a b hab hb t ht => ?_
  subst hab
  obtain ⟨-, hend⟩ := hw _ (hp _ _ ht).2
  exact not_fits_of_words hp (fun x hx hP => (hw x hP).1 x hx (List.mem_singleton.mpr rfl)) hb
    (Or.inl hend) u [] t ht

/-- A search for keywords passes over a stretch of other words. -/
theorem HeadedBy.passes {ws : List Text} {p : Pattern} (hp : p.HeadedBy ws) {w : Text}
    (hw : Text.Avoids ws w) (u v : Text) : p.Passes u w v :=
  passes_of_avoids hp (fun x hx => hw.mono (by simpa using hx)) u v

/-- A search for keywords finds the first one, after a stretch of other words. -/
theorem HeadedBy.search?_append {ws : List Text} {p : Pattern} (hp : p.HeadedBy ws) {w v : Text}
    (hw : Text.Lacks ws w)
    (hseam : w.getLast?.any Text.isWord = false ∨ v.head?.any Text.isWord = false) {t : MatchState}
    (ht : p.Chooses ⟨⟨w.reverse, v⟩, []⟩ t) :
    p.search? (w ++ v) = some ⟨⟨w.reverse, v⟩, t.cursor, t.groups⟩ := by
  have hstart : p.searchFrom [] (w ++ v) = p.searchFrom w.reverse v :=
    searchFrom_append (u := []) fun a b hab hb t => by
      subst hab
      exact not_fits_of_words hp hw hb hseam [] [] t
  rw [search?, hstart]
  cases v with
  | nil => rw [searchFrom, ht.matchAt?]
  | cons c v => rw [searchFrom, ht.matchAt?, Option.some_or]

/-- A match of keywords starts at a word. -/
theorem HeadedBy.not_fits {ws : List Text} {p : Pattern} (hp : p.HeadedBy ws) (hnil : [] ∉ ws)
    {s : MatchState} (hs : s.cursor.rest.head?.any Text.isWord = false) (t : MatchState) :
    ¬ p.Fits s t := by
  intro h
  have hword := (hp s t h).2
  cases hrest : s.cursor.rest with
  | nil =>
      rw [hrest] at hword
      exact hnil hword
  | cons c rest =>
      rw [hrest] at hs hword
      rw [List.takeWhile_cons_of_neg (by simpa using hs)] at hword
      exact hnil hword

theorem HeadedBy.search?_eq_none {ws : List Text} {p : Pattern} (hp : p.HeadedBy ws) (hnil : [] ∉ ws)
    {t : Text} (ht : Text.Lacks ws t) : p.search? t = none := by
  have hstart : p.searchFrom [] (t ++ []) = p.searchFrom t.reverse [] :=
    searchFrom_append (u := []) fun a b hab hb s => by
      subst hab
      exact not_fits_of_words hp ht hb (Or.inr rfl) [] [] s
  rw [List.append_nil] at hstart
  rw [search?, hstart, searchFrom]
  exact matchAt?_eq_none (hp.not_fits hnil rfl)

/-- A match of a whole word starts with this word. -/
theorem headedBy_wholeWord {w : Text} (hne : w ≠ []) (hw : ∀ c ∈ w, Text.isWord c = true) :
    (wholeWord [w]).HeadedBy [w] := by
  intro s t h
  obtain ⟨s₁, hbefore, s₂, hword, s₃, hafter, -⟩ := by simpa only [wholeWord, fits_all_cons] using h
  have hreads := fits_lit hword
  obtain ⟨c, x, hcx⟩ := List.exists_cons_of_ne_nil hne
  obtain ⟨y, d, hyd⟩ := List.eq_nil_or_concat' w |>.resolve_left hne
  have hc : Text.isWord c = true := hw c (hcx ▸ List.mem_cons_self)
  have hd : Text.isWord d = true := hw d (hyd ▸ by simp)
  cases hbefore with
  | boundary hat =>
  cases hafter with
  | boundary hat' =>
      refine ⟨?_, ?_⟩
      · rw [atBoundary, hreads.1, hcx] at hat
        simpa [hc] using hat
      · rw [atBoundary, hreads.2, hyd] at hat'
        have hstop : s₂.cursor.rest.takeWhile Text.isWord = [] := by
          cases hrest : s₂.cursor.rest with
          | nil => rfl
          | cons e rest =>
              rw [hrest] at hat'
              exact List.takeWhile_cons_of_neg (by simpa [hd] using hat')
        rw [hreads.1, List.takeWhile_append_of_pos hw, hstop, List.append_nil]
        exact List.mem_singleton.mpr rfl

/-- A match of the pattern starts with one of the words, whatever stands before. -/
def Opens (ws : List Text) (p : Pattern) : Prop :=
  ∀ s t, p.Fits s t → s.cursor.rest.takeWhile Text.isWord ∈ ws

theorem Opens.group {ws : List Text} {p : Pattern} (h : p.Opens ws) (n : Nat) :
    (Pattern.group n p).Opens ws := by
  intro s t hfits
  obtain ⟨u, hu, -⟩ := fits_group hfits
  exact h s u hu

/-- What may be left out starts with one of its words, or is left out. -/
theorem Opens.fits_opt {ws : List Text} {p : Pattern} (hp : p.Opens ws) {s t : MatchState}
    (h : (opt p).Fits s t) : s.cursor.rest.takeWhile Text.isWord ∈ ws ∨ t = s := by
  cases h with
  | altLeft h => exact Or.inl (hp s t h)
  | altRight h =>
      cases h
      exact Or.inr rfl

theorem Opens.opt_cons {ws ws' : List Text} {p : Pattern} {l : List Pattern} (hp : p.Opens ws)
    (hl : (all l).Opens ws') : (all (opt p :: l)).Opens (ws ++ ws') := by
  intro s t hfits
  obtain ⟨u, hopt, hrest⟩ := fits_all_cons.mp hfits
  rcases hp.fits_opt hopt with hword | rfl
  · exact List.mem_append_left _ hword
  · exact List.mem_append_right _ (hl u t hrest)

theorem Opens.headedBy_boundary {ws : List Text} {l : List Pattern} (h : (all l).Opens ws)
    (hnil : [] ∉ ws) : (all (.boundary :: l)).HeadedBy ws := by
  intro s t hfits
  obtain ⟨u, hboundary, hrest⟩ := fits_all_cons.mp hfits
  cases hboundary with
  | boundary hat =>
      have hword := h _ _ hrest
      refine ⟨?_, hword⟩
      -- A word starts here, so there is a word character on this side of the boundary.
      cases hcursor : s.cursor.rest with
      | nil =>
          rw [hcursor] at hword
          exact absurd hword hnil
      | cons c rest =>
          rw [hcursor] at hword
          have hc : Text.isWord c = true := by
            by_contra hc
            rw [List.takeWhile_cons_of_neg hc] at hword
            exact hnil hword
          rw [atBoundary, hcursor] at hat
          simpa [hc] using hat

theorem Opens.headedBy_notAfter {ws : List Text} {q : Char → Bool} {l : List Pattern}
    (h : (all l).Opens ws) (hq : ∀ c, Text.isWord c = true → q c = true) :
    (all (.notAfter q :: l)).HeadedBy ws := by
  intro s t hfits
  obtain ⟨u, hnot, hrest⟩ := fits_all_cons.mp hfits
  cases hnot with
  | notAfter hat =>
      refine ⟨?_, h _ _ hrest⟩
      rw [Bool.eq_false_iff, ne_eq, Option.any_eq_true] at hat ⊢
      exact fun ⟨c, hc, hword⟩ => hat ⟨c, hc, hq c hword⟩

/-- A match of the pattern starts with a character that is no word character. -/
def StartsApart (p : Pattern) : Prop :=
  ∀ s t, p.Fits s t → s.cursor.rest.head?.any (fun c => !Text.isWord c) = true

/-- The pattern reads one of the words, and after the word nothing or something apart from it. -/
def Spells (ws : List Text) (p : Pattern) : Prop :=
  ∀ s t, p.Fits s t → ∃ w ∈ ws, ∃ y, s.cursor.Reads (w ++ y) t.cursor ∧
    y.head?.any Text.isWord = false

theorem spells_lit (w : Text) : (lit w).Spells [w] := by
  intro s t h
  exact ⟨w, List.mem_singleton.mpr rfl, [], by simpa using fits_lit h, rfl⟩

theorem Spells.alt {ws ws' : List Text} {p q : Pattern} (hp : p.Spells ws) (hq : q.Spells ws') :
    (Pattern.alt p q).Spells (ws ++ ws') := by
  intro s t h
  cases h with
  | altLeft h =>
      obtain ⟨w, hw, hrest⟩ := hp s t h
      exact ⟨w, List.mem_append_left _ hw, hrest⟩
  | altRight h =>
      obtain ⟨w, hw, hrest⟩ := hq s t h
      exact ⟨w, List.mem_append_right _ hw, hrest⟩

theorem Spells.group {ws : List Text} {p : Pattern} (hp : p.Spells ws) (n : Nat) :
    (Pattern.group n p).Spells ws := by
  intro s t h
  obtain ⟨u, hu, hcursor⟩ := fits_group h
  rw [← hcursor]
  exact hp s u hu

theorem spells_lit_all {w : Text} {l : List Pattern} (hl : (all l).StartsApart) :
    (all (lit w :: l)).Spells [w] := by
  intro s t h
  obtain ⟨u, hw, hrest⟩ := fits_all_cons.mp h
  obtain ⟨y, hy, -⟩ := hrest.reads
  refine ⟨w, List.mem_singleton.mpr rfl, y, (fits_lit hw).trans hy, ?_⟩
  have happart := hl _ _ hrest
  rw [hy.1] at happart
  cases y with
  | nil => rfl
  | cons c y => simpa using happart

/-- A word with something apart from it after it. -/
theorem Spells.opens {ws : List Text} {p : Pattern} {l : List Pattern} (hp : p.Spells ws)
    (hws : ∀ w ∈ ws, ∀ c ∈ w, Text.isWord c = true) (hl : (all l).StartsApart) :
    (all (p :: l)).Opens ws := by
  intro s t h
  obtain ⟨u, hfits, hrest⟩ := fits_all_cons.mp h
  obtain ⟨w, hw, y, hreads, hy⟩ := hp _ _ hfits
  have happart := hl _ _ hrest
  have hstop : (y ++ u.cursor.rest).takeWhile Text.isWord = [] := by
    cases y with
    | nil =>
        cases hcursor : u.cursor.rest with
        | nil => rfl
        | cons c rest =>
            rw [hcursor] at happart
            exact List.takeWhile_cons_of_neg (by simpa using happart)
    | cons c y => exact List.takeWhile_cons_of_neg (by simpa using hy)
  rw [hreads.1, List.append_assoc, List.takeWhile_append_of_pos (hws w hw), hstop, List.append_nil]
  exact hw

/-! ## What stands apart from a word -/

theorem isWord_eq_false_of_isBlank {c : Char} (h : Text.isBlank c = true) :
    Text.isWord c = false := by
  have hwide : ∀ n ∈ [0x85, 0xA0, 0x1680, 0x2028, 0x2029, 0x202F, 0x205F, 0x3000] ++
      List.range' 0x2000 11, Text.inRanges Text.alphanumericRanges n = false := by decide +kernel
  unfold Text.isWord
  split
  · next hascii =>
    have hline : c ≠ '_' := by
      rintro rfl
      exact absurd h (by decide)
    simp only [Text.isBlank, Bool.or_eq_true, beq_iff_eq, Bool.and_eq_true, decide_eq_true_eq] at h
    simp [Text.isAsciiLetter, Text.isAsciiDigit, hline]
    omega
  · next hwider =>
    apply hwide
    simp only [Text.isBlank, Bool.or_eq_true, beq_iff_eq, Bool.and_eq_true, decide_eq_true_eq] at h
    simp only [List.mem_append, List.mem_cons, List.not_mem_nil, List.mem_range'_1]
    omega

theorem StartsApart.all_cons {p : Pattern} (h : p.StartsApart) (l : List Pattern) :
    (all (p :: l)).StartsApart := by
  intro s t hfits
  obtain ⟨u, hp, -⟩ := fits_all_cons.mp hfits
  exact h _ _ hp

theorem startsApart_blanks1 : blanks1.StartsApart := by
  intro s t h
  cases h with
  | seq hone _ =>
      obtain ⟨c, hc, hreads⟩ := fits_one hone
      rw [hreads.1]
      simpa using isWord_eq_false_of_isBlank hc

theorem startsApart_char {c : Char} (hc : Text.isWord c = false) : (char c).StartsApart := by
  intro s t h
  rw [(fits_char h).1]
  simpa using hc

theorem StartsApart.blanks_cons {l : List Pattern} (h : (all l).StartsApart) :
    (all (blanks :: l)).StartsApart := by
  intro s t hfits
  obtain ⟨u, hblanks, hrest⟩ := fits_all_cons.mp hfits
  obtain ⟨w, hblank, hw⟩ := fits_many hblanks
  rw [hw.1]
  cases w with
  | nil => exact h _ _ hrest
  | cons c w => simpa using isWord_eq_false_of_isBlank (hblank c List.mem_cons_self)

/-! ## Stretches with matches -/

/-- The search for the pattern, on its way through `w` between `u` and `v`, makes one match for each
item. -/
def Finds {α : Type} (p : Pattern) (R : α → Match → Prop) (u w v : Text) (l : List α) : Prop :=
  ∃ ms, p.scan 0 u.reverse (w ++ v) = ms ++ p.scan 0 (u ++ w).reverse v ∧ List.Forall₂ R l ms

variable {α : Type} {p : Pattern} {R : α → Match → Prop}

theorem Passes.finds {u w v : Text} (h : p.Passes u w v) : p.Finds R u w v [] :=
  ⟨[], h, .nil⟩

theorem Finds.append {u w w' v : Text} {l l' : List α} (h : p.Finds R u w (w' ++ v) l)
    (h' : p.Finds R (u ++ w) w' v l') : p.Finds R u (w ++ w') v (l ++ l') := by
  obtain ⟨ms, hscan, hms⟩ := h
  obtain ⟨ms', hscan', hms'⟩ := h'
  refine ⟨ms ++ ms', ?_, List.rel_append hms hms'⟩
  rw [List.append_assoc, hscan, hscan', List.append_assoc, List.append_assoc]

theorem scan_skip (p : Pattern) (before w v : Text) :
    p.scan w.length before (w ++ v) = p.scan 0 (w.reverse ++ before) v := by
  induction w generalizing before with
  | nil => rfl
  | cons c w ih =>
      show p.scan w.length (c :: before) (w ++ v) = _
      rw [ih, List.reverse_cons, List.append_assoc]
      rfl

/-- **A search comes to the end of a stretch** if no match that starts in the stretch reaches over it. -/
theorem exists_scan_eq_append {p : Pattern} {skip : Nat} {before w v : Text} (hskip : skip ≤ w.length)
    (h : ∀ m ∈ p.scan skip before (w ++ v), m.start < before.length + w.length →
      m.stop ≤ before.length + w.length) :
    ∃ ms, p.scan skip before (w ++ v) = ms ++ p.scan 0 (w.reverse ++ before) v ∧
      ∀ m ∈ ms, m.start < before.length + w.length := by
  induction w generalizing skip before with
  | nil =>
      obtain rfl : skip = 0 := by simpa using hskip
      exact ⟨[], rfl, by simp⟩
  | cons c w ih =>
      have hlength : before.length + (c :: w).length = (c :: before).length + w.length := by
        simp only [List.length_cons]
        omega
      have hreverse : (c :: w).reverse ++ before = w.reverse ++ c :: before := by simp
      rw [hlength] at h ⊢
      rw [hreverse]
      rw [List.cons_append] at h ⊢
      cases skip with
      | succ skip => exact ih (Nat.le_of_succ_le_succ hskip) h
      | zero =>
          rw [Pattern.scan] at h ⊢
          cases hmatch : p.matchAt? ⟨before, c :: (w ++ v)⟩ with
          | none =>
              rw [hmatch] at h
              exact ih (Nat.zero_le _) h
          | some m =>
              rw [hmatch] at h
              obtain ⟨hm, hms⟩ := List.forall_mem_cons.mp h
              have hstart : m.start = before.length := by
                obtain ⟨hfirst, -⟩ := makes_of_matchAt? hmatch
                rw [Match.start, hfirst, Cursor.pos]
              have hlt : m.start < (c :: before).length + w.length := by
                rw [hstart, List.length_cons]
                omega
              have hstop := hm hlt
              have hrest : m.length - 1 ≤ w.length := by
                rw [List.length_cons] at hstop
                rw [Match.length]
                omega
              obtain ⟨ms, hscan, hstarts⟩ := ih hrest hms
              exact ⟨m :: ms, congrArg (m :: ·) hscan, List.forall_mem_cons.mpr ⟨hlt, hstarts⟩⟩

/-- A first choice that takes the stretch is the match on it. -/
theorem Chooses.finds {u w v : Text} {t : MatchState} {x : α}
    (h : p.Chooses ⟨⟨u.reverse, w ++ v⟩, []⟩ t) (ht : t.cursor = ⟨(u ++ w).reverse, v⟩) (hw : w ≠ [])
    (hx : R x ⟨⟨u.reverse, w ++ v⟩, t.cursor, t.groups⟩) : p.Finds R u w v [x] := by
  refine ⟨_, ?_, .cons hx .nil⟩
  obtain ⟨c, w, rfl⟩ := List.exists_cons_of_ne_nil hw
  have hlength : t.cursor.pos - u.reverse.length - 1 = w.length := by
    rw [ht]
    simp [Cursor.pos]
    omega
  have hmatch := h.matchAt?
  rw [List.cons_append] at hmatch ⊢
  rw [Pattern.scan, hmatch]
  show _ :: p.scan (t.cursor.pos - u.reverse.length - 1) (c :: u.reverse) (w ++ v) = _
  rw [hlength, scan_skip]
  simp

theorem Finds.findAll {t : Text} {l : List α} (h : p.Finds R [] t [] l) :
    List.Forall₂ R l (p.findAll t) := by
  obtain ⟨ms, hscan, hms⟩ := h
  have hall : p.findAll t = ms := by
    simpa [Pattern.findAll, Pattern.scan] using hscan
  rwa [hall]

/-! ## Call sites -/

theorem isNamePart_of_isNameStart {c : Char} (h : isNameStart c = true) : isNamePart c = true := by
  simp only [isNameStart, Bool.or_eq_true, beq_iff_eq] at h
  rcases h with (h | rfl) | rfl
  · simp [isNamePart, Text.isWord_of_isAsciiLetter h]
  · decide
  · decide

theorem isNamePart_eq_false_of_isBlank {c : Char} (h : Text.isBlank c = true) :
    isNamePart c = false := by
  have hdollar : c ≠ '$' := by
    rintro rfl
    exact absurd h (by decide)
  simp [isNamePart, isWord_eq_false_of_isBlank h, hdollar]

theorem fits_callSite {s t : MatchState} (h : callSite.Fits s t) :
    ∃ c n b r, s.cursor.rest = c :: n ++ (b ++ '(' :: r) ∧ isNameStart c = true ∧
      (∀ d ∈ n, isNamePart d = true) ∧ ∀ d ∈ b, Text.isBlank d = true := by
  simp only [callSite, fits_all_cons] at h
  obtain ⟨t₁, hbefore, t₂, hname, t₃, hblanks, t₄, hparen, -⟩ := h
  obtain ⟨u, hname, hcursor⟩ := fits_group hname
  obtain ⟨b, hblank, hb⟩ := fits_many hblanks
  cases hbefore
  cases hname with
  | seq hone hmany =>
      obtain ⟨c, hc, hfirst⟩ := fits_one hone
      obtain ⟨n, hpart, hn⟩ := fits_many hmany
      refine ⟨c, n, b, t₄.cursor.rest, ?_, hc, hpart, hblank⟩
      have hread := ((hfirst.trans hn).trans (hcursor ▸ hb)).trans (fits_char hparen)
      simpa using hread.1

/-- Characters that start no name hold no call site. -/
theorem callSite_passes_marks {w : Text} (hw : ∀ c ∈ w, isNameStart c = false) (u v : Text) :
    callSite.Passes u w v := by
  refine passes_of_forall fun a b hab hb t ht => ?_
  obtain ⟨c, n, bl, r, hrest, hc, -⟩ := fits_callSite ht
  obtain ⟨d, b, rfl⟩ := List.exists_cons_of_ne_nil hb
  obtain rfl : d = c := (List.cons_eq_cons.mp hrest).1
  have hd := hw d (hab ▸ by simp)
  rw [hc] at hd
  contradiction

/-- A name is no call site if what follows it, blanks apart, is no parenthesis. -/
theorem callSite_passes_name {w v : Text} (hw : ∀ c ∈ w, isNamePart c = true)
    (hv : v.head?.any isNamePart = false) (hnext : (v.dropWhile Text.isBlank).head? ≠ some '(')
    (u : Text) : callSite.Passes u w v := by
  refine passes_of_forall fun a b hab hb t ht => hnext ?_
  obtain ⟨c, n, bl, r, hrest, hc, hn, hbl⟩ := fits_callSite ht
  have hname : ∀ d ∈ c :: n, isNamePart d = true :=
    List.forall_mem_cons.mpr ⟨isNamePart_of_isNameStart hc, hn⟩
  -- Both sides go on with what is left after the characters of names.
  have hdrop := congrArg (List.dropWhile isNamePart) hrest
  rw [List.dropWhile_append_of_pos (fun d hd => hw d (hab ▸ List.mem_append_right a hd)),
    List.dropWhile_append_of_pos hname] at hdrop
  have hleft : v.dropWhile isNamePart = v := by
    cases v with
    | nil => rfl
    | cons d v => exact List.dropWhile_cons_of_neg (by simpa using hv)
  have hright : (bl ++ '(' :: r).dropWhile isNamePart = bl ++ '(' :: r := by
    cases bl with
    | nil => exact List.dropWhile_cons_of_neg (by decide)
    | cons d bl =>
        have hd := isNamePart_eq_false_of_isBlank (hbl d List.mem_cons_self)
        exact List.dropWhile_cons_of_neg (by simp [hd])
  rw [hleft, hright] at hdrop
  rw [hdrop, List.dropWhile_append_of_pos hbl, List.dropWhile_cons_of_neg (by decide)]
  rfl

/-- A stretch without a parenthesis holds no call site if neither a name nor blanks reach to its
end. -/
theorem callSite_passes_closed {w : Text} {c : Char} (hparen : '(' ∉ w ++ [c])
    (hc : isNamePart c = false) (hblank : Text.isBlank c = false) (u v : Text) :
    callSite.Passes u (w ++ [c]) v := by
  refine passes_of_forall fun a b hab hb t ht => ?_
  obtain ⟨d, n, bl, r, hrest, hd, hn, hbl⟩ := fits_callSite ht
  -- The stretch ends before the parenthesis, hence within the name or the blanks.
  have hlast : c ∈ b := by
    obtain ⟨b, e, rfl⟩ := List.eq_nil_or_concat' b |>.resolve_left hb
    rw [← List.append_assoc] at hab
    rw [(List.append_inj' hab rfl).2 |> List.singleton_inj.mp]
    simp
  have hmem : c ∈ d :: n ++ bl := by
    rw [← List.append_assoc] at hrest
    rcases List.append_eq_append_iff.mp hrest with ⟨x, hx, -⟩ | ⟨x, hx, hx'⟩
    · exact hx ▸ List.mem_append_left x hlast
    · -- What is left of the stretch would start with the parenthesis.
      cases x with
      | nil => rwa [hx, List.append_nil] at hlast
      | cons e x =>
          obtain rfl : '(' = e := (List.cons_eq_cons.mp hx').1
          exact absurd (hab ▸ List.mem_append_right a (hx ▸ by simp)) hparen
  simp only [List.cons_append, List.mem_cons, List.mem_append] at hmem
  rcases hmem with rfl | hmem | hmem
  · rw [isNamePart_of_isNameStart hd] at hc
    contradiction
  · rw [hn c hmem] at hc
    contradiction
  · rw [hbl c hmem] at hblank
    contradiction

/-- A name with a parenthesis after it is a call site. -/
theorem chooses_callSite {u v : Text} {c : Char} {n : Text} (hu : u.getLast?.any isNamePart = false)
    (hc : isNameStart c = true) (hn : ∀ d ∈ n, isNamePart d = true) :
    callSite.Chooses ⟨⟨u.reverse, c :: n ++ ['('] ++ v⟩, []⟩
      ⟨⟨(u ++ (c :: n ++ ['('])).reverse, v⟩,
        [(1, ⟨u.reverse, c :: n ++ ['('] ++ v⟩, ⟨(u ++ c :: n).reverse, '(' :: v⟩)]⟩ := by
  have hname : Pattern.identifier.Chooses ⟨⟨u.reverse, c :: (n ++ '(' :: v)⟩, []⟩
      ⟨⟨n.reverse ++ c :: u.reverse, '(' :: v⟩, []⟩ :=
    (chooses_one hc).seq (chooses_many hn rfl)
  have hblanks : blanks.Chooses
      ⟨⟨n.reverse ++ c :: u.reverse, [] ++ '(' :: v⟩,
        [(1, ⟨u.reverse, c :: (n ++ '(' :: v)⟩, ⟨n.reverse ++ c :: u.reverse, '(' :: v⟩)]⟩
      ⟨⟨[] ++ (n.reverse ++ c :: u.reverse), '(' :: v⟩,
        [(1, ⟨u.reverse, c :: (n ++ '(' :: v)⟩, ⟨n.reverse ++ c :: u.reverse, '(' :: v⟩)]⟩ :=
    chooses_many (by simp) rfl
  have hbefore : u.reverse.head?.any isNamePart = false := by rwa [List.head?_reverse]
  have hall := (chooses_notAfter hbefore).all_cons <| (hname.group 1).all_cons <|
    hblanks.all_cons <| (chooses_char '(').all_cons (chooses_all_nil _)
  simpa [callSite] using hall

end Pattern

end CodeAtlas
