import CodeAtlas.Proofs.Comment.Alignment
import Mathlib.Data.List.TakeWhile

set_option autoImplicit false

/-! # The inside of a literal

A string literal is its opening quote, a body of ordinary characters and escapes, and its closing
quote unless it is left open. A regular-expression literal is a body between slashes. For both the
scanner is a recursive function on the text that follows the opening mark; here the bodies are
described as inductive predicates, `IsBody` and `IsRegexBody`, which do not mention what follows.
Reading back what such a body and its end spell gives the body (`quotedRest_closed`,
`quotedRest_open`, `regexBody?_append`), whatever stands after it, and nothing else is ever read
(`exists_isBody`, `isRegexBody_of_regexBody?`).

The outline keeps the closing quote of a string and tells it by counting the backslashes before it.
That this is the quote at which reading stopped is `isClosed_concat` and `IsBody.isClosed_eq_false`.
-/

namespace CodeAtlas

/-! ## Blanks -/

theorem blankOut_append (s t : Text) : blankOut (s ++ t) = blankOut s ++ blankOut t :=
  List.map_append

theorem eq_of_mem_blankOut {t : Text} {c : Char} (h : c ∈ blankOut t) : c = ' ' ∨ c = '\n' := by
  obtain ⟨d, -, rfl⟩ := List.mem_map.mp h
  by_cases hd : d = '\n'
  · simp [hd]
  · simp [hd]

theorem lineFeed_mem_blankOut {t : Text} (h : '\n' ∈ blankOut t) : '\n' ∈ t := by
  obtain ⟨d, hd, heq⟩ := List.mem_map.mp h
  by_cases hline : d = '\n'
  · exact hline ▸ hd
  · simp [hline] at heq

theorem blankOut_blankOut (t : Text) : blankOut (blankOut t) = blankOut t := by
  unfold blankOut
  rw [List.map_map]
  refine List.map_congr_left fun c _ => ?_
  by_cases hc : c = '\n'
  · simp [hc]
  · simp [hc]

namespace CommentStyle

/-! ## The inside of a string -/

/-- A character that opens strings. -/
def IsQuote (q : Char) : Prop := q = '"' ∨ q = '\'' ∨ q = '\x60'

instance (q : Char) : Decidable (IsQuote q) := inferInstanceAs (Decidable (_ ∨ _ ∨ _))

theorem IsQuote.ne {q c : Char} (hq : IsQuote q) (hc : ¬ IsQuote c) : q ≠ c := by
  rintro rfl
  exact hc hq

/-- Ordinary characters and escapes: what a string may hold before it is closed or left open. -/
inductive IsBody (q : Char) (template : Bool) : Text → Prop where
  | nil : IsBody q template []
  | escape {d : Char} {t : Text} (hd : template = true ∨ d ≠ '\n') (ht : IsBody q template t) :
      IsBody q template ('\\' :: d :: t)
  | ordinary {c : Char} {t : Text} (hquote : c ≠ q) (hslash : c ≠ '\\')
      (hline : c = '\n' → template = true) (ht : IsBody q template t) : IsBody q template (c :: t)

/-- A string that is not closed ends here: at the end of the text, or at the end of the line
unless it is a template. A backslash that has nothing to escape does not belong to it. -/
def Stops (template : Bool) (t : Text) : Prop :=
  t = [] ∨ t = ['\\'] ∨ template = false ∧ (t.head? = some '\n' ∨ ∃ r, t = '\\' :: '\n' :: r)

variable {q : Char} {template : Bool}

theorem quotedRest_ordinary {c : Char} (hquote : c ≠ q) (hslash : c ≠ '\\')
    (hline : c = '\n' → template = true) (t : Text) :
    quotedRest q template (c :: t) = c :: quotedRest q template t := by
  have hstop : ¬ (c = '\n' ∧ template = false) := by
    rintro ⟨hc, htemplate⟩
    rw [hline hc] at htemplate
    contradiction
  rw [quotedRest.eq_3 q template c t (fun _ _ h => absurd h hslash)]
  simp [hquote, hslash, hstop]

theorem quotedRest_escape {d : Char} (hd : template = true ∨ d ≠ '\n') (t : Text) :
    quotedRest q template ('\\' :: d :: t) = '\\' :: d :: quotedRest q template t := by
  rw [quotedRest]
  simp [hd]

/-- A body and the quote that closes it. -/
theorem quotedRest_closed (hq : IsQuote q) {w : Text} (hw : IsBody q template w) (t : Text) :
    quotedRest q template (w ++ q :: t) = w ++ [q] := by
  induction hw with
  | nil =>
      have hslash : q ≠ '\\' := hq.ne (by simp [IsQuote])
      rw [List.nil_append, quotedRest.eq_3 q template q t (fun _ _ h => absurd h hslash)]
      simp
  | escape hd _ ih => rw [List.cons_append, List.cons_append, quotedRest_escape hd, ih]; rfl
  | ordinary hquote hslash hline _ ih =>
      rw [List.cons_append, quotedRest_ordinary hquote hslash hline, ih]; rfl

theorem quotedRest_of_stops (hq : IsQuote q) {t : Text} (ht : Stops template t) :
    quotedRest q template t = [] := by
  have hslash : q ≠ '\\' := hq.ne (by simp [IsQuote])
  have hline : q ≠ '\n' := hq.ne (by simp [IsQuote])
  obtain rfl | rfl | ⟨rfl, ht | ⟨r, rfl⟩⟩ := ht
  · rfl
  · simp [quotedRest, hslash.symm]
  · obtain ⟨c, t, rfl⟩ : ∃ c r, t = c :: r := by
      cases t with
      | nil => simp at ht
      | cons c t => exact ⟨c, t, rfl⟩
    obtain rfl : c = '\n' := by simpa using ht
    simp [quotedRest, hline.symm]
  · simp [quotedRest, hslash]

/-- A body that is left open. -/
theorem quotedRest_open (hq : IsQuote q) {w t : Text} (hw : IsBody q template w)
    (ht : Stops template t) : quotedRest q template (w ++ t) = w := by
  induction hw with
  | nil => exact quotedRest_of_stops hq ht
  | escape hd _ ih => rw [List.cons_append, List.cons_append, quotedRest_escape hd, ih]
  | ordinary hquote hslash hline _ ih =>
      rw [List.cons_append, quotedRest_ordinary hquote hslash hline, ih]

/-- What follows an opening quote is a body, closed or left open. -/
theorem exists_isBody (hq : IsQuote q) (template : Bool) (t : Text) :
    ∃ w r, IsBody q template w ∧
      (t = w ++ q :: r ∧ quotedRest q template t = w ++ [q] ∨
        t = w ++ r ∧ quotedRest q template t = w ∧ Stops template r) := by
  fun_induction quotedRest q template t with
  | case1 => exact ⟨[], [], .nil, Or.inr ⟨rfl, rfl, Or.inl rfl⟩⟩
  | case2 d t hd ih =>
      obtain ⟨w, r, hw, hcases⟩ := ih
      refine ⟨'\\' :: d :: w, r, .escape (by simpa using hd) hw, ?_⟩
      rcases hcases with ⟨rfl, hrest⟩ | ⟨rfl, hrest, hstops⟩
      · exact Or.inl ⟨rfl, by rw [hrest]; rfl⟩
      · exact Or.inr ⟨rfl, by rw [hrest], hstops⟩
  | case3 d t _ hslash => exact absurd (by simpa using hslash) (hq.ne (by simp [IsQuote]))
  | case4 d t hd =>
      have hd : template = false ∧ d = '\n' := by simpa using hd
      obtain ⟨rfl, rfl⟩ := hd
      exact ⟨[], _, .nil, Or.inr ⟨rfl, rfl, Or.inr (Or.inr ⟨rfl, Or.inr ⟨t, rfl⟩⟩)⟩⟩
  | case5 c t _ hc =>
      obtain rfl : c = q := by simpa using hc
      exact ⟨[], t, .nil, Or.inl ⟨rfl, rfl⟩⟩
  | case6 c t hlast hc hstop =>
      refine ⟨[], _, .nil, Or.inr ⟨rfl, rfl, ?_⟩⟩
      have hstop : c = '\\' ∨ c = '\n' ∧ template = false := by simpa using hstop
      rcases hstop with rfl | ⟨rfl, rfl⟩
      · -- A backslash with a character after it would have been an escape.
        cases t with
        | nil => exact Or.inr (Or.inl rfl)
        | cons d t => exact absurd rfl (hlast d t rfl)
      · exact Or.inr (Or.inr ⟨rfl, Or.inl rfl⟩)
  | case7 c t _ hc hstop ih =>
      obtain ⟨w, r, hw, hcases⟩ := ih
      have hquote : c ≠ q := by simpa using hc
      have hplain : c ≠ '\\' ∧ (c = '\n' → template = true) := by simpa using hstop
      refine ⟨c :: w, r, .ordinary hquote hplain.1 hplain.2 hw, ?_⟩
      rcases hcases with ⟨rfl, hrest⟩ | ⟨rfl, hrest, hstops⟩
      · exact Or.inl ⟨rfl, by rw [hrest]; rfl⟩
      · exact Or.inr ⟨rfl, by rw [hrest], hstops⟩

theorem IsBody.template_of_mem {w : Text} (hw : IsBody q template w) (hline : '\n' ∈ w) :
    template = true := by
  induction hw with
  | nil => simp at hline
  | escape hd _ ih =>
      rcases List.mem_cons.mp hline with hfalse | hline
      · exact absurd hfalse (by decide)
      · rcases List.mem_cons.mp hline with rfl | hline
        · exact hd.resolve_right (fun hne => hne rfl)
        · exact ih hline
  | ordinary _ _ htemplate _ ih =>
      rcases List.mem_cons.mp hline with heq | hline
      · exact htemplate heq.symm
      · exact ih hline

/-- Blanks are ordinary, so a blanked text may stand in a string, on several lines in a template. -/
theorem isBody_blankOut (hq : IsQuote q) {t : Text} (ht : '\n' ∈ t → template = true) :
    IsBody q template (blankOut t) := by
  have hblanks : ∀ c ∈ blankOut t, c = ' ' ∨ c = '\n' ∧ template = true := by
    intro c hc
    rcases eq_of_mem_blankOut hc with rfl | rfl
    · exact Or.inl rfl
    · exact Or.inr ⟨rfl, ht (lineFeed_mem_blankOut hc)⟩
  generalize blankOut t = w at hblanks
  induction w with
  | nil => exact .nil
  | cons c w ih =>
      obtain ⟨hc, hw⟩ := List.forall_mem_cons.mp hblanks
      have hplain : ¬ IsQuote c ∧ c ≠ '\\' := by
        rcases hc with rfl | ⟨rfl, -⟩ <;> simp [IsQuote]
      refine .ordinary (hq.ne hplain.1).symm hplain.2 (fun hline => ?_) (ih hw)
      rcases hc with rfl | ⟨-, htemplate⟩
      · exact absurd hline (by decide)
      · exact htemplate

/-! ## Closed strings -/

/-- The number of backslashes at the end of a text. -/
def trailing (t : Text) : Nat := (t.reverse.takeWhile (· == '\\')).length

theorem trailing_cons_of_ne {c : Char} (hc : c ≠ '\\') (t : Text) :
    trailing (c :: t) = trailing t := by
  unfold trailing
  rw [List.reverse_cons, List.takeWhile_append]
  split
  · next hall => simp [hc, hall]
  · rfl

theorem trailing_concat_backslash (t : Text) : trailing (t ++ ['\\']) = trailing t + 1 := by
  simp [trailing]

/-- Backslashes at the end of a body come in pairs. -/
theorem IsBody.trailing_even {w : Text} (hw : IsBody q template w) : trailing w % 2 = 0 := by
  induction hw with
  | nil => rfl
  | @escape d t _ _ ih =>
      by_cases hd : d = '\\'
      · -- The pair counts only if nothing but backslashes follows.
        subst hd
        unfold trailing at ih ⊢
        rw [List.reverse_cons, List.reverse_cons, List.append_assoc, List.takeWhile_append]
        split
        · next hall =>
          rw [hall] at ih
          simpa using ih
        · exact ih
      · have hpair : trailing ('\\' :: d :: t) = trailing t := by
          unfold trailing
          rw [List.reverse_cons, List.reverse_cons, List.append_assoc, List.takeWhile_append]
          split
          · next hall => simp [hd, hall]
          · rfl
        rw [hpair, ih]
  | ordinary _ hslash _ _ ih => rw [trailing_cons_of_ne hslash, ih]

/-- A body that ends with the quote ends with an escape. -/
theorem IsBody.exists_escape {w : Text} (hw : IsBody q template w) (hlast : w.getLast? = some q) :
    ∃ v, IsBody q template v ∧ w = v ++ ['\\', q] := by
  induction hw with
  | nil => simp at hlast
  | @escape d t hd _ ih =>
      cases t with
      | nil =>
          obtain rfl : d = q := by simpa using hlast
          exact ⟨[], .nil, rfl⟩
      | cons e t =>
          obtain ⟨v, hv, heq⟩ := ih (by simpa using hlast)
          exact ⟨'\\' :: d :: v, .escape hd hv, by rw [heq]; rfl⟩
  | @ordinary c t hquote hslash hline _ ih =>
      cases t with
      | nil => exact absurd (by simpa using hlast) hquote
      | cons e t =>
          obtain ⟨v, hv, heq⟩ := ih (by simpa using hlast)
          exact ⟨c :: v, .ordinary hquote hslash hline hv, by rw [heq]; rfl⟩

theorem isClosed_eq (hq : IsQuote q) (t : Text) :
    Token.isClosed q t = (t.getLast? == some q && trailing t.dropLast % 2 == 0) := by
  have hslash : q ≠ '\\' := hq.ne (by simp [IsQuote])
  have hcons := trailing_cons_of_ne hslash t.dropLast
  unfold Token.isClosed
  rw [← hcons]
  rfl

/-- **A string counts as closed exactly if reading it ended at its closing quote.** -/
theorem isClosed_concat (hq : IsQuote q) {w : Text} (hw : IsBody q template w) :
    Token.isClosed q (w ++ [q]) = true := by
  rw [isClosed_eq hq]
  simp [hw.trailing_even]

theorem IsBody.isClosed_eq_false (hq : IsQuote q) {w : Text} (hw : IsBody q template w) :
    Token.isClosed q w = false := by
  rw [isClosed_eq hq]
  by_cases hlast : w.getLast? = some q
  · obtain ⟨v, hv, rfl⟩ := hw.exists_escape hlast
    have hdrop : (v ++ ['\\', q]).dropLast = v ++ ['\\'] := by simp
    have heven := hv.trailing_even
    rw [hdrop, trailing_concat_backslash]
    have hodd : (trailing v + 1) % 2 = 1 := by omega
    simp [hodd]
  · simp [hlast]

/-- A string with its contents blanked, closed and left open. -/
theorem blankQuoted_closed (hq : IsQuote q) {w : Text} (hw : IsBody q template w) :
    Token.blankQuoted (q :: (w ++ [q])) = q :: (blankOut w ++ [q]) := by
  simp [Token.blankQuoted, isClosed_concat hq hw]

theorem blankQuoted_open (hq : IsQuote q) {w : Text} (hw : IsBody q template w) :
    Token.blankQuoted (q :: w) = q :: blankOut w := by
  simp [Token.blankQuoted, hw.isClosed_eq_false hq]

/-! ## The body of a regular expression -/

/-- What a regular-expression literal may hold, in a bracketed class or outside of one. -/
inductive IsRegexBody : Bool → Text → Prop where
  | nil : IsRegexBody false []
  | escape {inClass : Bool} {d : Char} {t : Text} (hd : d ≠ '\n') (ht : IsRegexBody inClass t) :
      IsRegexBody inClass ('\\' :: d :: t)
  | inside {c : Char} {t : Text} (hline : c ≠ '\n') (hslash : c ≠ '\\')
      (ht : IsRegexBody (c != ']') t) : IsRegexBody true (c :: t)
  | outside {c : Char} {t : Text} (hline : c ≠ '\n') (hslash : c ≠ '\\') (hend : c ≠ '/')
      (ht : IsRegexBody (c == '[') t) : IsRegexBody false (c :: t)

theorem regexBody?_append {inClass : Bool} {w : Text} (hw : IsRegexBody inClass w) (t : Text) :
    regexBody? inClass (w ++ '/' :: t) = some w := by
  induction hw with
  | nil => rfl
  | escape hd _ ih =>
      rw [List.cons_append, List.cons_append, regexBody?]
      simp [hd, ih]
  | @inside c u hline hslash _ ih =>
      rw [List.cons_append, regexBody?.eq_3 true c _ (fun _ _ h => absurd h hslash)]
      simp [hline, hslash, ih]
  | @outside c u hline hslash hend _ ih =>
      rw [List.cons_append, regexBody?.eq_3 false c _ (fun _ _ h => absurd h hslash)]
      simp [hline, hslash, hend, ih]

theorem isRegexBody_of_regexBody? {inClass : Bool} {t w : Text} (h : regexBody? inClass t = some w) :
    IsRegexBody inClass w := by
  fun_induction regexBody? inClass t generalizing w with
  | case1 => simp at h
  | case2 => simp at h
  | case3 inClass d t hd ih =>
      obtain ⟨v, hv, rfl⟩ := Option.map_eq_some_iff.mp h
      exact .escape (by simpa using hd) (ih hv)
  | case4 => simp at h
  | case5 c t _ hstop ih =>
      obtain ⟨v, hv, rfl⟩ := Option.map_eq_some_iff.mp h
      have hplain : c ≠ '\n' ∧ c ≠ '\\' := by simpa using hstop
      exact .inside hplain.1 hplain.2 (ih hv)
  | case6 inClass c t _ _ hout _ =>
      obtain rfl := Option.some_inj.mp h
      obtain rfl : inClass = false := by simpa using hout
      exact .nil
  | case7 inClass c t _ hstop hout hend ih =>
      obtain ⟨v, hv, rfl⟩ := Option.map_eq_some_iff.mp h
      obtain rfl : inClass = false := by simpa using hout
      have hplain : c ≠ '\n' ∧ c ≠ '\\' := by simpa using hstop
      exact .outside hplain.1 hplain.2 (by simpa using hend) (ih hv)

theorem IsRegexBody.lineFeed_notMem {inClass : Bool} {w : Text} (hw : IsRegexBody inClass w) :
    '\n' ∉ w := by
  induction hw with
  | nil => simp
  | escape hd _ ih => simp [hd.symm, ih]
  | inside hline _ _ ih => simp [hline.symm, ih]
  | outside hline _ _ _ ih => simp [hline.symm, ih]

/-- A literal is closed on its line. -/
theorem regexBody?_eq_none {inClass : Bool} {t : Text} (h : '/' ∉ t.takeWhile (· != '\n')) :
    regexBody? inClass t = none := by
  cases hbody : regexBody? inClass t with
  | none => rfl
  | some w =>
      obtain ⟨r, rfl⟩ := regexBody?_isPrefix hbody
      have hline := (isRegexBody_of_regexBody? hbody).lineFeed_notMem
      have hall : ∀ c ∈ w ++ ['/'], (c != '\n') = true := by
        intro c hc
        rcases List.mem_append.mp hc with hc | hc
        · simpa using fun heq : c = '\n' => hline (heq ▸ hc)
        · simp [List.mem_singleton.mp hc]
      rw [List.takeWhile_append_of_pos hall] at h
      exact absurd (by simp) h

/-- White space that may stand before the slash of a literal and belongs to it. -/
def isLead (c : Char) : Bool := c == ' ' || c == '\t'

/-- **When a regular-expression literal starts here.** -/
theorem regex?_eq_some_iff {before t : Text} {token : Token} :
    regex? before t = some token ↔ operandExpected before = true ∧
      ∃ lead body flags rest, t = lead ++ '/' :: (body ++ '/' :: (flags ++ rest)) ∧
        (∀ c ∈ lead, isLead c = true) ∧ IsRegexBody false body ∧ body ≠ [] ∧
        body.head? ≠ some '*' ∧ (∀ c ∈ flags, Text.isAsciiLetter c = true) ∧
        rest.head?.any Text.isAsciiLetter = false ∧
        token = .regex (lead ++ ['/']) body ('/' :: flags) := by
  constructor
  · intro h
    simp only [regex?, Option.ite_none_right_eq_some] at h
    obtain ⟨hoperand, h⟩ := h
    refine ⟨hoperand, ?_⟩
    set lead := t.takeWhile fun c => c == ' ' || c == '\t' with hlead
    split at h
    · next inner hinner =>
      split at h
      · next body hbody =>
        simp only [Option.ite_none_left_eq_some, Option.some_inj] at h
        obtain ⟨hne, rfl⟩ := h
        have hne : body ≠ [] ∧ body.head? ≠ some '*' := by simpa using hne
        obtain ⟨r, hr⟩ := regexBody?_isPrefix hbody
        have hsplit : lead ++ t.drop lead.length = t :=
          List.prefix_iff_eq_append.mp (List.takeWhile_prefix _)
        have hdrop : inner.drop (body.length + 1) = r := by
          rw [← hr, List.drop_left' (by simp)]
        refine ⟨lead, body, r.takeWhile Text.isAsciiLetter, r.dropWhile Text.isAsciiLetter, ?_, ?_,
          isRegexBody_of_regexBody? hbody, hne.1, hne.2, ?_, ?_, ?_⟩
        · rw [List.takeWhile_append_dropWhile, ← hsplit, hinner, ← hr]
          simp
        · exact fun c hc => List.mem_takeWhile_imp (hlead ▸ hc)
        · exact fun c hc => List.mem_takeWhile_imp hc
        · have hhead := List.head?_dropWhile_not Text.isAsciiLetter r
          cases hrest : (r.dropWhile Text.isAsciiLetter).head? with
          | none => rfl
          | some c =>
              rw [hrest] at hhead
              exact hhead
        · rw [hdrop]
      · simp at h
    · simp at h
  · rintro ⟨hoperand, lead, body, flags, rest, rfl, hlead, hbody, hne, hstar, hflags, hrest, rfl⟩
    have hspace : (lead ++ '/' :: (body ++ '/' :: (flags ++ rest))).takeWhile
        (fun c => c == ' ' || c == '\t') = lead := by
      have hlead : ∀ c ∈ lead, (c == ' ' || c == '\t') = true := hlead
      rw [List.takeWhile_append_of_pos hlead]
      simp
    have htake : (flags ++ rest).takeWhile Text.isAsciiLetter = flags := by
      rw [List.takeWhile_append_of_pos fun c hc => hflags c hc]
      cases rest with
      | nil => simp
      | cons c u =>
          have hc : Text.isAsciiLetter c = false := by simpa using hrest
          simp [hc]
    have hdrop : (body ++ '/' :: (flags ++ rest)).drop (body.length + 1) = flags ++ rest := by
      rw [← List.singleton_append, ← List.append_assoc, List.drop_left' (by simp)]
    simp only [regex?, if_pos hoperand, hspace, List.drop_left, regexBody?_append hbody, hdrop, htake]
    simp [hne, hstar]

end CommentStyle

end CodeAtlas
