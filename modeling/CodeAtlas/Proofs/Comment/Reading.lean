import CodeAtlas.Proofs.Comment.Literal
import CodeAtlas.Proofs.Text.Trim

set_option autoImplicit false

/-! # Reading a text as tokens

`lexeme?` tells what starts at a position. It is characterised once, for the two styles of this
library: when nothing starts here (`lexeme?_eq_none_iff`), and what it is if something does
(`lexeme?_eq_some_cases`). `Lexes style before t ts` is the reading of a whole text as a derivation,
one rule a token; it agrees with `tokensFrom` (`lexes_tokensFrom`, `Lexes.tokensFrom_eq`).

A text without quotes and slashes is read character by character, so both of its views are the text
itself (`code_of_plain`, `outline_of_plain`).
-/

namespace CodeAtlas.CommentStyle

/-! ## The first token -/

/-- The styles of this library: they differ only in whether there are regular-expression literals. -/
def family (regexLiterals : Bool) : CommentStyle := { regexLiterals := regexLiterals }

/-- Nothing follows on the line. -/
def AtLineEnd (t : Text) : Prop := t = [] ∨ t.head? = some '\n'

theorem atLineEnd_dropWhile (t : Text) : AtLineEnd (t.dropWhile (· != '\n')) := by
  have hhead := List.head?_dropWhile_not (· != '\n') t
  cases hrest : (t.dropWhile (· != '\n')).head? with
  | none => exact Or.inl (List.head?_eq_none_iff.mp hrest)
  | some c =>
      rw [hrest] at hhead
      have hc : c = '\n' := by simpa using hhead
      exact Or.inr (by rw [hrest, hc])

theorem quoted?_eq_some_iff {regex : Bool} {t : Text} {token : Token} :
    quoted? (family regex) t = some token ↔ ∃ q r, t = q :: r ∧ IsQuote q ∧
      token = .quoted (q :: quotedRest q (q == '\x60') r) := by
  cases t with
  | nil => simp [quoted?]
  | cons q r =>
      have hquotes : (family regex).quotes.contains q = true ↔ IsQuote q := by
        simp [family, IsQuote]
      simp only [quoted?, Option.ite_none_right_eq_some, hquotes, Option.some_inj, List.cons.injEq]
      constructor
      · rintro ⟨hq, rfl⟩
        exact ⟨q, r, ⟨rfl, rfl⟩, hq, rfl⟩
      · rintro ⟨q, r, ⟨rfl, rfl⟩, hq, rfl⟩
        exact ⟨hq, rfl⟩

/-- A comment starts with a slash and ends with one or where its line ends. -/
def IsComment (w rest : Text) : Prop :=
  w.head? = some '/' ∧ (w.getLast? = some '/' ∨ AtLineEnd rest)

theorem isComment_of_block? {regex : Bool} {t : Text} {token : Token}
    (h : block? (family regex) t = some token) :
    ∃ w rest, token = .comment w ∧ t = w ++ rest ∧ IsComment w rest := by
  simp only [block?, Option.ite_none_right_eq_some, Option.some_inj] at h
  obtain ⟨hopen, rfl⟩ := h
  obtain ⟨inner, rfl⟩ := List.isPrefixOf_iff_prefix.mp hopen
  have hdrop : ((family regex).blockOpen ++ inner).drop (family regex).blockOpen.length = inner :=
    List.drop_left
  rw [hdrop]
  cases hfind : Text.find? (family regex).blockClose inner with
  | none =>
      refine ⟨'/' :: '*' :: inner, [], ?_, by simp [family], rfl, Or.inr (Or.inl rfl)⟩
      have hall : List.take (max 1 ((family regex).blockOpen ++ inner).length)
          ((family regex).blockOpen ++ inner) = (family regex).blockOpen ++ inner :=
        List.take_of_length_le (le_max_right _ _)
      rw [hall]
      rfl
  | some j =>
      -- The closing mark is found `j` characters after the opening one.
      obtain ⟨rest, hinner⟩ : ∃ rest, inner = inner.take j ++ '*' :: '/' :: rest :=
        Text.exists_append_of_find? hfind
      have hlength : (inner.take j).length = j := by
        have htotal := congrArg List.length hinner
        rw [List.length_append, List.length_take, List.length_cons, List.length_cons] at htotal
        rw [List.length_take]
        omega
      set w := '/' :: '*' :: (inner.take j ++ ['*', '/']) with hw
      have ht : (family regex).blockOpen ++ inner = w ++ rest := by
        conv_lhs => rw [hinner]
        simp [hw, family]
      have hwlength : max 1 ((family regex).blockOpen.length + j + (family regex).blockClose.length) =
          w.length := by
        simp [hw, family, hlength]
        omega
      refine ⟨w, rest, ?_, ht, rfl, Or.inl (by simp [hw, List.getLast?_cons])⟩
      show Token.comment (List.take _ _) = Token.comment w
      rw [hwlength, ht, List.take_left]

theorem isComment_of_line? {regex : Bool} {t : Text} {token : Token}
    (h : line? (family regex) t = some token) :
    ∃ w rest, token = .comment w ∧ t = w ++ rest ∧ IsComment w rest := by
  simp only [line?, Option.ite_none_right_eq_some, Option.ite_none_left_eq_some, Option.some_inj]
    at h
  obtain ⟨hmark, -, rfl⟩ := h
  obtain ⟨inner, rfl⟩ := List.isPrefixOf_iff_prefix.mp hmark
  rw [List.drop_left]
  refine ⟨_, inner.dropWhile (· != '\n'), rfl, ?_, rfl, Or.inr (atLineEnd_dropWhile inner)⟩
  rw [List.append_assoc, List.takeWhile_append_dropWhile]

/-- Two characters that open a comment. -/
def OpensComment (t : Text) : Prop := ∃ c r, t = '/' :: c :: r ∧ (c = '/' ∨ c = '*')

theorem isSome_comment_iff {regex : Bool} {t : Text} :
    ((block? (family regex) t).or (line? (family regex) t)).isSome = true ↔ OpensComment t := by
  have hblock : (block? (family regex) t).isSome = true ↔ ∃ r, t = '/' :: '*' :: r := by
    simp only [block?, Option.isSome_ite, List.isPrefixOf_iff_prefix]
    exact exists_congr fun r => eq_comm
  have hline : (line? (family regex) t).isSome = true ↔ ∃ r, t = '/' :: '/' :: r := by
    have hne : ∀ u : Text, ((family regex).lineMark ++ u).isEmpty = false := fun u => rfl
    simp only [line?, hne, Bool.false_eq_true, if_false, Option.isSome_ite,
      List.isPrefixOf_iff_prefix]
    exact exists_congr fun r => eq_comm
  rw [Option.isSome_or, Bool.or_eq_true, hblock, hline]
  constructor
  · rintro (⟨r, rfl⟩ | ⟨r, rfl⟩)
    · exact ⟨'*', r, rfl, Or.inr rfl⟩
    · exact ⟨'/', r, rfl, Or.inl rfl⟩
  · rintro ⟨c, r, rfl, rfl | rfl⟩
    · exact Or.inr ⟨r, rfl⟩
    · exact Or.inl ⟨r, rfl⟩

/-- **When nothing but a plain character stands here.** -/
theorem lexeme?_eq_none_iff {regex : Bool} {before t : Text} {c : Char} :
    lexeme? (family regex) before (c :: t) = none ↔
      ¬ IsQuote c ∧ (regex = true → regex? before (c :: t) = none) ∧ ¬ OpensComment (c :: t) := by
  have hquoted : quoted? (family regex) (c :: t) = none ↔ ¬ IsQuote c := by
    rw [Option.eq_none_iff_forall_ne_some]
    constructor
    · intro h hc
      exact h _ (quoted?_eq_some_iff.mpr ⟨c, t, rfl, hc, rfl⟩)
    · intro hc token h
      obtain ⟨q, r, heq, hq, -⟩ := quoted?_eq_some_iff.mp h
      obtain ⟨rfl, -⟩ := List.cons_eq_cons.mp heq
      exact hc hq
  have hregex : (if (family regex).regexLiterals = true then regex? before (c :: t) else none) = none ↔
      (regex = true → regex? before (c :: t) = none) := by
    show (if regex = true then _ else _) = _ ↔ _
    cases regex <;> simp
  rw [lexeme?, Option.or_eq_none_iff, Option.or_eq_none_iff, hquoted, hregex, ← isSome_comment_iff,
    Bool.not_eq_true, Option.isSome_eq_false_iff, Option.isNone_iff_eq_none]

/-- What may stand here. -/
theorem lexeme?_eq_some_cases {regex : Bool} {before t : Text} {token : Token}
    (h : lexeme? (family regex) before t = some token) :
    (∃ q r, t = q :: r ∧ IsQuote q ∧ token = .quoted (q :: quotedRest q (q == '\x60') r)) ∨
      (regex = true ∧ regex? before t = some token) ∨
      ∃ w rest, token = .comment w ∧ t = w ++ rest ∧ IsComment w rest := by
  simp only [lexeme?, Option.or_eq_some_iff, Option.ite_none_right_eq_some] at h
  rcases h with h | ⟨-, ⟨hregex, h⟩ | ⟨-, h | ⟨-, h⟩⟩⟩
  · exact Or.inl (quoted?_eq_some_iff.mp h)
  · exact Or.inr (Or.inl ⟨hregex, h⟩)
  · exact Or.inr (Or.inr (isComment_of_block? h))
  · exact Or.inr (Or.inr (isComment_of_line? h))

/-! ## Reading as a derivation -/

/-- The tokens of a text, one after another. -/
inductive Lexes (style : CommentStyle) : Text → Text → List Token → Prop where
  | done (before : Text) : Lexes style before [] []
  | plain {before rest : Text} {c : Char} {ts : List Token}
      (h : lexeme? style before (c :: rest) = none) (hrest : Lexes style (c :: before) rest ts) :
      Lexes style before (c :: rest) (.plain c :: ts)
  | lexeme {before rest : Text} {token : Token} {ts : List Token} (hne : token.source ≠ [])
      (h : lexeme? style before (token.source ++ rest) = some token)
      (hrest : Lexes style (token.source.reverse ++ before) rest ts) :
      Lexes style before (token.source ++ rest) (token :: ts)

theorem tokensFrom_append (style : CommentStyle) (w before t : Text) :
    tokensFrom style w.length before (w ++ t) = tokensFrom style 0 (w.reverse ++ before) t := by
  induction w generalizing before with
  | nil => rfl
  | cons c w ih =>
      show tokensFrom style w.length (c :: before) (w ++ t) = _
      rw [ih, List.reverse_cons, List.append_assoc]
      rfl

theorem tokensFrom_lexeme {style : CommentStyle} {before t : Text} {token : Token}
    (hne : token.source ≠ []) (h : lexeme? style before (token.source ++ t) = some token) :
    tokensFrom style 0 before (token.source ++ t) =
      token :: tokensFrom style 0 (token.source.reverse ++ before) t := by
  obtain ⟨c, w, hsource⟩ := List.exists_cons_of_ne_nil hne
  rw [hsource, List.cons_append] at h ⊢
  rw [tokensFrom, h]
  -- The first character is at hand and the others are passed over.
  show token :: tokensFrom style (token.source.length - 1) (c :: before) (w ++ t) = _
  rw [hsource, List.length_cons, Nat.add_sub_cancel, tokensFrom_append, List.reverse_cons,
    List.append_assoc]
  rfl

theorem lexes_tokensFrom (style : CommentStyle) (before t : Text) :
    Lexes style before t (tokensFrom style 0 before t) := by
  induction hn : t.length using Nat.strong_induction_on generalizing before t with
  | h n ih =>
      cases t with
      | nil => exact .done before
      | cons c t =>
          cases htoken : lexeme? style before (c :: t) with
          | none =>
              rw [tokensFrom, htoken]
              exact .plain htoken (ih t.length (by rw [← hn]; simp) (c :: before) t rfl)
          | some token =>
              obtain ⟨⟨rest, hrest⟩, hne⟩ := lexeme?_leads htoken
              rw [← hrest] at htoken ⊢
              rw [tokensFrom_lexeme hne htoken]
              refine .lexeme hne htoken (ih rest.length ?_ _ rest rfl)
              have hpos := List.length_pos_iff.mpr hne
              rw [← hn, ← hrest, List.length_append]
              omega

theorem Lexes.tokensFrom_eq {style : CommentStyle} {before t : Text} {ts : List Token}
    (h : Lexes style before t ts) : tokensFrom style 0 before t = ts := by
  induction h with
  | done => rfl
  | plain h _ ih => rw [tokensFrom, h, ← ih]
  | lexeme hne h _ ih => rw [tokensFrom_lexeme hne h, ih]

/-- The tokens are read from the text, so each view of the rest is a blanked text. -/
theorem Lexes.blanked {style : CommentStyle} {before t : Text} {ts : List Token}
    (h : Lexes style before t ts) {view : Token → Text}
    (hview : ∀ token : Token, Blanked token.source (view token)) : Blanked t (ts.flatMap view) := by
  have hsource := flatMap_source_tokensFrom style 0 before t
  rw [h.tokensFrom_eq, List.drop_zero] at hsource
  have hblanked := Blanked.flatMap hview ts
  rwa [hsource] at hblanked

/-! ## Views -/

/-- One of the two views. -/
def IsView (view : Token → Text) : Prop := view = Token.code ∨ view = Token.outline

theorem IsView.plain {view : Token → Text} (h : IsView view) (c : Char) : view (.plain c) = [c] := by
  rcases h with rfl | rfl <;> rfl

theorem IsView.comment {view : Token → Text} (h : IsView view) (t : Text) :
    view (.comment t) = blankOut t := by
  rcases h with rfl | rfl <;> rfl

theorem IsView.blanked {view : Token → Text} (h : IsView view) (token : Token) :
    Blanked token.source (view token) := by
  rcases h with rfl | rfl
  · exact token.blanked_code
  · exact token.blanked_code.trans token.blanked_outline

/-- Blanks are what they look like in either view. -/
theorem flatMap_plain {view : Token → Text} (hview : IsView view) (t : Text) :
    (t.map Token.plain).flatMap view = t := by
  induction t with
  | nil => rfl
  | cons c t ih => rw [List.map_cons, List.flatMap_cons, hview.plain, ih]; rfl

/-! ## Plain texts -/

/-- No comment opens in the text. -/
def Uncommented (t : Text) : Prop := ∀ u, u <:+ t → ¬ OpensComment u

theorem uncommented_of_notMem {t : Text} (h : '/' ∉ t) : Uncommented t := by
  rintro u hu ⟨c, r, rfl, -⟩
  exact h (hu.subset List.mem_cons_self)

theorem uncommented_of_not_infix {t : Text} (hline : ¬ "//".toList <:+: t)
    (hblock : ¬ "/*".toList <:+: t) : Uncommented t := by
  rintro u hu ⟨c, r, rfl, rfl | rfl⟩
  · exact hline (List.IsInfix.trans ⟨[], r, rfl⟩ hu.isInfix)
  · exact hblock (List.IsInfix.trans ⟨[], r, rfl⟩ hu.isInfix)

theorem uncommented_cons {c : Char} {t : Text} :
    Uncommented (c :: t) ↔ ¬ OpensComment (c :: t) ∧ Uncommented t := by
  constructor
  · intro h
    exact ⟨h _ (List.suffix_refl _), fun u hu => h u (hu.trans (List.suffix_cons c t))⟩
  · rintro ⟨hopen, ht⟩ u hu
    rcases List.suffix_cons_iff.mp hu with rfl | hu
    · exact hopen
    · exact ht u hu

/-- Two texts are put together without a comment if the seam opens none. -/
theorem Uncommented.append {s t : Text} (hs : Uncommented s) (ht : Uncommented t)
    (hseam : s.getLast? ≠ some '/' ∨ t.head?.any (fun c => c == '/' || c == '*') = false) :
    Uncommented (s ++ t) := by
  induction s with
  | nil => exact ht
  | cons c s ih =>
      obtain ⟨hopen, hs⟩ := uncommented_cons.mp hs
      cases s with
      | nil =>
          refine uncommented_cons.mpr ⟨?_, ht⟩
          rintro ⟨d, r, heq, hd⟩
          obtain ⟨rfl, rfl⟩ := List.cons_eq_cons.mp heq
          rcases hseam with hlast | hhead
          · exact hlast rfl
          · rcases hd with rfl | rfl <;> simp at hhead
      | cons d s =>
          refine uncommented_cons.mpr ⟨?_, ih hs (by rwa [List.getLast?_cons_cons] at hseam)⟩
          rintro ⟨e, r, heq, he⟩
          obtain ⟨rfl, hrest⟩ := List.cons_eq_cons.mp heq
          obtain ⟨rfl, -⟩ := List.cons_eq_cons.mp hrest
          exact hopen ⟨d, s, rfl, he⟩

theorem lexes_uncommented {regex : Bool} {t : Text} (hquote : ∀ c ∈ t, ¬ IsQuote c)
    (hcomment : Uncommented t) (hregex : regex = true → '/' ∉ t) (before : Text) :
    Lexes (family regex) before t (t.map .plain) := by
  induction t generalizing before with
  | nil => exact .done before
  | cons c t ih =>
      obtain ⟨hc, hquote⟩ := List.forall_mem_cons.mp hquote
      have htail : Uncommented t := fun u hu => hcomment u (hu.trans (List.suffix_cons c t))
      refine .plain (lexeme?_eq_none_iff.mpr ⟨hc, fun htrue => ?_, hcomment _ (List.suffix_refl _)⟩)
        (ih hquote htail (fun htrue hmem => hregex htrue (List.mem_cons_of_mem c hmem)) (c :: before))
      -- A literal is made of slashes.
      rw [Option.eq_none_iff_forall_ne_some]
      intro token htoken
      obtain ⟨-, lead, body, flags, rest, heq, -⟩ := regex?_eq_some_iff.mp htoken
      exact hregex htrue (heq ▸ by simp)

theorem lexes_plain {regex : Bool} {t : Text} (h : ∀ c ∈ t, ¬ IsQuote c ∧ c ≠ '/') (before : Text) :
    Lexes (family regex) before t (t.map .plain) := by
  have hslash : '/' ∉ t := fun hmem => (h '/' hmem).2 rfl
  exact lexes_uncommented (fun c hc => (h c hc).1) (uncommented_of_notMem hslash) (fun _ => hslash) before

theorem code_of_plain (regex : Bool) {t : Text} (h : ∀ c ∈ t, ¬ IsQuote c ∧ c ≠ '/') :
    (family regex).code t = t := by
  show (tokensFrom (family regex) 0 [] t).flatMap Token.code = t
  rw [(lexes_plain h []).tokensFrom_eq, flatMap_plain (Or.inl rfl)]

theorem outline_of_plain (regex : Bool) {t : Text} (h : ∀ c ∈ t, ¬ IsQuote c ∧ c ≠ '/') :
    (family regex).outline t = t := by
  show (tokensFrom (family regex) 0 [] t).flatMap Token.outline = t
  rw [(lexes_plain h []).tokensFrom_eq, flatMap_plain (Or.inr rfl)]

/-- Where there are no literals of regular expressions, a slash alone is a plain character. -/
theorem outline_of_uncommented {t : Text} (hquote : ∀ c ∈ t, ¬ IsQuote c) (hcomment : Uncommented t) :
    (family false).outline t = t := by
  show (tokensFrom (family false) 0 [] t).flatMap Token.outline = t
  rw [(lexes_uncommented hquote hcomment (by simp) []).tokensFrom_eq, flatMap_plain (Or.inr rfl)]

end CodeAtlas.CommentStyle
