import CodeAtlas.Proofs.Comment.Reading

set_option autoImplicit false

/-! # The grammar of comments and literals

The scanner of the C family is a few functions that search, count and drop characters. Here the same
language is given by a grammar, without a function that reads.

* A `Lexeme` is a comment, a literal or a character, taken apart: what it holds, and whether it is
  closed. Its two views are told from its parts, so nothing has to be found again in it.
* `Lexeme.Stands` has one rule for each kind of lexeme. A rule tells what the lexeme holds and how the
  text goes on after it, since an open literal and a line comment end where they cannot go on.
* `Factors t ls` cuts a text into lexemes from left to right.

Every text is cut in exactly one way, and the views of the text are those of its lexemes
(`CommentStyle.views_of_factors`). That a text is cut at all is shown from the rules
(`exists_factors`). That it is cut in one way only goes through the scanner: it reads the lexemes of
every factorisation (`Factors.tokens_eq`), and a lexeme is found again in its token
(`Lexeme.Stands.parts_token`).
-/

namespace CodeAtlas

open CommentStyle

/-- A piece of a source text with its parts. -/
inductive Lexeme where
  /-- A comment up to the end of the line. -/
  | line (body : Text)
  | block (body : Text) (closed : Bool)
  /-- A string or a template. -/
  | literal (q : Char) (body : Text) (closed : Bool)
  | other (c : Char)

namespace Lexeme

/-! ## What a lexeme looks like -/

/-- The characters of a lexeme. -/
def source : Lexeme → Text
  | line body => '/' :: '/' :: body
  | block body closed => '/' :: '*' :: (body ++ if closed then ['*', '/'] else [])
  | literal q body closed => q :: (body ++ if closed then [q] else [])
  | other c => [c]

/-- The lexeme in the code: a comment is blanked as a whole. -/
def code : Lexeme → Text
  | line body => blankOut (line body).source
  | block body closed => blankOut (block body closed).source
  | literal q body closed => (literal q body closed).source
  | other c => [c]

/-- The lexeme in the outline: of a literal the quotes stay. -/
def outline : Lexeme → Text
  | line body => blankOut (line body).source
  | block body closed => blankOut (block body closed).source
  | literal q body closed => q :: (blankOut body ++ if closed then [q] else [])
  | other c => [c]

/-! ## Where a lexeme stands -/

/-- A literal opened by `q` goes on neither with its closing quote nor with anything it could hold. -/
def CannotGoOn (q : Char) (template : Bool) (rest : Text) : Prop :=
  rest.head? ≠ some q ∧ ∀ w, IsBody q template w → w <+: rest → w = []

/-- The lexeme may be followed by this rest of the text. -/
inductive Stands : Lexeme → Text → Prop where
  | line {body rest : Text} (hbody : '\n' ∉ body) (hrest : AtLineEnd rest) :
      Stands (.line body) rest
  /-- The closing mark does not begin before the body ends. -/
  | block {body rest : Text}
      (hfirst : ∀ i < body.length, ¬ ['*', '/'] <+: (body ++ '*' :: '/' :: rest).drop i) :
      Stands (.block body true) rest
  | openBlock {body : Text} (hnever : ¬ ['*', '/'] <:+: body) : Stands (.block body false) []
  | literal {q : Char} {body : Text} (rest : Text) (hq : IsQuote q)
      (hbody : IsBody q (q == '\x60') body) : Stands (.literal q body true) rest
  | openLiteral {q : Char} {body rest : Text} (hq : IsQuote q)
      (hbody : IsBody q (q == '\x60') body) (hrest : CannotGoOn q (q == '\x60') rest) :
      Stands (.literal q body false) rest
  | other {c : Char} {rest : Text} (hquote : ¬ IsQuote c) (hcomment : ¬ OpensComment (c :: rest)) :
      Stands (.other c) rest

theorem CannotGoOn.stops {q : Char} {template : Bool} {rest : Text}
    (h : CannotGoOn q template rest) : Stops template rest := by
  obtain ⟨hquote, hmore⟩ := h
  cases rest with
  | nil => exact Or.inl rfl
  | cons c rest =>
      have hc : c ≠ q := by simpa using hquote
      by_cases hslash : c = '\\'
      · subst hslash
        cases rest with
        | nil => exact Or.inr (Or.inl rfl)
        | cons d rest =>
            -- A backslash with a character to escape would belong to the literal.
            have hd : ¬ (template = true ∨ d ≠ '\n') := by
              intro hd
              have hpair := hmore ['\\', d] (.escape hd .nil) ⟨rest, rfl⟩
              contradiction
            obtain ⟨htemplate, rfl⟩ : template = false ∧ d = '\n' := by simpa using hd
            exact Or.inr (Or.inr ⟨htemplate, Or.inr ⟨rest, rfl⟩⟩)
      · have hline : ¬ (c = '\n' → template = true) := by
          intro hline
          have hone := hmore [c] (.ordinary hc hslash hline .nil) ⟨rest, rfl⟩
          contradiction
        obtain ⟨rfl, htemplate⟩ : c = '\n' ∧ template = false := by simpa using hline
        exact Or.inr (Or.inr ⟨htemplate, Or.inl rfl⟩)

theorem cannotGoOn_of_stops {q : Char} {template : Bool} {rest : Text} (hq : IsQuote q)
    (h : Stops template rest) : CannotGoOn q template rest := by
  -- What could go on would be read.
  have hrest := quotedRest_of_stops hq h
  constructor
  · intro hhead
    obtain ⟨r, rfl⟩ := List.head?_eq_some_iff.mp hhead
    have hread : quotedRest q template (q :: r) = [q] := quotedRest_closed hq .nil r
    rw [hread] at hrest
    contradiction
  · rintro w hw ⟨r, rfl⟩
    cases hw with
    | nil => rfl
    | escape hd _ =>
        rw [List.cons_append, List.cons_append, quotedRest_escape hd] at hrest
        contradiction
    | ordinary hquote hslash hline _ =>
        rw [List.cons_append, quotedRest_ordinary hquote hslash hline] at hrest
        contradiction

/-! ## Some lexeme stands at every position -/

theorem exists_line (t : Text) :
    ∃ body rest, t = body ++ rest ∧ Stands (.line body) rest := by
  refine ⟨t.takeWhile (· != '\n'), t.dropWhile (· != '\n'), List.takeWhile_append_dropWhile.symm,
    .line (fun hmem => ?_) (atLineEnd_dropWhile t)⟩
  have hne := List.mem_takeWhile_imp hmem
  simp at hne

theorem exists_block (t : Text) :
    ∃ body closed rest, '/' :: '*' :: t = (block body closed).source ++ rest ∧
      Stands (.block body closed) rest := by
  cases hfind : Text.find? ['*', '/'] t with
  | none =>
      exact ⟨t, false, [], by simp [source], .openBlock (Text.find?_eq_none_iff.mp hfind)⟩
  | some j =>
      obtain ⟨-, hfirst⟩ := Text.find?_eq_some_iff.mp hfind
      obtain ⟨rest, ht⟩ : ∃ rest, t = t.take j ++ '*' :: '/' :: rest :=
        Text.exists_append_of_find? hfind
      refine ⟨t.take j, true, rest, ?_, .block fun i hi => ?_⟩
      · conv_lhs => rw [ht]
        simp [source]
      · rw [← ht]
        apply hfirst
        rw [List.length_take] at hi
        omega

theorem exists_literal {q : Char} (hq : IsQuote q) (t : Text) :
    ∃ body closed rest, q :: t = (literal q body closed).source ++ rest ∧
      Stands (.literal q body closed) rest := by
  obtain ⟨body, rest, hbody, ⟨ht, -⟩ | ⟨ht, -, hstops⟩⟩ := exists_isBody hq (q == '\x60') t
  · exact ⟨body, true, rest, by simp [source, ht], .literal rest hq hbody⟩
  · exact ⟨body, false, rest, by simp [source, ht],
      .openLiteral hq hbody (cannotGoOn_of_stops hq hstops)⟩

/-- **A text that is not empty starts with a lexeme.** -/
theorem exists_stands (c : Char) (t : Text) :
    ∃ (l : Lexeme) (rest : Text), c :: t = l.source ++ rest ∧ l.Stands rest := by
  by_cases hq : IsQuote c
  · obtain ⟨body, closed, rest, heq, h⟩ := exists_literal hq t
    exact ⟨.literal c body closed, rest, heq, h⟩
  · by_cases hcomment : OpensComment (c :: t)
    · obtain ⟨d, t', heq, rfl | rfl⟩ := hcomment
      · obtain ⟨body, rest, rfl, h⟩ := exists_line t'
        exact ⟨.line body, rest, heq, h⟩
      · obtain ⟨body, closed, rest, hsource, h⟩ := exists_block t'
        exact ⟨.block body closed, rest, heq.trans hsource, h⟩
    · exact ⟨.other c, t, rfl, .other hq hcomment⟩

/-! ## The scanner reads the lexeme that stands -/

/-- The token with the characters of the lexeme. -/
def token : Lexeme → Token
  | line body => .comment (line body).source
  | block body closed => .comment (block body closed).source
  | literal q body closed => .quoted (literal q body closed).source
  | other c => .plain c

theorem source_token (l : Lexeme) : l.token.source = l.source := by
  cases l <;> rfl

theorem source_ne_nil (l : Lexeme) : l.source ≠ [] := by
  cases l <;> exact List.cons_ne_nil _ _

theorem lexeme?_slash (before t : Text) :
    lexeme? cFamily before ('/' :: t) = (block? cFamily ('/' :: t)).or (line? cFamily ('/' :: t)) :=
  rfl

theorem lexeme?_line {body rest : Text} (hbody : '\n' ∉ body) (hrest : AtLineEnd rest)
    (before : Text) :
    lexeme? cFamily before ((line body).source ++ rest) = some (line body).token := by
  have htake : (body ++ rest).takeWhile (· != '\n') = body := by
    have hall : ∀ c ∈ body, (c != '\n') = true := fun c hc => by
      simpa using fun heq : c = '\n' => hbody (heq ▸ hc)
    rw [List.takeWhile_append_of_pos hall]
    obtain rfl | hhead := hrest
    · simp
    · obtain ⟨r, rfl⟩ := List.head?_eq_some_iff.mp hhead
      simp
  have hline : line? cFamily ('/' :: '/' :: (body ++ rest)) =
      some (.comment ('/' :: '/' :: (body ++ rest).takeWhile (· != '\n'))) := rfl
  show lexeme? cFamily before ('/' :: '/' :: (body ++ rest)) = _
  rw [lexeme?_slash, hline, htake]
  rfl

/-- A block comment up to its first closing mark. -/
theorem lexeme?_block {body rest : Text}
    (hfirst : ∀ i < body.length, ¬ ['*', '/'] <+: (body ++ '*' :: '/' :: rest).drop i)
    (before : Text) :
    lexeme? cFamily before ((block body true).source ++ rest) = some (block body true).token := by
  have hfind : Text.find? ['*', '/'] (body ++ '*' :: '/' :: rest) = some body.length := by
    refine Text.find?_eq_some_iff.mpr ⟨?_, hfirst⟩
    rw [List.drop_left]
    exact ⟨rest, rfl⟩
  have hsource : (block body true).source ++ rest = '/' :: '*' :: (body ++ '*' :: '/' :: rest) := by
    simp [source]
  have htake : ('/' :: '*' :: (body ++ '*' :: '/' :: rest)).take (2 + body.length + 2) =
      (block body true).source := by
    rw [← hsource]
    exact List.take_left' (by simp [source]; omega)
  have hblock : block? cFamily ('/' :: '*' :: (body ++ '*' :: '/' :: rest)) =
      some (block body true).token := by
    simp [block?, cFamily, hfind, htake, token]
  rw [hsource, lexeme?_slash, hblock]
  rfl

theorem lexeme?_openBlock {body : Text} (hnever : ¬ ['*', '/'] <:+: body) (before : Text) :
    lexeme? cFamily before ((block body false).source ++ []) = some (block body false).token := by
  have hfind : Text.find? ['*', '/'] body = none := Text.find?_eq_none_iff.mpr hnever
  have hblock : block? cFamily ('/' :: '*' :: body) = some (block body false).token := by
    simp [block?, cFamily, hfind, token, source]
  have hsource : (block body false).source ++ [] = '/' :: '*' :: body := by simp [source]
  rw [hsource, lexeme?_slash, hblock]
  rfl

theorem lexeme?_literal {q : Char} {body rest : Text} {closed : Bool} (hq : IsQuote q)
    (hread : quotedRest q (q == '\x60') (body ++ (if closed then [q] else []) ++ rest) =
      body ++ if closed then [q] else []) (before : Text) :
    lexeme? cFamily before ((literal q body closed).source ++ rest) =
      some (literal q body closed).token := by
  have hquoted : quoted? cFamily (q :: (body ++ (if closed then [q] else []) ++ rest)) =
      some (literal q body closed).token :=
    quoted?_eq_some_iff.mpr ⟨q, _, rfl, hq, by rw [hread]; rfl⟩
  show lexeme? cFamily before (q :: (body ++ (if closed then [q] else []) ++ rest)) = _
  rw [lexeme?, hquoted]
  rfl

/-- The scanner takes the lexeme that stands here for its token. -/
def IsRead (l : Lexeme) (before rest : Text) : Prop :=
  lexeme? cFamily before (l.source ++ rest) = some l.token ∨
    lexeme? cFamily before (l.source ++ rest) = none ∧ ∃ c, l = .other c

theorem Stands.isRead {l : Lexeme} {rest : Text} (h : l.Stands rest) (before : Text) :
    l.IsRead before rest := by
  cases h with
  | line hbody hrest => exact Or.inl (lexeme?_line hbody hrest before)
  | block hfirst => exact Or.inl (lexeme?_block hfirst before)
  | openBlock hnever => exact Or.inl (lexeme?_openBlock hnever before)
  | literal rest hq hbody =>
      refine Or.inl (lexeme?_literal hq ?_ before)
      simpa using quotedRest_closed hq hbody rest
  | openLiteral hq hbody hrest =>
      refine Or.inl (lexeme?_literal hq ?_ before)
      simpa using quotedRest_open hq hbody hrest.stops
  | @other c _ hquote hcomment =>
      have hnone : lexeme? (family false) before (c :: rest) = none :=
        lexeme?_eq_none_iff.mpr ⟨hquote, by simp, hcomment⟩
      exact Or.inr ⟨hnone, c, rfl⟩

theorem Stands.outline_token {l : Lexeme} {rest : Text} (h : l.Stands rest) :
    l.token.outline = l.outline := by
  cases h with
  | line | block | openBlock | other => rfl
  | literal rest hq hbody => exact blankQuoted_closed hq hbody
  | @openLiteral q body _ hq hbody _ =>
      have hsource : (Lexeme.literal q body false).source = q :: body := by simp [source]
      show Token.blankQuoted (Lexeme.literal q body false).source = _
      rw [hsource, blankQuoted_open hq hbody]
      simp [outline]

theorem code_token (l : Lexeme) : l.token.code = l.code := by
  cases l <;> rfl

end Lexeme

/-! ## The parts of a token -/

/-- What the characters of a token tell about its parts. -/
def Token.parts : Token → Lexeme
  | .comment ('/' :: '*' :: t) =>
    if ['*', '/'] <:+ t then .block (t.take (t.length - 2)) true else .block t false
  | .comment t => .line (t.drop 2)
  | .quoted (q :: t) =>
    if Token.isClosed q t then .literal q t.dropLast true else .literal q t false
  | .plain c => .other c
  -- No lexeme has such a token.
  | .quoted [] | .regex _ _ _ => .line []

theorem Lexeme.Stands.parts_token {l : Lexeme} {rest : Text} (h : l.Stands rest) :
    l.token.parts = l := by
  cases h with
  | line | other => rfl
  | @block body _ _ => simp [Lexeme.token, Lexeme.source, Token.parts]
  | @openBlock body hnever =>
      have hopen : ¬ ['*', '/'] <:+ body := fun h => hnever h.isInfix
      simp [Lexeme.token, Lexeme.source, Token.parts, hopen]
  | literal rest hq hbody =>
      simp [Lexeme.token, Lexeme.source, Token.parts, isClosed_concat hq hbody]
  | openLiteral hq hbody _ =>
      simp [Lexeme.token, Lexeme.source, Token.parts, hbody.isClosed_eq_false hq]

/-! ## Factorisations -/

/-- A text cut into lexemes from left to right. -/
inductive Factors : Text → List Lexeme → Prop where
  | done : Factors [] []
  | next {l : Lexeme} {rest t : Text} {ls : List Lexeme} (ht : t = l.source ++ rest)
      (hl : l.Stands rest) (hrest : Factors rest ls) : Factors t (l :: ls)

theorem exists_factors (t : Text) : ∃ ls, Factors t ls := by
  induction hn : t.length using Nat.strong_induction_on generalizing t with
  | h n ih =>
      cases t with
      | nil => exact ⟨[], .done⟩
      | cons c t =>
          obtain ⟨l, rest, heq, hl⟩ := Lexeme.exists_stands c t
          have hshort : rest.length < n := by
            have hpos := List.length_pos_iff.mpr l.source_ne_nil
            rw [← hn, heq, List.length_append]
            omega
          obtain ⟨ls, hls⟩ := ih rest.length hshort rest rfl
          exact ⟨l :: ls, .next heq hl hls⟩

namespace Factors

variable {t : Text} {ls : List Lexeme}

/-- **The scanner reads the lexemes of a factorisation**, one after another. -/
theorem lexes (h : Factors t ls) (before : Text) :
    Lexes cFamily before t (ls.map Lexeme.token) := by
  induction h generalizing before with
  | done => exact .done before
  | @next l rest t ls ht hl _ ih =>
      subst ht
      rcases hl.isRead before with hread | ⟨hnone, c, rfl⟩
      · rw [← l.source_token] at hread ⊢
        exact .lexeme (by rw [l.source_token]; exact l.source_ne_nil) hread (ih _)
      · exact .plain hnone (ih (c :: before))

theorem tokens_eq (h : Factors t ls) : cFamily.tokens t = ls.map Lexeme.token :=
  (h.lexes []).tokensFrom_eq

theorem parts_tokens (h : Factors t ls) : (cFamily.tokens t).map Token.parts = ls := by
  rw [h.tokens_eq]
  induction h with
  | done => rfl
  | next _ hl _ ih => rw [List.map_cons, List.map_cons, hl.parts_token, ih]

theorem code_eq (h : Factors t ls) : cFamily.code t = ls.flatMap Lexeme.code := by
  show (cFamily.tokens t).flatMap Token.code = _
  rw [h.tokens_eq, List.flatMap_map]
  exact List.flatMap_congr fun l _ => l.code_token

theorem outline_eq (h : Factors t ls) : cFamily.outline t = ls.flatMap Lexeme.outline := by
  show (cFamily.tokens t).flatMap Token.outline = _
  rw [h.tokens_eq]
  induction h with
  | done => rfl
  | next _ hl _ ih =>
      rw [List.map_cons, List.flatMap_cons, List.flatMap_cons, hl.outline_token, ih]

end Factors

/-- **Every source text factors in exactly one way, and its views are those of the factors.** -/
theorem CommentStyle.views_of_factors (source : Text) :
    ∃ ls, (∀ ls', Factors source ls' ↔ ls' = ls) ∧
      cFamily.code source = ls.flatMap Lexeme.code ∧
      cFamily.outline source = ls.flatMap Lexeme.outline := by
  obtain ⟨ls, h⟩ := exists_factors source
  have hunique : ∀ ls', Factors source ls' ↔ ls' = ls := by
    intro ls'
    constructor
    · intro h'
      calc ls' = (cFamily.tokens source).map Token.parts := h'.parts_tokens.symm
        _ = ls := h.parts_tokens
    · rintro rfl
      exact h
  exact ⟨ls, hunique, h.code_eq, h.outline_eq⟩

/-- The opening mark of a comment does not share its star with the closing one, and a quote after two
backslashes closes its string. -/
example : cFamily.outline "/*/ \"a\" */ \"\\\\\" // b".toList =
    "           \"  \"     ".toList := by decide

end CodeAtlas
