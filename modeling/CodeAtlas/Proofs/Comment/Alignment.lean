import CodeAtlas.Comment
import CodeAtlas.Text.Position
import Mathlib.Data.List.Forall2
import Mathlib.Tactic

set_option autoImplicit false

/-! # The views keep every position

The code and the outline of a source text have its length and its lines, for every comment style.
Two facts carry this.

* The tokens of a text, written one after another, are the text (`flatMap_source_tokens`). Each kind
  of token has to be a non-empty prefix of the text it is read from, since the tokenizer passes over
  as many characters as the token has.
* Each view of a token differs from the token only by spaces in place of characters other than line
  feeds (`Token.blanked_code`, `Token.blanked_outline`).

`Blanked s t` is the relation between a text and a view of it.
-/

namespace CodeAtlas

/-! ## Blanked texts -/

/-- What may stand in place of a character: itself, or a space unless it is a line feed. -/
def Blanks (a b : Char) : Prop := b = a ∨ (b = ' ' ∧ a ≠ '\n')

/-- The second text is the first with some characters blanked. -/
def Blanked (s t : Text) : Prop := List.Forall₂ Blanks s t

theorem Blanks.trans {a b c : Char} (hab : Blanks a b) (hbc : Blanks b c) : Blanks a c := by
  rcases hab with rfl | ⟨rfl, ha⟩
  · exact hbc
  · rcases hbc with rfl | ⟨rfl, -⟩
    · exact Or.inr ⟨rfl, ha⟩
    · exact Or.inr ⟨rfl, ha⟩

theorem Blanks.eq_lineFeed_iff {a b : Char} (h : Blanks a b) : b = '\n' ↔ a = '\n' := by
  rcases h with rfl | ⟨rfl, ha⟩
  · rfl
  · exact ⟨fun hb => absurd hb (by decide), fun h => absurd h ha⟩

namespace Blanked

theorem refl (t : Text) : Blanked t t := List.forall₂_same.mpr fun _ _ => Or.inl rfl

theorem trans {s t u : Text} (hst : Blanked s t) (htu : Blanked t u) : Blanked s u := by
  induction hst generalizing u with
  | nil => exact htu
  | cons hab _ ih =>
      cases htu with
      | cons hbc htail => exact List.Forall₂.cons (hab.trans hbc) (ih htail)

theorem append {s₁ s₂ t₁ t₂ : Text} (h₁ : Blanked s₁ t₁) (h₂ : Blanked s₂ t₂) :
    Blanked (s₁ ++ s₂) (t₁ ++ t₂) :=
  List.rel_append h₁ h₂

theorem flatMap {α : Type} {f g : α → Text} (h : ∀ a, Blanked (f a) (g a)) (l : List α) :
    Blanked (l.flatMap f) (l.flatMap g) := by
  induction l with
  | nil => exact refl []
  | cons a l ih =>
      rw [List.flatMap_cons, List.flatMap_cons]
      exact (h a).append ih

theorem blankOut (t : Text) : Blanked t (blankOut t) := by
  refine List.forall₂_map_right_iff.mpr (List.forall₂_same.mpr fun c _ => ?_)
  by_cases hc : c = '\n'
  · exact Or.inl (by simp [hc])
  · exact Or.inr ⟨by simp [hc], hc⟩

theorem length_eq {s t : Text} (h : Blanked s t) : t.length = s.length :=
  (List.Forall₂.length_eq h).symm

/-- Where the text has a character, the view has one that may stand in its place. -/
theorem getElem? {s t : Text} (h : Blanked s t) {i : Nat} {a : Char} (ha : s[i]? = some a) :
    ∃ b, t[i]? = some b ∧ Blanks a b := by
  induction h generalizing i with
  | nil => simp at ha
  | cons hab _ ih =>
      cases i with
      | zero =>
          rw [List.getElem?_cons_zero, Option.some_inj] at ha
          exact ⟨_, rfl, ha ▸ hab⟩
      | succ i => exact ih (by simpa using ha)

/-- The same line feeds stand before every position. -/
theorem lineOf_eq {s t : Text} (h : Blanked s t) (i : Int) : Text.lineOf t i = Text.lineOf s i := by
  unfold Text.lineOf
  generalize i.toNat = n
  induction h generalizing n with
  | nil => rfl
  | @cons a b _ _ hab _ ih =>
      cases n with
      | zero => rfl
      | succ n =>
          rw [List.take_succ_cons, List.take_succ_cons, List.count_cons, List.count_cons, ih n]
          by_cases ha : a = '\n'
          · simp [ha, hab.eq_lineFeed_iff.mpr ha]
          · have hb : b ≠ '\n' := fun hb => ha (hab.eq_lineFeed_iff.mp hb)
            simp [ha, hb]

end Blanked

/-! ## The views of one token -/

namespace Token

theorem blanked_code (token : Token) : Blanked token.source token.code := by
  cases token with
  | plain c => exact Blanked.refl [c]
  | comment t => exact Blanked.blankOut t
  | quoted t => exact Blanked.refl t
  | regex lead body tail => exact Blanked.refl (lead ++ body ++ tail)

/-- A quoted text keeps its first character and, if it is closed, its last one. -/
theorem blanked_blankQuoted (t : Text) : Blanked t (blankQuoted t) := by
  cases t with
  | nil => exact Blanked.refl []
  | cons q t =>
      rw [blankQuoted]
      -- Whether it is closed decides if the last character is kept.
      by_cases hclosed : isClosed q t = true
      · rw [if_pos hclosed]
        have hlast : t.getLast? = some q := by
          simp only [isClosed, Bool.and_eq_true, beq_iff_eq] at hclosed
          exact hclosed.1
        have hsplit : t = t.dropLast ++ [q] := by
          obtain ⟨init, rfl⟩ := List.getLast?_eq_some_iff.mp hlast
          simp
        have hinner : Blanked (t.dropLast ++ [q]) (blankOut t.dropLast ++ [q]) :=
          (Blanked.blankOut t.dropLast).append (Blanked.refl [q])
        rw [← hsplit] at hinner
        exact List.Forall₂.cons (Or.inl rfl) hinner
      · rw [if_neg hclosed]
        exact List.Forall₂.cons (Or.inl rfl) (Blanked.blankOut t)

/-- The outline blanks more than the code, never less. -/
theorem blanked_outline (token : Token) : Blanked token.code token.outline := by
  cases token with
  | plain c => exact Blanked.refl [c]
  | comment t => exact Blanked.refl (blankOut t)
  | quoted t => exact blanked_blankQuoted t
  | regex lead body tail =>
      exact ((Blanked.refl lead).append (Blanked.blankOut body)).append (Blanked.refl tail)

end Token

/-! ## Tokens are prefixes -/

namespace CommentStyle

theorem quotedRest_isPrefix (q : Char) (template : Bool) (t : Text) :
    quotedRest q template t <+: t := by
  fun_induction quotedRest q template t with
  | case1 => exact List.prefix_rfl
  | case2 d rest _ ih => exact List.prefix_cons_inj _ |>.mpr (List.prefix_cons_inj _ |>.mpr ih)
  | case3 d rest => exact ⟨d :: rest, rfl⟩
  | case4 => exact List.nil_prefix
  | case5 c rest => exact ⟨rest, rfl⟩
  | case6 => exact List.nil_prefix
  | case7 c rest _ _ _ ih => exact List.prefix_cons_inj _ |>.mpr ih

theorem regexBody?_isPrefix {inClass : Bool} {t body : Text} (h : regexBody? inClass t = some body) :
    body ++ ['/'] <+: t := by
  fun_induction regexBody? inClass t generalizing body with
  | case1 => simp at h
  | case2 => simp at h
  | case3 inClass d rest _ ih =>
      obtain ⟨inner, hinner, rfl⟩ := Option.map_eq_some_iff.mp h
      exact (List.prefix_cons_inj _).mpr ((List.prefix_cons_inj _).mpr (ih hinner))
  | case4 => simp at h
  | case5 c rest _ _ ih =>
      obtain ⟨inner, hinner, rfl⟩ := Option.map_eq_some_iff.mp h
      exact (List.prefix_cons_inj c).mpr (ih hinner)
  | case6 inClass c rest _ _ _ hslash =>
      obtain rfl := Option.some_inj.mp h
      obtain rfl : c = '/' := by simpa using hslash
      exact ⟨rest, rfl⟩
  | case7 inClass c rest _ _ _ _ ih =>
      obtain ⟨inner, hinner, rfl⟩ := Option.map_eq_some_iff.mp h
      exact (List.prefix_cons_inj c).mpr (ih hinner)

/-- A token is read from the front of a text and takes at least one character. -/
def Leads (token : Token) (t : Text) : Prop := token.source <+: t ∧ token.source ≠ []

theorem quoted?_leads {style : CommentStyle} {t : Text} {token : Token}
    (h : quoted? style t = some token) : Leads token t := by
  cases t with
  | nil => simp [quoted?] at h
  | cons q rest =>
      simp only [quoted?, Option.ite_none_right_eq_some, Option.some_inj] at h
      obtain ⟨-, rfl⟩ := h
      exact ⟨(List.prefix_cons_inj q).mpr (quotedRest_isPrefix q _ rest), by simp [Token.source]⟩

theorem block?_leads {style : CommentStyle} {c : Char} {t : Text} {token : Token}
    (h : block? style (c :: t) = some token) : Leads token (c :: t) := by
  simp only [block?, Option.ite_none_right_eq_some, Option.some_inj] at h
  obtain ⟨-, rfl⟩ := h
  refine ⟨List.take_prefix _ _, ?_⟩
  simp [Token.source, List.take_eq_nil_iff]

theorem line?_leads {style : CommentStyle} {t : Text} {token : Token}
    (h : line? style t = some token) : Leads token t := by
  simp only [line?, Option.ite_none_right_eq_some, Option.ite_none_left_eq_some, Option.some_inj]
    at h
  obtain ⟨hmark, hne, rfl⟩ := h
  refine ⟨?_, by simpa [Token.source] using hne⟩
  obtain ⟨rest, rfl⟩ := List.isPrefixOf_iff_prefix.mp hmark
  rw [List.drop_left]
  exact (List.prefix_append_right_inj _).mpr (List.takeWhile_prefix _)

theorem regex?_leads {before t : Text} {token : Token} (h : regex? before t = some token) :
    Leads token t := by
  simp only [regex?, Option.ite_none_right_eq_some] at h
  obtain ⟨-, h⟩ := h
  set space := t.takeWhile fun c => c == ' ' || c == '\t' with hspace
  split at h
  · next inner hinner =>
    split at h
    · next body hbody =>
      simp only [Option.ite_none_left_eq_some, Option.some_inj] at h
      obtain ⟨-, rfl⟩ := h
      refine ⟨?_, by simp [Token.source]⟩
      obtain ⟨rest, rfl⟩ := regexBody?_isPrefix hbody
      -- Put the pieces of the literal back together.
      have ht : t = space ++ '/' :: (body ++ '/' :: rest) := by
        have hsplit : space ++ t.drop space.length = t :=
          List.prefix_iff_eq_append.mp (List.takeWhile_prefix _)
        rw [hinner] at hsplit
        simpa using hsplit.symm
      have hdrop : (body ++ ['/'] ++ rest).drop (body.length + 1) = rest := by
        rw [List.drop_left' (by simp)]
      obtain ⟨tail, htail⟩ := List.takeWhile_prefix (l := rest) Text.isAsciiLetter
      rw [hdrop]
      refine ⟨tail, ?_⟩
      rw [ht]
      conv_rhs => rw [← htail]
      simp [Token.source]
    · simp at h
  · simp at h

theorem lexeme?_leads {style : CommentStyle} {before t : Text} {c : Char} {token : Token}
    (h : lexeme? style before (c :: t) = some token) : Leads token (c :: t) := by
  simp only [lexeme?, Option.or_eq_some_iff, Option.ite_none_right_eq_some] at h
  rcases h with h | ⟨-, h⟩
  · exact quoted?_leads h
  · rcases h with ⟨-, h⟩ | ⟨-, h⟩
    · exact regex?_leads h
    · rcases h with h | ⟨-, h⟩
      · exact block?_leads h
      · exact line?_leads h

/-! ## The tokens of a text -/

/-- The tokens from a position on are the text from there on, less the characters passed over. -/
theorem flatMap_source_tokensFrom (style : CommentStyle) (skip : Nat) (before t : Text) :
    (tokensFrom style skip before t).flatMap Token.source = t.drop skip := by
  fun_induction tokensFrom style skip before t with
  | case1 => simp
  | case2 before skip c rest ih => rw [ih, List.drop_succ_cons]
  | case3 before c rest token htoken ih =>
      -- The tokenizer skips the rest of the token; its first character is the one at hand.
      obtain ⟨⟨tail, htail⟩, hne⟩ := lexeme?_leads htoken
      obtain ⟨d, source, hsource⟩ := List.exists_cons_of_ne_nil hne
      rw [List.flatMap_cons, ih, hsource]
      rw [hsource, List.cons_append, List.cons.injEq] at htail
      obtain ⟨rfl, rfl⟩ := htail
      simp
  | case4 before c rest _ ih => rw [List.flatMap_cons, ih]; rfl

theorem flatMap_source_tokens (style : CommentStyle) (source : Text) :
    (style.tokens source).flatMap Token.source = source :=
  flatMap_source_tokensFrom style 0 [] source

theorem blanked_code (style : CommentStyle) (source : Text) : Blanked source (style.code source) := by
  have h := Blanked.flatMap Token.blanked_code (style.tokens source)
  rwa [flatMap_source_tokens] at h

theorem blanked_outline (style : CommentStyle) (source : Text) :
    Blanked (style.code source) (style.outline source) :=
  Blanked.flatMap Token.blanked_outline (style.tokens source)

/-- **The views are aligned with the source.** Both have its length; at every position the code has
the source's character or a space, the outline has the code's character or a space, and each has a
line feed exactly where the source has one. So a position has the same line in all three. -/
theorem views_aligned (style : CommentStyle) (source : Text) :
    (style.code source).length = source.length ∧
    (style.outline source).length = source.length ∧
    (∀ (i : Nat) (c : Char), source[i]? = some c →
      ∃ a b, (style.code source)[i]? = some a ∧ (style.outline source)[i]? = some b ∧
        (a = c ∨ a = ' ') ∧ (b = a ∨ b = ' ') ∧ (a = '\n' ↔ c = '\n') ∧ (b = '\n' ↔ c = '\n')) ∧
    ∀ i : Int, Text.lineOf (style.code source) i = Text.lineOf source i ∧
      Text.lineOf (style.outline source) i = Text.lineOf source i := by
  have hcode := blanked_code style source
  have houtline := blanked_outline style source
  have hboth := hcode.trans houtline
  refine ⟨hcode.length_eq, hboth.length_eq, ?_, fun i => ⟨hcode.lineOf_eq i, hboth.lineOf_eq i⟩⟩
  intro i c hc
  obtain ⟨a, ha, hca⟩ := hcode.getElem? hc
  obtain ⟨b, hb, hab⟩ := houtline.getElem? ha
  refine ⟨a, b, ha, hb, hca.imp_right And.left, hab.imp_right And.left, hca.eq_lineFeed_iff, ?_⟩
  rw [hab.eq_lineFeed_iff, hca.eq_lineFeed_iff]

end CommentStyle

end CodeAtlas
