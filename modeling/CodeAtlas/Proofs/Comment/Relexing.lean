import CodeAtlas.Proofs.Comment.Reading

set_option autoImplicit false

/-! # Reading a view again

A view of a source text is a text itself and can be read again. This module shows that reading it
finds the tokens of the source, comments having become plain blanks: blanking one token never makes
another one start or end elsewhere.

The simulation `Lexes.relex` follows the reading of the source, token by token, and rebuilds it for
the view. What it needs of each kind of token is this.

* A string ends at its closing quote or, open, before a line feed; neither is ever blanked.
* A plain character starts nothing in the view either, since a mark of two characters that stands in
  the view stands in the source.
* A regular-expression literal may start only after certain characters, and these may be part of a
  comment. `Alike` says when the characters before a position and before its image in the view agree
  well enough. Conversely a comment hides from a slash after it that an operand is expected there;
  in the view it does not, and the slash may open a literal. `slashesDivide` excludes this, and it is
  asked for only in styles with such literals.
-/

namespace CodeAtlas

theorem Blanked.isAsciiLetter_head? {s t : Text} (h : Blanked s t)
    (hs : s.head?.any Text.isAsciiLetter = false) : t.head?.any Text.isAsciiLetter = false := by
  cases h with
  | nil => rfl
  | cons hblanks _ =>
      rcases hblanks with rfl | ⟨rfl, -⟩
      · exact hs
      · rfl

namespace CommentStyle

theorem not_opensComment_of_blanked {s t : Text} {c : Char} (h : Blanked s t)
    (hs : ¬ OpensComment (c :: s)) : ¬ OpensComment (c :: t) := by
  rintro ⟨d, r, heq, hd⟩
  obtain ⟨rfl, rfl⟩ := List.cons_eq_cons.mp heq
  cases h with
  | @cons a _ l _ hblanks htail =>
      -- A slash or a star is no blank, so it stands in the source.
      rcases hblanks with rfl | ⟨rfl, -⟩
      · exact hs ⟨d, l, rfl, hd⟩
      · simp at hd

/-! ## What stands before a position -/

/-- The characters before a position, nearest first, in the source and in a view: the same up to the
end of a block comment or to a line feed, beyond which they are not looked at. -/
inductive Alike : Text → Text → Prop where
  | nil : Alike [] []
  | cons {b b' : Text} (c : Char) (h : Alike b b') : Alike (c :: b) (c :: b')
  | edge (b b' : Text) : Alike ('/' :: b) (' ' :: b')
  | line (b b' : Text) : Alike ('\n' :: b) ('\n' :: b')

theorem Alike.append {b b' : Text} (h : Alike b b') (w : Text) : Alike (w ++ b) (w ++ b') := by
  induction w with
  | nil => exact h
  | cons c w ih => exact .cons c ih

theorem Alike.isWord_head?_eq {b b' : Text} (h : Alike b b') :
    b.head?.any Text.isWord = b'.head?.any Text.isWord := by
  cases h with
  | nil => rfl
  | cons c h => rfl
  | edge b b' =>
      show Text.isWord '/' = Text.isWord ' '
      decide
  | line => rfl

/-- A word before the position is seen in both or in neither, and so is what stands before it. -/
theorem Alike.isPrefixOf_eq {b b' w : Text} (h : Alike b b')
    (hw : '/' ∉ w ∧ ' ' ∉ w ∧ '\n' ∉ w) :
    w.isPrefixOf b = w.isPrefixOf b' ∧
      (w.isPrefixOf b = true → Alike (b.drop w.length) (b'.drop w.length)) := by
  induction w generalizing b b' with
  | nil => exact ⟨by simp, fun _ => h⟩
  | cons d w ih =>
      have hne : (d == '/') = false ∧ (d == ' ') = false ∧ (d == '\n') = false := by
        simp only [List.mem_cons, not_or] at hw
        simp only [beq_eq_false_iff_ne]
        exact ⟨fun h => hw.1.1 h.symm, fun h => hw.2.1.1 h.symm, fun h => hw.2.2.1 h.symm⟩
      have hrest : '/' ∉ w ∧ ' ' ∉ w ∧ '\n' ∉ w := by
        simp only [List.mem_cons, not_or] at hw
        exact ⟨hw.1.2, hw.2.1.2, hw.2.2.2⟩
      cases h with
      | nil => exact ⟨rfl, fun hfalse => by simp at hfalse⟩
      | cons c h =>
          obtain ⟨heq, hdrop⟩ := ih h hrest
          refine ⟨by rw [List.isPrefixOf_cons_cons, List.isPrefixOf_cons_cons, heq], fun hsame => ?_⟩
          rw [List.isPrefixOf_cons_cons, Bool.and_eq_true] at hsame
          exact hdrop hsame.2
      | edge b b' => simp [List.isPrefixOf_cons_cons, hne]
      | line b b' => simp [List.isPrefixOf_cons_cons, hne]

/-- **An operand is expected after alike texts or after neither.** -/
theorem Alike.operandExpected_eq {b b' : Text} (h : Alike b b') :
    operandExpected b = operandExpected b' := by
  obtain ⟨hsame, hdrop⟩ := h.isPrefixOf_eq (w := "nruter".toList) (by decide)
  have hreturn : ("nruter".toList.isPrefixOf b && !(b.drop 6).head?.any Text.isWord) =
      ("nruter".toList.isPrefixOf b' && !(b'.drop 6).head?.any Text.isWord) := by
    cases hcase : "nruter".toList.isPrefixOf b with
    | false => rw [← hsame, hcase]; rfl
    | true =>
        have hword : (b.drop 6).head?.any Text.isWord = (b'.drop 6).head?.any Text.isWord :=
          (hdrop hcase).isWord_head?_eq
        rw [← hsame, hcase, hword]
  cases h with
  | nil => rfl
  | cons c h =>
      simp only [operandExpected]
      rw [hreturn]
  | edge b b' =>
      simp only [operandExpected]
      rw [hreturn]
      congr 1
  | line b b' => rfl

/-- After white space that may lead a literal, no operand is expected. -/
theorem operandExpected_eq_false_of_isLead {c : Char} (hc : isLead c = true) (b : Text) :
    operandExpected (c :: b) = false := by
  have hc : c = ' ' ∨ c = '\t' := by simpa [isLead] using hc
  rcases hc with rfl | rfl
  · rfl
  · rfl

/-! ## Slashes -/

/-- Is a token no slash or a division? A plain slash is a division if in the code before it, where
comments are blank, no operand is expected, or else if no slash follows on its line. -/
def divides (before after : Text) : Token → Bool
  | .plain c =>
    c != '/' || !operandExpected (before.dropWhile isLead) ||
      !(after.takeWhile (· != '\n')).contains '/'
  | _ => true

/-- Are all plain slashes divisions? The code before the tokens is given, nearest character first. -/
def slashesDivideFrom : Text → List Token → Bool
  | _, [] => true
  | before, token :: ts =>
    divides before (ts.flatMap Token.code) token &&
      slashesDivideFrom (token.code.reverse ++ before) ts

theorem slashesDivideFrom_tail {before : Text} {token : Token} {ts : List Token}
    (h : slashesDivideFrom before (token :: ts) = true) :
    slashesDivideFrom (token.code.reverse ++ before) ts = true := by
  rw [slashesDivideFrom, Bool.and_eq_true] at h
  exact h.2

theorem slashesDivideFrom_slash {before : Text} {ts : List Token}
    (h : slashesDivideFrom before (.plain '/' :: ts) = true)
    (hoperand : operandExpected (before.dropWhile isLead) = true) :
    '/' ∉ (ts.flatMap Token.code).takeWhile (· != '\n') := by
  rw [slashesDivideFrom, Bool.and_eq_true, divides, hoperand] at h
  simpa using h.1

/-- White space, then a slash: a text is divided in this way at most once. -/
theorem lead_append_inj {gap lead u inner : Text} (hgap : ∀ c ∈ gap, isLead c = true)
    (hlead : ∀ c ∈ lead, isLead c = true) (hu : u.head?.any isLead = false)
    (h : gap ++ u = lead ++ '/' :: inner) : gap = lead ∧ u = '/' :: inner := by
  have hwhile := congrArg (List.takeWhile isLead) h
  have hnil : u.takeWhile isLead = [] := by
    cases u with
    | nil => rfl
    | cons c u =>
        have hc : isLead c = false := by simpa using hu
        simp [hc]
  have hslash : List.takeWhile isLead ('/' :: inner) = [] := by simp [isLead]
  rw [List.takeWhile_append_of_pos hgap, List.takeWhile_append_of_pos hlead, hnil, hslash,
    List.append_nil, List.append_nil] at hwhile
  subst hwhile
  exact ⟨rfl, List.append_cancel_left h⟩

/-- No literal starts here if what follows the white space is no slash. -/
theorem regex?_eq_none_of_head? {before gap u : Text} (hgap : ∀ c ∈ gap, isLead c = true)
    (hu : u.head?.any isLead = false) (hslash : u.head? ≠ some '/') :
    regex? before (gap ++ u) = none := by
  rw [Option.eq_none_iff_forall_ne_some]
  intro token h
  obtain ⟨-, lead, body, flags, rest, heq, hlead, -⟩ := regex?_eq_some_iff.mp h
  obtain ⟨-, rfl⟩ := lead_append_inj hgap hlead hu heq
  simp at hslash

theorem regex?_eq_none_of_first {before u : Text} (hu : u.head?.any isLead = false)
    (hslash : u.head? ≠ some '/') : regex? before u = none := by
  have hgap : ∀ c ∈ ([] : Text), isLead c = true := by simp
  exact regex?_eq_none_of_head? hgap hu hslash

theorem regex?_eq_none_of_operandExpected {before t : Text} (h : operandExpected before = false) :
    regex? before t = none := by
  unfold regex?
  rw [if_neg (by simp [h])]

theorem regex?_eq_none_of_atLineEnd {before t : Text} (h : AtLineEnd t) :
    regex? before t = none := by
  refine regex?_eq_none_of_first ?_ ?_
  · rcases h with rfl | h
    · rfl
    · rw [h]; rfl
  · rcases h with rfl | h
    · simp
    · rw [h]; decide

/-- White space that goes on to the next line opens no literal. -/
theorem regex?_blank_append {before w u : Text} (hw : ∀ c ∈ w, isLead c = true ∨ c = '\n')
    (h : (∀ c ∈ w, isLead c = true) → regex? before (w ++ u) = none) :
    regex? before (w ++ u) = none := by
  by_cases hall : ∀ c ∈ w, isLead c = true
  · exact h hall
  · -- Its part on this line ends at a line feed.
    have hsplit : w.takeWhile isLead ++ (w.dropWhile isLead ++ u) = w ++ u := by
      rw [← List.append_assoc, List.takeWhile_append_dropWhile]
    obtain ⟨c, v, hcv⟩ : ∃ c v, w.dropWhile isLead = c :: v := by
      refine List.exists_cons_of_ne_nil fun hnil => hall ?_
      exact List.dropWhile_eq_nil_iff.mp hnil
    have hhead := List.head?_dropWhile_not isLead w
    rw [hcv] at hhead
    have hmem : c ∈ w := (List.dropWhile_sublist isLead).subset (hcv ▸ List.mem_cons_self)
    have hc : c = '\n' := (hw c hmem).resolve_left (by simpa using hhead)
    rw [← hsplit, hcv, hc]
    exact regex?_eq_none_of_head? (fun d hd => List.mem_takeWhile_imp hd) rfl (by simp)

theorem isLead_or_lineFeed {t : Text} {c : Char} (hc : c ∈ blankOut t) :
    isLead c = true ∨ c = '\n' := by
  rcases eq_of_mem_blankOut hc with rfl | rfl
  · exact Or.inl rfl
  · exact Or.inr rfl

/-- After a comment no operand is expected, or the line ends. -/
theorem IsComment.regex?_eq_none {w rest : Text} (h : IsComment w rest) (before : Text) :
    regex? (w.reverse ++ before) rest = none := by
  rcases h.2 with hlast | hend
  · refine regex?_eq_none_of_operandExpected ?_
    obtain ⟨v, rfl⟩ := List.getLast?_eq_some_iff.mp hlast
    rw [List.reverse_append]
    rfl
  · exact regex?_eq_none_of_atLineEnd hend

/-- **Where the source has no literal, its code has none.** The code that follows is read up to the
slash that might open a literal: only white space and comments stand before it, so this slash is
either plain, and then a division, or it opens a literal of the source after white space or after a
comment, where no operand is expected. -/
theorem Lexes.regex?_code_eq_none {before rest : Text} {ts : List Token}
    (h : Lexes (family true) before rest ts) (hfirst : regex? before rest = none)
    {before' gap : Text} (hgap : ∀ c ∈ gap, isLead c = true)
    (hoperand : operandExpected before' = true)
    (hslash : slashesDivideFrom (gap.reverse ++ before') ts = true) :
    regex? before' (gap ++ ts.flatMap Token.code) = none := by
  induction h generalizing gap with
  | done => exact regex?_eq_none_of_head? hgap rfl (by simp)
  | @plain before rest c ts hnone hrest ih =>
      by_cases hlead : isLead c = true
      · -- The white space goes on.
        have hgap' : ∀ d ∈ gap ++ [c], isLead d = true := by
          intro d hd
          rcases List.mem_append.mp hd with hd | hd
          · exact hgap d hd
          · rwa [List.mem_singleton.mp hd]
        have hslash' : slashesDivideFrom ((gap ++ [c]).reverse ++ before') ts = true := by
          rw [List.reverse_append]
          exact slashesDivideFrom_tail hslash
        have hfirst' : regex? (c :: before) rest = none :=
          regex?_eq_none_of_operandExpected (operandExpected_eq_false_of_isLead hlead before)
        have := ih hfirst' hgap' hslash'
        rwa [List.append_assoc] at this
      · by_cases hc : c = '/'
        · subst hc
          rw [Option.eq_none_iff_forall_ne_some]
          intro token htoken
          obtain ⟨-, lead, body, flags, tail, heq, hlead, hbody, -⟩ := regex?_eq_some_iff.mp htoken
          obtain ⟨-, hinner⟩ := lead_append_inj hgap hlead (by simp [isLead, Token.code, Token.source]) heq
          -- The text before the slash, less the white space, is where the operand is expected.
          have hdrop : (gap.reverse ++ before').dropWhile isLead = before' := by
            rw [List.dropWhile_append_of_pos fun d hd => hgap d (List.mem_reverse.mp hd)]
            cases before' with
            | nil => rfl
            | cons d b =>
                have hd : isLead d = false := by
                  by_contra hd
                  rw [operandExpected_eq_false_of_isLead (by simpa using hd)] at hoperand
                  contradiction
                simp [hd]
          have hlast := slashesDivideFrom_slash hslash (by rw [hdrop, hoperand])
          have hinner : ts.flatMap Token.code = body ++ '/' :: (flags ++ tail) := by
            simpa [Token.code, Token.source] using hinner
          have hbody := regexBody?_append hbody (flags ++ tail)
          rw [← hinner, regexBody?_eq_none hlast] at hbody
          contradiction
        · refine regex?_eq_none_of_head? hgap ?_ ?_
          · simpa [Token.code, Token.source] using hlead
          · simpa [Token.code, Token.source] using hc
  | @lexeme before rest token ts hne htoken hrest ih =>
      rcases lexeme?_eq_some_cases htoken with ⟨q, r, -, hq, rfl⟩ | ⟨-, hregex⟩ | ⟨w, r, rfl, heq, hw⟩
      · -- A quote is neither white space nor a slash.
        refine regex?_eq_none_of_head? hgap ?_ ?_
        · rcases hq with rfl | rfl | rfl <;> rfl
        · simpa [Token.code, Token.source] using hq.ne (c := '/') (by simp [IsQuote])
      · rw [hregex] at hfirst
        contradiction
      · obtain rfl : rest = r := List.append_cancel_left heq
        show regex? before' (gap ++ (blankOut w ++ ts.flatMap Token.code)) = none
        rw [← List.append_assoc]
        refine regex?_blank_append (fun c hc => ?_) fun hall => ?_
        · exact (List.mem_append.mp hc).elim (fun hc => Or.inl (hgap c hc)) isLead_or_lineFeed
        · refine ih (hw.regex?_eq_none before) hall ?_
          rw [List.reverse_append, List.append_assoc]
          exact slashesDivideFrom_tail hslash

/-! ## The tokens of a view -/

/-- The tokens that a view of a token is read as: a comment has become plain blanks. -/
def relexed (view : Token → Text) : Token → List Token
  | .plain c => [.plain c]
  | .comment t => (blankOut t).map .plain
  | .quoted t => [.quoted (view (.quoted t))]
  | .regex lead body tail => [.regex lead body tail]

/-- A backslash and a line feed start nothing. -/
theorem lexeme?_eq_none_of_inert {regex : Bool} {c : Char} (hc : c = '\\' ∨ c = '\n')
    (before t : Text) : lexeme? (family regex) before (c :: t) = none := by
  refine lexeme?_eq_none_iff.mpr ⟨?_, fun _ => ?_, ?_⟩
  · rcases hc with rfl | rfl <;> simp [IsQuote]
  · refine regex?_eq_none_of_first ?_ ?_
    · rcases hc with rfl | rfl <;> rfl
    · rcases hc with rfl | rfl <;> simp
  · rintro ⟨d, r, heq, -⟩
    rcases hc with rfl | rfl <;> simp at heq

theorem Lexes.plain_inv {style : CommentStyle} {before t : Text} {c : Char} {ts : List Token}
    (h : Lexes style before (c :: t) ts) (hnone : lexeme? style before (c :: t) = none) :
    ∃ ts', ts = .plain c :: ts' ∧ Lexes style (c :: before) t ts' := by
  generalize hu : c :: t = u at h
  cases h with
  | done => simp at hu
  | plain _ hrest =>
      obtain ⟨rfl, rfl⟩ := List.cons_eq_cons.mp hu
      exact ⟨_, rfl, hrest⟩
  | lexeme _ htoken _ =>
      rw [← hu, hnone] at htoken
      contradiction

theorem Lexes.nil_inv {style : CommentStyle} {before : Text} {ts : List Token}
    (h : Lexes style before [] ts) : ts = [] := h.tokensFrom_eq.symm

/-- A string that stops in the source stops in the view. -/
theorem Lexes.stops {regex template : Bool} {before t : Text} {ts : List Token}
    {view : Token → Text} (hview : IsView view) (h : Lexes (family regex) before t ts)
    (ht : Stops template t) : Stops template (ts.flatMap view) := by
  obtain rfl | rfl | ⟨htemplate, ht | ⟨r, rfl⟩⟩ := ht
  · rw [h.nil_inv]
    exact Or.inl rfl
  · obtain ⟨ts', rfl, h'⟩ := h.plain_inv (lexeme?_eq_none_of_inert (Or.inl rfl) _ _)
    rw [List.flatMap_cons, hview.plain, h'.nil_inv]
    exact Or.inr (Or.inl rfl)
  · obtain ⟨r, rfl⟩ : ∃ r, t = '\n' :: r := List.head?_eq_some_iff.mp ht
    obtain ⟨ts', rfl, -⟩ := h.plain_inv (lexeme?_eq_none_of_inert (Or.inr rfl) _ _)
    rw [List.flatMap_cons, hview.plain]
    exact Or.inr (Or.inr ⟨htemplate, Or.inl rfl⟩)
  · obtain ⟨ts', rfl, h'⟩ := h.plain_inv (lexeme?_eq_none_of_inert (Or.inl rfl) _ _)
    obtain ⟨ts'', rfl, -⟩ := h'.plain_inv (lexeme?_eq_none_of_inert (Or.inr rfl) _ _)
    rw [List.flatMap_cons, List.flatMap_cons, hview.plain, hview.plain]
    exact Or.inr (Or.inr ⟨htemplate, Or.inr ⟨_, rfl⟩⟩)

/-- A view of a string keeps a body, and with it the closing quote if there is one. -/
theorem IsView.exists_isBody {view : Token → Text} (hview : IsView view) {q : Char}
    {template : Bool} (hq : IsQuote q) {w : Text} (hw : IsBody q template w) :
    ∃ w', IsBody q template w' ∧ view (.quoted (q :: (w ++ [q]))) = q :: (w' ++ [q]) ∧
      view (.quoted (q :: w)) = q :: w' := by
  rcases hview with rfl | rfl
  · exact ⟨w, hw, rfl, rfl⟩
  · exact ⟨blankOut w, isBody_blankOut hq hw.template_of_mem, blankQuoted_closed hq hw,
      blankQuoted_open hq hw⟩

/-- **A view of a string is read as a string.** -/
theorem lexeme?_view_quoted {regex : Bool} {view : Token → Text} (hview : IsView view) {q : Char}
    (hq : IsQuote q) {t rest rest' : Text} (ht : quotedRest q (q == '\x60') (t ++ rest) = t)
    (hstops : Stops (q == '\x60') rest → Stops (q == '\x60') rest') (before : Text) :
    view (.quoted (q :: t)) ≠ [] ∧
      lexeme? (family regex) before (view (.quoted (q :: t)) ++ rest') =
        some (.quoted (view (.quoted (q :: t)))) := by
  -- It is enough that the same stretch is read after the opening quote.
  have hread : ∀ {u : Text}, quotedRest q (q == '\x60') (u ++ rest') = u →
      q :: u ≠ [] ∧ lexeme? (family regex) before (q :: u ++ rest') = some (.quoted (q :: u)) := by
    intro u hu
    have hquoted : quoted? (family regex) (q :: u ++ rest') = some (.quoted (q :: u)) :=
      quoted?_eq_some_iff.mpr ⟨q, u ++ rest', rfl, hq, by rw [hu]⟩
    exact ⟨by simp, by rw [lexeme?, hquoted]; rfl⟩
  obtain ⟨w, r, hw, ⟨htext, hrest⟩ | ⟨htext, hrest, hend⟩⟩ :=
    CommentStyle.exists_isBody hq (q == '\x60') (t ++ rest)
  · obtain rfl : t = w ++ [q] := ht.symm.trans hrest
    obtain ⟨w', hw', hclosed, -⟩ := hview.exists_isBody hq hw
    rw [hclosed]
    refine hread ?_
    rw [List.append_assoc]
    exact quotedRest_closed hq hw' rest'
  · obtain rfl : t = w := ht.symm.trans hrest
    obtain rfl : rest = r := List.append_cancel_left htext
    obtain ⟨w', hw', -, hopen⟩ := hview.exists_isBody hq hw
    rw [hopen]
    exact hread (quotedRest_open hq hw' (hstops hend))

theorem exists_head?_of_regex? {before t : Text} {token : Token} (h : regex? before t = some token) :
    ∃ c, token.source.head? = some c ∧ c ≠ '\n' := by
  obtain ⟨-, lead, body, flags, rest, -, hlead, -, -, -, -, -, rfl⟩ := regex?_eq_some_iff.mp h
  cases lead with
  | nil => exact ⟨'/', rfl, by decide⟩
  | cons c lead =>
      refine ⟨c, rfl, ?_⟩
      rintro rfl
      simpa [isLead] using hlead '\n' List.mem_cons_self

theorem relexed_of_regex? {before t : Text} {token : Token} (h : regex? before t = some token) :
    relexed Token.code token = [token] ∧ token.code = token.source := by
  obtain ⟨-, lead, body, flags, rest, -, -, -, -, -, -, -, rfl⟩ := regex?_eq_some_iff.mp h
  exact ⟨rfl, rfl⟩

/-- A literal is read before comments are looked for, and it does not start with a quote. -/
theorem lexeme?_of_regex? {before t : Text} {token : Token} (h : regex? before t = some token) :
    lexeme? (family true) before t = some token := by
  have hquoted : quoted? (family true) t = none := by
    rw [Option.eq_none_iff_forall_ne_some]
    intro token' htoken'
    obtain ⟨q, r, rfl, hq, -⟩ := quoted?_eq_some_iff.mp htoken'
    have hnone : regex? before (q :: r) = none := by
      refine regex?_eq_none_of_first ?_ ?_
      · rcases hq with rfl | rfl | rfl <;> rfl
      · simpa using hq.ne (c := '/') (by simp [IsQuote])
    rw [h] at hnone
    contradiction
  have htrue : (if (family true).regexLiterals = true then regex? before t else none) = some token := h
  rw [lexeme?, hquoted, htrue]
  rfl

/-- A regular-expression literal is read again where an operand is expected. -/
theorem regex?_again {before before' t rest rest' : Text} {token : Token}
    (h : regex? before t = some token) (ht : t = token.source ++ rest)
    (hoperand : operandExpected before = operandExpected before')
    (hrest : rest.head?.any Text.isAsciiLetter = false → rest'.head?.any Text.isAsciiLetter = false) :
    regex? before' (token.source ++ rest') = some token := by
  obtain ⟨hexpected, lead, body, flags, tail, heq, hlead, hbody, hne, hstar, hflags, htail, rfl⟩ :=
    regex?_eq_some_iff.mp h
  have hsource : (Token.regex (lead ++ ['/']) body ('/' :: flags)).source ++ rest =
      lead ++ '/' :: (body ++ '/' :: (flags ++ tail)) := ht.symm.trans heq
  obtain rfl : rest = tail := by
    have : lead ++ '/' :: (body ++ '/' :: (flags ++ rest)) =
        lead ++ '/' :: (body ++ '/' :: (flags ++ tail)) := by
      simpa [Token.source] using hsource
    simpa using this
  refine regex?_eq_some_iff.mpr ⟨hoperand ▸ hexpected, lead, body, flags, rest', ?_, hlead, hbody, hne,
    hstar, hflags, hrest htail, rfl⟩
  simp [Token.source]

/-- Blanks are read as plain characters. -/
theorem Lexes.blanks {regex : Bool} {w u before : Text} {ts : List Token}
    (hw : ∀ c ∈ w, c = ' ' ∨ c = '\n')
    (hregex : regex = true → ∀ v x, w = v ++ x → regex? (v.reverse ++ before) (x ++ u) = none)
    (h : Lexes (family regex) (w.reverse ++ before) u ts) :
    Lexes (family regex) before (w ++ u) (w.map .plain ++ ts) := by
  induction w generalizing before with
  | nil => exact h
  | cons c w ih =>
      have hnone : lexeme? (family regex) before (c :: (w ++ u)) = none := by
        refine lexeme?_eq_none_iff.mpr ⟨?_, fun htrue => hregex htrue [] (c :: w) rfl, ?_⟩
        · rcases hw c List.mem_cons_self with rfl | rfl <;> simp [IsQuote]
        · rintro ⟨d, r, heq, -⟩
          rcases hw c List.mem_cons_self with rfl | rfl <;> simp at heq
      refine .plain hnone (ih (fun d hd => hw d (List.mem_cons_of_mem c hd)) ?_ ?_)
      · intro htrue v x hvx
        have := hregex htrue (c :: v) x (by rw [hvx]; rfl)
        simpa using this
      · simpa using h

/-- A token that is not plain starts on a line that goes on, so the texts before it are alike. -/
theorem alike_of_token {before before' : Text} {token : Token} {rest : Text} {c : Char}
    (hc : token.source.head? = some c) (hline : c ≠ '\n')
    (h : Alike before before' ∨ AtLineEnd (token.source ++ rest)) : Alike before before' := by
  refine h.resolve_right ?_
  rintro (hnil | hhead)
  · simp [(List.append_eq_nil_iff.mp hnil).1] at hc
  · rw [List.head?_append, hc, Option.some_or] at hhead
    exact hline (Option.some_inj.mp hhead)

/-- After a comment and its blanks, the texts before are alike or the line ends. -/
theorem IsComment.alike {w rest : Text} (h : IsComment w rest) (before before' : Text) :
    Alike (w.reverse ++ before) ((blankOut w).reverse ++ before') ∨ AtLineEnd rest := by
  refine h.2.imp_left fun hlast => ?_
  obtain ⟨v, rfl⟩ := List.getLast?_eq_some_iff.mp hlast
  rw [blankOut_append, List.reverse_append, List.reverse_append]
  exact .edge _ _

/-- **A view is read as the tokens of its source**, comments having become plain blanks. Where there
are regular-expression literals, this is the code and all plain slashes are divisions. -/
theorem Lexes.relex {regex : Bool} {view : Token → Text} (hview : IsView view)
    (hcode : regex = true → view = Token.code) {before t : Text} {ts : List Token}
    (h : Lexes (family regex) before t ts) {before' : Text}
    (hbefore : regex = true → Alike before before' ∨ AtLineEnd t)
    (hslash : regex = true → slashesDivideFrom before' ts = true) :
    Lexes (family regex) before' (ts.flatMap view) (ts.flatMap (relexed view)) := by
  induction h generalizing before' with
  | done => exact .done before'
  | @plain before t c ts hnone hrest ih =>
      obtain ⟨hquote, hregex, hcomment⟩ := lexeme?_eq_none_iff.mp hnone
      have hnone' : lexeme? (family regex) before' (c :: ts.flatMap view) = none := by
        refine lexeme?_eq_none_iff.mpr ⟨hquote, fun htrue => ?_,
          not_opensComment_of_blanked (hrest.blanked hview.blanked) hcomment⟩
        subst htrue
        obtain rfl := hcode rfl
        cases hoperand : operandExpected before' with
        | false => exact regex?_eq_none_of_operandExpected hoperand
        | true =>
            have hgap : ∀ d ∈ ([] : Text), isLead d = true := by simp
            exact (Lexes.plain hnone hrest).regex?_code_eq_none (hregex rfl) hgap hoperand
              (hslash rfl)
      rw [List.flatMap_cons, List.flatMap_cons, hview.plain]
      refine .plain hnone' (ih (fun htrue => Or.inl ?_) fun htrue => ?_)
      · rcases hbefore htrue with halike | hnil | hhead
        · exact .cons c halike
        · simp at hnil
        · obtain rfl : c = '\n' := by simpa using hhead
          exact .line before before'
      · have := slashesDivideFrom_tail (hslash htrue)
        simpa [Token.code, Token.source] using this
  | @lexeme before rest token ts hne htoken hrest ih =>
      rw [List.flatMap_cons, List.flatMap_cons]
      rcases lexeme?_eq_some_cases htoken with
        ⟨q, r, heq, hq, rfl⟩ | ⟨htrue, hregex⟩ | ⟨w, r, rfl, heq, hw⟩
      · -- A string.
        set t := quotedRest q (q == '\x60') r with ht
        have hr : r = t ++ rest := by
          have : q :: (t ++ rest) = q :: r := heq
          exact (List.cons_eq_cons.mp this).2.symm
        have hread : quotedRest q (q == '\x60') (t ++ rest) = t := by rw [← hr]
        have hagain : (Token.quoted (view (.quoted (q :: t)))).source ≠ [] ∧
            lexeme? (family regex) before' (view (.quoted (q :: t)) ++ ts.flatMap view) =
              some (.quoted (view (.quoted (q :: t)))) :=
          lexeme?_view_quoted hview hq hread (hrest.stops hview) before'
        refine .lexeme hagain.1 hagain.2 (ih (fun htrue => Or.inl ?_) fun htrue => ?_)
        · obtain rfl := hcode htrue
          have hline : q ≠ '\n' := hq.ne (by simp [IsQuote])
          exact (alike_of_token rfl hline (hbefore htrue)).append _
        · obtain rfl := hcode htrue
          exact slashesDivideFrom_tail (hslash htrue)
      · -- A regular-expression literal.
        subst htrue
        obtain rfl := hcode rfl
        obtain ⟨c, hc, hline⟩ := exists_head?_of_regex? hregex
        have halike := alike_of_token hc hline (hbefore rfl)
        have hagain := regex?_again hregex rfl halike.operandExpected_eq
          (hrest.blanked Token.blanked_code).isAsciiLetter_head?
        have hrelexed : relexed Token.code token = [token] ∧ token.code = token.source :=
          relexed_of_regex? hregex
        rw [hrelexed.1, hrelexed.2]
        refine .lexeme hne (lexeme?_of_regex? hagain) (ih (fun _ => Or.inl ?_) fun _ => ?_)
        · exact halike.append _
        · have := slashesDivideFrom_tail (hslash rfl)
          rwa [hrelexed.2] at this
      · -- A comment.
        obtain rfl : rest = r := List.append_cancel_left heq
        show Lexes (family regex) before' (view (.comment w) ++ ts.flatMap view)
          ((blankOut w).map .plain ++ ts.flatMap (relexed view))
        rw [hview.comment]
        have hslash' : regex = true →
            slashesDivideFrom ((blankOut w).reverse ++ before') ts = true :=
          fun htrue => slashesDivideFrom_tail (hslash htrue)
        refine Lexes.blanks (fun c => eq_of_mem_blankOut) (fun htrue v x hvx => ?_)
          (ih (fun _ => hw.alike before before') hslash')
        -- Within the blanks a literal could only be opened by a slash after the comment.
        subst htrue
        obtain rfl := hcode rfl
        have hx : ∀ c ∈ x, isLead c = true ∨ c = '\n' := fun c hc =>
          isLead_or_lineFeed (t := w) (by rw [hvx]; exact List.mem_append_right v hc)
        refine regex?_blank_append hx fun hall => ?_
        cases hoperand : operandExpected (v.reverse ++ before') with
        | false => exact regex?_eq_none_of_operandExpected hoperand
        | true =>
            refine hrest.regex?_code_eq_none (hw.regex?_eq_none before) hall hoperand ?_
            have := hslash' rfl
            rwa [hvx, List.reverse_append, List.append_assoc] at this

/-! ## Views of views -/

/-- What the tokens of a text can be. -/
theorem Lexes.mem_cases {regex : Bool} {before t : Text} {ts : List Token}
    (h : Lexes (family regex) before t ts) {token : Token} (hmem : token ∈ ts) :
    (∃ c, token = .plain c) ∨ (∃ w, token = .comment w) ∨
      (∃ q w, IsQuote q ∧ token = .quoted (q :: w)) ∨
      (regex = true ∧ ∃ lead body tail, token = .regex lead body tail) := by
  induction h with
  | done => simp at hmem
  | plain _ _ ih =>
      rcases List.mem_cons.mp hmem with rfl | hmem
      · exact Or.inl ⟨_, rfl⟩
      · exact ih hmem
  | lexeme _ htoken _ ih =>
      rcases List.mem_cons.mp hmem with rfl | hmem
      · rcases lexeme?_eq_some_cases htoken with
          ⟨q, r, -, hq, rfl⟩ | ⟨htrue, hregex⟩ | ⟨w, -, rfl, -, -⟩
        · exact Or.inr (Or.inr (Or.inl ⟨q, _, hq, rfl⟩))
        · obtain ⟨-, lead, body, flags, -, -, -, -, -, -, -, -, rfl⟩ := regex?_eq_some_iff.mp hregex
          exact Or.inr (Or.inr (Or.inr ⟨htrue, _, _, _, rfl⟩))
        · exact Or.inr (Or.inl ⟨w, rfl⟩)
      · exact ih hmem

/-- Blanking a string a second time changes nothing. -/
theorem blankQuoted_blankQuoted {q : Char} (hq : IsQuote q) (t : Text) :
    Token.blankQuoted (Token.blankQuoted (q :: t)) = Token.blankQuoted (q :: t) := by
  have hbody : ∀ u : Text, IsBody q true (blankOut u) := fun u => isBody_blankOut hq fun _ => rfl
  rw [Token.blankQuoted]
  split
  · show Token.blankQuoted (q :: (blankOut t.dropLast ++ [q])) = q :: (blankOut t.dropLast ++ [q])
    rw [blankQuoted_closed hq (hbody t.dropLast), blankOut_blankOut]
  · rw [blankQuoted_open hq (hbody t), blankOut_blankOut]

theorem flatMap_relexed {view : Token → Text} {ts : List Token} {f g : Token → Text}
    (h : ∀ token ∈ ts, (relexed view token).flatMap f = g token) :
    (ts.flatMap (relexed view)).flatMap f = ts.flatMap g := by
  rw [List.flatMap_assoc]
  exact List.flatMap_congr h

/-- All plain slashes of a script are divisions. -/
def slashesDivide (source : Text) : Bool := slashesDivideFrom [] (script.tokens source)

theorem tokens_code {regex : Bool} {source : Text}
    (h : regex = true → slashesDivideFrom [] ((family regex).tokens source) = true) :
    (family regex).tokens ((family regex).code source) =
      ((family regex).tokens source).flatMap (relexed Token.code) := by
  have hstart : regex = true → Alike [] [] ∨ AtLineEnd source := fun _ => Or.inl .nil
  have hlexes := (lexes_tokensFrom (family regex) [] source).relex (Or.inl rfl) (fun _ => rfl)
    hstart h
  exact hlexes.tokensFrom_eq

theorem tokens_outline (source : Text) :
    (family false).tokens ((family false).outline source) =
      ((family false).tokens source).flatMap (relexed Token.outline) := by
  have hstart : false = true → Alike [] [] ∨ AtLineEnd source := fun _ => Or.inl .nil
  have hlexes := (lexes_tokensFrom (family false) [] source).relex (Or.inr rfl) (by simp) hstart
    (by simp)
  exact hlexes.tokensFrom_eq

/-- **The code of the code is the code**, and its outline is the outline of the source. -/
theorem code_code {regex : Bool} {source : Text}
    (h : regex = true → slashesDivideFrom [] ((family regex).tokens source) = true) :
    (family regex).code ((family regex).code source) = (family regex).code source := by
  show ((family regex).tokens ((family regex).code source)).flatMap Token.code = _
  rw [tokens_code h]
  refine flatMap_relexed fun token _ => ?_
  cases token with
  | plain c => rfl
  | comment t => exact flatMap_plain (Or.inl rfl) _
  | quoted t => simp [relexed, Token.code, Token.source]
  | regex lead body tail => simp [relexed, Token.code, Token.source]

theorem outline_code {regex : Bool} {source : Text}
    (h : regex = true → slashesDivideFrom [] ((family regex).tokens source) = true) :
    (family regex).outline ((family regex).code source) = (family regex).outline source := by
  unfold outline
  rw [tokens_code h]
  refine flatMap_relexed fun token _ => ?_
  cases token with
  | plain c => rfl
  | comment t => exact flatMap_plain (Or.inr rfl) _
  | quoted t => simp [relexed, Token.code, Token.outline, Token.source]
  | regex lead body tail => simp [relexed, Token.outline]

/-- **Both views of the outline are the outline**, without regular-expression literals. -/
theorem outline_outline (source : Text) :
    (family false).outline ((family false).outline source) = (family false).outline source := by
  show ((family false).tokens ((family false).outline source)).flatMap Token.outline = _
  rw [tokens_outline]
  refine flatMap_relexed fun token hmem => ?_
  rcases (lexes_tokensFrom (family false) [] source).mem_cases hmem with
    ⟨c, rfl⟩ | ⟨w, rfl⟩ | ⟨q, w, hq, rfl⟩ | ⟨hfalse, -⟩
  · rfl
  · exact flatMap_plain (Or.inr rfl) _
  · simpa [relexed, Token.outline] using blankQuoted_blankQuoted hq w
  · contradiction

theorem code_outline (source : Text) :
    (family false).code ((family false).outline source) = (family false).outline source := by
  unfold code
  rw [tokens_outline]
  refine flatMap_relexed fun token hmem => ?_
  rcases (lexes_tokensFrom (family false) [] source).mem_cases hmem with
    ⟨c, rfl⟩ | ⟨w, rfl⟩ | ⟨q, w, hq, rfl⟩ | ⟨hfalse, -⟩
  · rfl
  · exact flatMap_plain (Or.inl rfl) _
  · simp [relexed, Token.outline, Token.code, Token.source]
  · contradiction

end CommentStyle

end CodeAtlas
