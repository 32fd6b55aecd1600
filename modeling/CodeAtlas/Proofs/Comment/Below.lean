import CodeAtlas.Proofs.Comment.Relexing
import CodeAtlas.Proofs.Text.Below

set_option autoImplicit false

/-! # Comments in a text that is moved down

Empty lines above a text are plain characters, and a reader that has passed them is where it is at the
start of a text: whether an operand may start is the only thing that it asks about what it has read, and at
the start of a line it may, as at the start of the text (`operandExpected_above`). So both views of the
text are moved down with it (`code_below`, `outline_below`).
-/

namespace CodeAtlas.CommentStyle

open Text

variable {k : Nat}

/-- A word without a line feed is not looked for beyond the start of the text. -/
theorem isPrefixOf_above {w : Text} (hw : '\n' ∉ w) (before : Text) :
    w.isPrefixOf (above k before) = w.isPrefixOf before := by
  induction w generalizing before with
  | nil => simp
  | cons d w ih =>
      rw [List.mem_cons, not_or] at hw
      cases before with
      | cons c before =>
          show (d :: w).isPrefixOf (c :: above k before) = _
          rw [List.isPrefixOf_cons_cons, List.isPrefixOf_cons_cons, ih hw.2]
      | nil =>
          cases k with
          | zero => rfl
          | succ k =>
              show (d :: w).isPrefixOf ('\n' :: List.replicate k '\n') = false
              rw [List.isPrefixOf_cons_cons, beq_eq_false_iff_ne.mpr (Ne.symm hw.1), Bool.false_and]

/-- **At the start of a line an operand is expected**, as it is at the start of the text. -/
theorem operandExpected_above (k : Nat) (before : Text) :
    operandExpected (above k before) = operandExpected before := by
  have hreturn : ("nruter".toList.isPrefixOf (above k before) &&
        !((above k before).drop 6).head?.any Text.isWord) =
      ("nruter".toList.isPrefixOf before && !(before.drop 6).head?.any Text.isWord) := by
    rw [isPrefixOf_above (by decide)]
    cases hword : "nruter".toList.isPrefixOf before with
    | false => rfl
    | true =>
        -- The word is there, so what stands before it is still cut off behind the empty lines.
        obtain ⟨rest, rfl⟩ := List.isPrefixOf_iff_prefix.mp hword
        have hdrop : ((above k ("nruter".toList ++ rest)).drop 6).head?.any Text.isWord =
            rest.head?.any Text.isWord := head?_above_any (by decide) rest
        rw [hdrop]
        rfl
  cases before with
  | nil =>
      cases k with
      | zero => rfl
      | succ k => rfl
  | cons c before =>
      show (_ || _ || ("nruter".toList.isPrefixOf (above k (c :: before)) &&
        !((above k (c :: before)).drop 6).head?.any Text.isWord)) = _
      rw [hreturn]
      rfl

theorem regex?_above (before rest : Text) : regex? (above k before) rest = regex? before rest := by
  rw [regex?, regex?, operandExpected_above]

theorem lexeme?_above (style : CommentStyle) (before rest : Text) :
    lexeme? style (above k before) rest = lexeme? style before rest := by
  rw [lexeme?, lexeme?, regex?_above]

theorem tokensFrom_above (style : CommentStyle) (skip : Nat) (before rest : Text) :
    tokensFrom style skip (above k before) rest = tokensFrom style skip before rest := by
  induction rest generalizing skip before with
  | nil => rw [tokensFrom, tokensFrom]
  | cons c rest ih =>
      have hrest : ∀ skip, tokensFrom style skip (c :: above k before) rest =
          tokensFrom style skip (c :: before) rest := fun skip => ih skip (c :: before)
      cases skip with
      | succ skip => rw [tokensFrom, tokensFrom, hrest]
      | zero =>
          rw [tokensFrom, tokensFrom, lexeme?_above]
          simp only [hrest]

/-- **Empty lines are read as plain characters**, and what is below them is read as if they were not
there. -/
theorem tokens_below (regex : Bool) (k : Nat) (source : Text) :
    (family regex).tokens (below k source) =
      List.replicate k (.plain '\n') ++ (family regex).tokens source := by
  have hlines : ∀ n before, tokensFrom (family regex) 0 before (below n source) =
      List.replicate n (.plain '\n') ++
        tokensFrom (family regex) 0 (List.replicate n '\n' ++ before) source := by
    intro n
    induction n with
    | zero => exact fun before => rfl
    | succ n ih =>
        intro before
        have hnone : lexeme? (family regex) before ('\n' :: below n source) = none :=
          lexeme?_eq_none_of_inert (Or.inr rfl) before (below n source)
        show tokensFrom (family regex) 0 before ('\n' :: below n source) = _
        rw [tokensFrom, hnone]
        simp only
        rw [ih, List.replicate_succ, List.cons_append, List.replicate_succ', List.append_assoc]
        rfl
  calc (family regex).tokens (below k source)
      = List.replicate k (Token.plain '\n') ++
          tokensFrom (family regex) 0 (List.replicate k '\n' ++ []) source := hlines k []
    _ = List.replicate k (Token.plain '\n') ++ tokensFrom (family regex) 0 (above k []) source := by
        rw [List.append_nil, above, List.nil_append]
    _ = List.replicate k (Token.plain '\n') ++ (family regex).tokens source := by
        rw [tokensFrom_above, tokens]

theorem flatMap_replicate_plain {view : Token → Text} (hview : view (.plain '\n') = ['\n']) (k : Nat) :
    (List.replicate k (Token.plain '\n')).flatMap view = List.replicate k '\n' := by
  induction k with
  | zero => rfl
  | succ k ih =>
      rw [List.replicate_succ, List.flatMap_cons, hview, ih, List.replicate_succ, List.singleton_append]

theorem code_below (regex : Bool) (k : Nat) (source : Text) :
    (family regex).code (below k source) = below k ((family regex).code source) := by
  rw [code, tokens_below, List.flatMap_append, flatMap_replicate_plain rfl]
  rfl

theorem outline_below (regex : Bool) (k : Nat) (source : Text) :
    (family regex).outline (below k source) = below k ((family regex).outline source) := by
  rw [outline, tokens_below, List.flatMap_append, flatMap_replicate_plain rfl]
  rfl

end CodeAtlas.CommentStyle
