import CodeAtlas.Bracket
import Mathlib.Tactic

set_option autoImplicit false

/-! # Blocks and expressions do not cross

Two ways of delimiting a stretch of text by counting brackets are compared here: the block from a
bracket to the one that closes it (`Bracket.blockEnd`), and the expression from a position to the first
separator or closing bracket at depth zero (`Bracket.expressionEnd`).

* Two blocks of one kind of bracket never cross, on any text: the inner one is counted from a depth
  that is not larger, so it closes first (`blockEnd_lt_or_le`).
* Two expressions never cross, on any text, for the same reason (`expressionEnd_mono`).
* A block counts braces only and an expression counts all brackets, so these two may cross, as in
  `{ ( } )`. They do not on a text whose brackets are properly nested: there the text between a brace
  and the one that closes it is nested itself (`exists_nested_block`), and counting through it leaves
  any depth as it was (`expressionEndFrom_nested`).
-/

namespace CodeAtlas

/-! ## Cutting a text at a position -/

theorem exists_drop_eq_append {t : Text} {i j : Nat} (hij : i ≤ j) (hj : j ≤ t.length) :
    ∃ u, u.length = j - i ∧ t.drop i = u ++ t.drop j := by
  refine ⟨(t.drop i).take (j - i), ?_, ?_⟩
  · rw [List.length_take, List.length_drop]
    omega
  · have hdrop : (t.drop i).drop (j - i) = t.drop j := by
      rw [List.drop_drop]
      congr 1
      omega
    rw [← hdrop, List.take_append_drop]

namespace Bracket

/-! ## Blocks of one kind of bracket -/

section Blocks

variable {opener closer : Char}

/-- How much a text raises the depth. -/
def balance (opener closer : Char) (t : Text) : Int := t.count opener - t.count closer

theorem balance_opener (hne : opener ≠ closer) (t : Text) :
    balance opener closer (opener :: t) = balance opener closer t + 1 := by
  simp [balance, hne]
  omega

theorem balance_closer (hne : opener ≠ closer) (t : Text) :
    balance opener closer (closer :: t) = balance opener closer t - 1 := by
  simp [balance, Ne.symm hne]
  omega

theorem balance_other {c : Char} (hopen : c ≠ opener) (hclose : c ≠ closer) (t : Text) :
    balance opener closer (c :: t) = balance opener closer t := by
  simp [balance, hopen, hclose]

theorem closing?_opener (d : Int) (i : Nat) (t : Text) :
    closing? opener closer d i (opener :: t) = closing? opener closer (d + 1) (i + 1) t := by
  simp [closing?]

theorem closing?_drop_opener {t : Text} {i : Nat} (hi : t[i]? = some opener) (d : Int) :
    closing? opener closer d i (t.drop i) =
      closing? opener closer (d + 1) (i + 1) (t.drop (i + 1)) := by
  rw [List.drop_eq_getElem?_toList_append, hi, Option.toList_some, List.singleton_append,
    closing?_opener]

theorem closing?_closer (hne : opener ≠ closer) (d : Int) (i : Nat) (t : Text) :
    closing? opener closer d i (closer :: t)
      = if d = 1 then some i else closing? opener closer (d - 1) (i + 1) t := by
  simp [closing?, Ne.symm hne, sub_eq_zero]

theorem closing?_other {c : Char} (hopen : c ≠ opener) (hclose : c ≠ closer) (d : Int) (i : Nat)
    (t : Text) : closing? opener closer d i (c :: t) = closing? opener closer d (i + 1) t := by
  simp [closing?, hopen, hclose]

theorem closing?_append (hne : opener ≠ closer) (d : Int) (i : Nat) (u v : Text) :
    closing? opener closer d i (u ++ v) = (closing? opener closer d i u).or
      (closing? opener closer (d + balance opener closer u) (i + u.length) v) := by
  induction u generalizing d i with
  | nil => simp [closing?, balance]
  | cons c u ih =>
      have hlength : i + 1 + u.length = i + (c :: u).length := by
        rw [List.length_cons]
        omega
      rw [List.cons_append]
      by_cases hopen : c = opener
      · subst hopen
        rw [closing?_opener, closing?_opener, ih, hlength, balance_opener hne]
        congr 2
        omega
      · by_cases hclose : c = closer
        · subst hclose
          rw [closing?_closer hne, closing?_closer hne]
          split
          · rfl
          · rw [ih, hlength, balance_closer hne]
            congr 2
            omega
        · rw [closing?_other hopen hclose, closing?_other hopen hclose, ih, hlength,
            balance_other hopen hclose]

theorem closing?_bounds {d : Int} {i j : Nat} {t : Text}
    (h : closing? opener closer d i t = some j) : i ≤ j ∧ j < i + t.length := by
  induction t generalizing d i with
  | nil => simp [closing?] at h
  | cons c t ih =>
      rw [List.length_cons]
      rw [closing?] at h
      split at h
      · have := ih h
        omega
      · split at h
        · split at h
          · rw [Option.some_inj] at h
            omega
          · have := ih h
            omega
        · have := ih h
          omega

/-- As long as a block is not closed its depth stays positive. -/
theorem balance_pos_of_closing?_eq_none {d : Int} {i : Nat} {t : Text} (hne : opener ≠ closer)
    (hd : 1 ≤ d) (h : closing? opener closer d i t = none) :
    1 ≤ d + balance opener closer t := by
  induction t generalizing d i with
  | nil => simpa [balance] using hd
  | cons c t ih =>
      by_cases hopen : c = opener
      · subst hopen
        rw [closing?_opener] at h
        have hrest := ih (by omega) h
        rw [balance_opener hne]
        omega
      · by_cases hclose : c = closer
        · subst hclose
          rw [closing?_closer hne] at h
          split at h
          · simp at h
          · have hrest := ih (by omega) h
            rw [balance_closer hne]
            omega
        · rw [closing?_other hopen hclose] at h
          rw [balance_other hopen hclose]
          exact ih hd h

/-- Counted from a smaller depth, a block closes no later. -/
theorem closing?_of_le {d d' : Int} {i j' : Nat} {t : Text} (hne : opener ≠ closer) (hd : 1 ≤ d)
    (hle : d ≤ d') (h : closing? opener closer d' i t = some j') :
    ∃ j, closing? opener closer d i t = some j ∧ j ≤ j' := by
  induction t generalizing d d' i with
  | nil => simp [closing?] at h
  | cons c t ih =>
      by_cases hopen : c = opener
      · subst hopen
        rw [closing?_opener] at h ⊢
        exact ih (by omega) (by omega) h
      · by_cases hclose : c = closer
        · subst hclose
          have hlater := closing?_bounds h
          rw [closing?_closer hne] at h ⊢
          by_cases hone : d = 1
          · -- The inner block closes here, and the outer one here or later.
            exact ⟨i, by rw [if_pos hone], hlater.1⟩
          · rw [if_neg (by omega)] at h
            rw [if_neg hone]
            exact ih (by omega) (by omega) h
        · rw [closing?_other hopen hclose] at h ⊢
          exact ih hd hle h

theorem blockEnd_le_length (t : Text) (i : Nat) : blockEnd opener closer t i ≤ t.length - 1 := by
  unfold blockEnd
  cases h : closing? opener closer 0 i (t.drop i) with
  | none => exact Nat.le_refl _
  | some j =>
      have hbounds := closing?_bounds h
      rw [List.length_drop] at hbounds
      simp only [Option.getD_some]
      omega

/-- **Blocks of one kind of bracket do not cross**: a block that opens later opens after the other is
closed, or closes no later. -/
theorem blockEnd_lt_or_le (hne : opener ≠ closer) {t : Text} {i j : Nat} (hi : t[i]? = some opener)
    (hj : t[j]? = some opener) (hij : i < j) :
    blockEnd opener closer t i < j ∨
      blockEnd opener closer t j ≤ blockEnd opener closer t i := by
  have hjlt : j < t.length := (List.getElem?_eq_some_iff.mp hj).1
  obtain ⟨u, hu, hsplit⟩ := exists_drop_eq_append (t := t) (i := i + 1) (j := j) hij (by omega)
  have hstart : closing? opener closer 0 i (t.drop i)
      = closing? opener closer 1 (i + 1) (u ++ t.drop j) := by
    rw [closing?_drop_opener hi, ← hsplit]
    rfl
  rw [closing?_append hne] at hstart
  cases hclosed : closing? opener closer 1 (i + 1) u with
  | some k =>
      left
      have hbounds := closing?_bounds hclosed
      rw [hclosed, Option.some_or] at hstart
      rw [blockEnd, hstart, Option.getD_some]
      omega
  | none =>
      right
      -- The outer block is open at `j`. If it is never closed it reaches the end of the text.
      rw [hclosed, Option.none_or, show i + 1 + u.length = j by omega] at hstart
      cases houter : closing? opener closer 0 i (t.drop i) with
      | none =>
          have hend : blockEnd opener closer t i = t.length - 1 := by rw [blockEnd, houter]; rfl
          rw [hend]
          exact blockEnd_le_length t j
      | some k =>
          -- At the inner bracket the outer block is open, so the inner one closes first.
          have hdepth := balance_pos_of_closing?_eq_none hne (by omega) hclosed
          rw [houter, closing?_drop_opener hj] at hstart
          obtain ⟨l, hl, hle⟩ := closing?_of_le hne (Int.le_refl 1) (by omega) hstart.symm
          have hinner : closing? opener closer 0 j (t.drop j) = some l := by
            rw [closing?_drop_opener hj]
            exact hl
          rw [blockEnd, blockEnd, hinner, houter]
          exact hle

end Blocks

/-! ## Expressions -/

/-- A character that ends an expression at depth zero. -/
def separates (c : Char) : Bool := c == ';' || c == ',' || c == '\n'

theorem expressionEndFrom_opens {c : Char} (h : opens c = true) (f d i : Nat) (t : Text) :
    expressionEndFrom f d i (c :: t) = expressionEndFrom f (d + 1) (i + 1) t := by
  simp [expressionEndFrom, h]

theorem opens_eq_false_of_closes {c : Char} (h : closes c = true) : opens c = false := by
  simp only [closes, Bool.or_eq_true, beq_iff_eq] at h
  rcases h with (rfl | rfl) | rfl <;> rfl

theorem expressionEndFrom_closes {c : Char} (h : closes c = true) (f d i : Nat) (t : Text) :
    expressionEndFrom f d i (c :: t)
      = if d = 0 then some (max f (i - 1)) else expressionEndFrom f (d - 1) (i + 1) t := by
  simp [expressionEndFrom, h, opens_eq_false_of_closes h]

theorem expressionEndFrom_other {c : Char} (hopen : opens c = false) (hclose : closes c = false)
    (f d i : Nat) (t : Text) :
    expressionEndFrom f d i (c :: t)
      = if d = 0 ∧ separates c = true then some i else expressionEndFrom f d (i + 1) t := by
  simp [expressionEndFrom, hopen, hclose, separates]

/-- An expression ends at a character `p` of the text, or right before it. -/
theorem expressionEndFrom_bounds {f d i g : Nat} {t : Text}
    (h : expressionEndFrom f d i t = some g) :
    ∃ p, i ≤ p ∧ p < i + t.length ∧ p ≤ g + 1 ∧ g ≤ max f p := by
  induction t generalizing d i with
  | nil => simp [expressionEndFrom] at h
  | cons c t ih =>
      have hlater : ∀ {d' : Nat}, expressionEndFrom f d' (i + 1) t = some g →
          ∃ p, i ≤ p ∧ p < i + (c :: t).length ∧ p ≤ g + 1 ∧ g ≤ max f p := by
        intro d' h
        obtain ⟨p, h₁, h₂, h₃, h₄⟩ := ih h
        refine ⟨p, by omega, ?_, h₃, h₄⟩
        rw [List.length_cons]
        omega
      have hhere : i < i + (c :: t).length := by simp
      cases hopen : opens c with
      | true =>
          rw [expressionEndFrom_opens hopen] at h
          exact hlater h
      | false =>
          cases hclose : closes c with
          | true =>
              rw [expressionEndFrom_closes hclose] at h
              split at h
              · rw [Option.some_inj] at h
                exact ⟨i, Nat.le_refl i, hhere, by omega, by omega⟩
              · exact hlater h
          | false =>
              rw [expressionEndFrom_other hopen hclose] at h
              split at h
              · rw [Option.some_inj] at h
                exact ⟨i, Nat.le_refl i, hhere, by omega, by omega⟩
              · exact hlater h

/-- Reading a text in two parts: the expression ends in the first part, or the second part is read
from the depth that the first one leaves. -/
theorem expressionEndFrom_append (f d i : Nat) (u v : Text) :
    (∃ g, expressionEndFrom f d i u = some g ∧ expressionEndFrom f d i (u ++ v) = some g) ∨
      ∃ d', expressionEndFrom f d i (u ++ v) = expressionEndFrom f d' (i + u.length) v := by
  induction u generalizing d i with
  | nil => exact Or.inr ⟨d, rfl⟩
  | cons c u ih =>
      have hlength : i + 1 + u.length = i + (c :: u).length := by
        rw [List.length_cons]
        omega
      rw [List.cons_append, ← hlength]
      cases hopen : opens c with
      | true =>
          rw [expressionEndFrom_opens hopen, expressionEndFrom_opens hopen]
          exact ih (d + 1) (i + 1)
      | false =>
          cases hclose : closes c with
          | true =>
              rw [expressionEndFrom_closes hclose, expressionEndFrom_closes hclose]
              split
              · exact Or.inl ⟨_, rfl, rfl⟩
              · exact ih (d - 1) (i + 1)
          | false =>
              rw [expressionEndFrom_other hopen hclose, expressionEndFrom_other hopen hclose]
              split
              · exact Or.inl ⟨_, rfl, rfl⟩
              · exact ih d (i + 1)

/-- Counted from a smaller depth, an expression ends no later. -/
theorem expressionEndFrom_of_le {f f' d d' i g' : Nat} {t : Text} (hle : d ≤ d')
    (h : expressionEndFrom f' d' i t = some g') :
    ∃ g, expressionEndFrom f d i t = some g ∧ g ≤ max f g' := by
  induction t generalizing d d' i with
  | nil => simp [expressionEndFrom] at h
  | cons c t ih =>
      obtain ⟨p, hip, -, hpg, -⟩ := expressionEndFrom_bounds h
      cases hopen : opens c with
      | true =>
          rw [expressionEndFrom_opens hopen] at h ⊢
          exact ih (by omega) h
      | false =>
          cases hclose : closes c with
          | true =>
              rw [expressionEndFrom_closes hclose] at h ⊢
              by_cases hzero : d = 0
              · exact ⟨_, by rw [if_pos hzero], by omega⟩
              · rw [if_neg (by omega)] at h
                rw [if_neg hzero]
                exact ih (by omega) h
          | false =>
              rw [expressionEndFrom_other hopen hclose] at h ⊢
              by_cases hstop : d = 0 ∧ separates c = true
              · refine ⟨i, by rw [if_pos hstop], ?_⟩
                by_cases hzero : d' = 0
                · rw [if_pos ⟨hzero, hstop.2⟩, Option.some_inj] at h
                  omega
                · -- The outer expression goes on behind this character.
                  rw [if_neg (by omega)] at h
                  obtain ⟨q, hiq, -, hqg, -⟩ := expressionEndFrom_bounds h
                  omega
              · have hstop' : ¬(d' = 0 ∧ separates c = true) := by
                  rintro ⟨hzero, hsep⟩
                  exact hstop ⟨by omega, hsep⟩
                rw [if_neg hstop'] at h
                rw [if_neg hstop]
                exact ih hle h

theorem expressionEnd_le_length (t : Text) (a : Nat) : expressionEnd t a ≤ t.length - 1 := by
  unfold expressionEnd
  cases h : expressionEndFrom a 0 a (t.drop a) with
  | none => exact Nat.le_refl _
  | some g =>
      obtain ⟨p, hap, hp, -, hg⟩ := expressionEndFrom_bounds h
      rw [List.length_drop] at hp
      simp only [Option.getD_some]
      omega

/-- Where an expression is when it reaches a later position: at some depth. -/
theorem exists_expressionEnd_eq {t : Text} {a b : Nat} (hab : a ≤ b) (hb : b < t.length)
    (hreach : b ≤ expressionEnd t a) :
    ∃ d, expressionEnd t a = (expressionEndFrom a d b (t.drop b)).getD (t.length - 1) := by
  obtain ⟨u, hu, hsplit⟩ := exists_drop_eq_append hab (Nat.le_of_lt hb)
  rcases expressionEndFrom_append a 0 a u (t.drop b) with ⟨g, hg, hg'⟩ | ⟨d, hd⟩
  · -- It would have ended before that position.
    obtain ⟨p, hp₁, hp₂, -, hp₃⟩ := expressionEndFrom_bounds hg
    rw [expressionEnd, hsplit, hg', Option.getD_some] at hreach
    omega
  · refine ⟨d, ?_⟩
    rw [expressionEnd, hsplit, hd, show a + u.length = b by omega]

/-- **Expressions do not cross**: one that starts within another ends within it. -/
theorem expressionEnd_mono {t : Text} {a b : Nat} (hab : a ≤ b) (hb : b < t.length)
    (hreach : b ≤ expressionEnd t a) : expressionEnd t b ≤ expressionEnd t a := by
  obtain ⟨d, hd⟩ := exists_expressionEnd_eq hab hb hreach
  cases houter : expressionEndFrom a d b (t.drop b) with
  | none =>
      rw [hd, houter, Option.getD_none]
      exact expressionEnd_le_length t b
  | some g =>
      obtain ⟨k, hk, hkg⟩ := expressionEndFrom_of_le (f := b) (Nat.zero_le d) houter
      rw [hd, houter, Option.getD_some] at hreach ⊢
      rw [expressionEnd, hk, Option.getD_some]
      omega

/-! ## Properly nested texts -/

/-- The bracket that closes an opening one. -/
def partner (c : Char) : Char := if c == '(' then ')' else if c == '[' then ']' else '\x7d'

/-- Close the innermost bracket. -/
def pop? (c : Char) : List Char → Option (List Char)
  | [] => none
  | top :: below => if c = top then some below else none

/-- Read brackets onto a stack of those that are to be closed, innermost first. None if a bracket is
closed that is not the innermost. -/
def nest : List Char → Text → Option (List Char)
  | stack, [] => some stack
  | stack, c :: t =>
    if opens c then nest (partner c :: stack) t
    else if closes c then (pop? c stack).bind fun below => nest below t
    else nest stack t

/-- All brackets of the text are closed, each by its partner and in order. -/
def Nested (t : Text) : Prop := nest [] t = some []

instance (t : Text) : Decidable (Nested t) := inferInstanceAs (Decidable (_ = _))

theorem nest_append (stack : List Char) (u v : Text) :
    nest stack (u ++ v) = (nest stack u).bind fun below => nest below v := by
  induction u generalizing stack with
  | nil => rfl
  | cons c u ih =>
      rw [List.cons_append, nest, nest]
      split
      · exact ih _
      · split
        · rw [Option.bind_assoc]
          congr 1
          funext below
          exact ih below
        · exact ih stack

theorem nest_opens {c : Char} (h : opens c = true) (stack : List Char) (t : Text) :
    nest stack (c :: t) = nest (partner c :: stack) t := by
  rw [nest, if_pos h]

theorem nest_closes {c : Char} (h : closes c = true) (stack : List Char) (t : Text) :
    nest stack (c :: t) = (pop? c stack).bind fun below => nest below t := by
  rw [nest, if_neg (by simp [opens_eq_false_of_closes h]), if_pos h]

theorem nest_other {c : Char} (hopen : opens c = false) (hclose : closes c = false)
    (stack : List Char) (t : Text) : nest stack (c :: t) = nest stack t := by
  simp [nest, hopen, hclose]

/-- A closing bracket is the innermost of those that are to be closed. -/
theorem exists_of_nest_closes {c : Char} (h : closes c = true) {stack result : List Char}
    {t : Text} (hnest : nest stack (c :: t) = some result) :
    ∃ below, stack = c :: below ∧ nest below t = some result := by
  rw [nest_closes h] at hnest
  obtain ⟨below, hpop, hbelow⟩ := Option.bind_eq_some_iff.mp hnest
  cases stack with
  | nil => simp [pop?] at hpop
  | cons top rest =>
      rw [pop?, Option.ite_none_right_eq_some, Option.some_inj] at hpop
      obtain ⟨rfl, rfl⟩ := hpop
      exact ⟨rest, rfl, hbelow⟩

/-- Reading a nested text within an expression leaves its depth as it was, if that is positive. -/
theorem expressionEndFrom_nested {stack result : List Char} {w : Text}
    (hw : nest stack w = some result) {k : Nat} (hk : 0 < k) (f i : Nat) (t : Text) :
    expressionEndFrom f (k + stack.length) i (w ++ t)
      = expressionEndFrom f (k + result.length) (i + w.length) t := by
  induction w generalizing stack i with
  | nil =>
      obtain rfl := Option.some_inj.mp hw
      rfl
  | cons c w ih =>
      have hlength : i + (c :: w).length = i + 1 + w.length := by
        rw [List.length_cons]
        omega
      rw [List.cons_append, hlength]
      cases hopen : opens c with
      | true =>
          rw [nest_opens hopen] at hw
          rw [expressionEndFrom_opens hopen, ← ih hw]
          rfl
      | false =>
          cases hclose : closes c with
          | true =>
              obtain ⟨below, rfl, hbelow⟩ := exists_of_nest_closes hclose hw
              rw [expressionEndFrom_closes hclose, if_neg (by omega), ← ih hbelow]
              rfl
          | false =>
              rw [nest_other hopen hclose] at hw
              rw [expressionEndFrom_other hopen hclose, if_neg (by omega), ← ih hw]

/-- Counting braces alone keeps the number of braces on the stack: what a character does to the one
it does to the other. -/
theorem closing?_brace_opens {c : Char} (h : opens c = true) (stack : List Char) (i : Nat)
    (t : Text) :
    closing? '\x7b' '\x7d' (stack.count '\x7d' + 1) i (c :: t)
      = closing? '\x7b' '\x7d' ((partner c :: stack).count '\x7d' + 1) (i + 1) t := by
  simp only [opens, Bool.or_eq_true, beq_iff_eq] at h
  rcases h with (rfl | rfl) | rfl
  · rw [closing?_other (by decide) (by decide)]
    rfl
  · rw [closing?_other (by decide) (by decide)]
    rfl
  · rw [closing?_opener]
    simp [partner]

theorem closing?_brace_closes {c : Char} (h : closes c = true) (stack : List Char) (i : Nat)
    (t : Text) :
    closing? '\x7b' '\x7d' ((c :: stack).count '\x7d' + 1) i (c :: t)
      = closing? '\x7b' '\x7d' (stack.count '\x7d' + 1) (i + 1) t := by
  simp only [closes, Bool.or_eq_true, beq_iff_eq] at h
  rcases h with (rfl | rfl) | rfl
  · rw [closing?_other (by decide) (by decide)]
    rfl
  · rw [closing?_other (by decide) (by decide)]
    rfl
  · rw [closing?_closer (by decide), if_neg (by simp; omega)]
    simp

theorem closing?_brace_other {c : Char} (hopen : opens c = false) (hclose : closes c = false)
    (d : Int) (i : Nat) (t : Text) :
    closing? '\x7b' '\x7d' d i (c :: t) = closing? '\x7b' '\x7d' d (i + 1) t := by
  refine closing?_other ?_ ?_ d i t
  · rintro rfl
    simp [opens] at hopen
  · rintro rfl
    simp [closes] at hclose

/-- A text read down to an open brace splits at the brace that closes it. Counting braces alone finds
that brace, since the brackets in between are nested. -/
theorem exists_nested_block {above stack : List Char} {t : Text}
    (h : nest (above ++ '\x7d' :: stack) t = some []) (i : Nat) :
    ∃ w rest, t = w ++ '\x7d' :: rest ∧ nest above w = some [] ∧
      closing? '\x7b' '\x7d' (above.count '\x7d' + 1) i t = some (i + w.length) := by
  induction t generalizing above i with
  | nil => simp [nest] at h
  | cons c t ih =>
      have hplace : ∀ w : Text, i + 1 + w.length = i + (c :: w).length := by
        intro w
        rw [List.length_cons]
        omega
      cases hopen : opens c with
      | true =>
          rw [nest_opens hopen, ← List.cons_append] at h
          obtain ⟨w, rest, rfl, hw, hclosing⟩ := ih h (i + 1)
          refine ⟨c :: w, rest, rfl, by rw [nest_opens hopen, hw], ?_⟩
          rw [closing?_brace_opens hopen, hclosing, hplace]
      | false =>
          cases hclose : closes c with
          | true =>
              -- Either the brace itself is closed here or a bracket within it.
              obtain ⟨below, hstack, hbelow⟩ := exists_of_nest_closes hclose h
              cases above with
              | nil =>
                  obtain ⟨rfl, rfl⟩ : '\x7d' = c ∧ stack = below := by simpa using hstack
                  exact ⟨[], t, rfl, rfl, rfl⟩
              | cons top above =>
                  obtain ⟨rfl, rfl⟩ : top = c ∧ above ++ '\x7d' :: stack = below := by
                    simpa using hstack
                  obtain ⟨w, rest, rfl, hw, hclosing⟩ := ih hbelow (i + 1)
                  refine ⟨top :: w, rest, rfl, ?_, ?_⟩
                  · rw [nest_closes hclose, pop?, if_pos rfl]
                    exact hw
                  · rw [closing?_brace_closes hclose, hclosing, hplace]
          | false =>
              rw [nest_other hopen hclose] at h
              obtain ⟨w, rest, rfl, hw, hclosing⟩ := ih h (i + 1)
              refine ⟨c :: w, rest, rfl, by rw [nest_other hopen hclose, hw], ?_⟩
              rw [closing?_brace_other hopen hclose, hclosing, hplace]

/-- The block at a brace of a nested text. -/
theorem Nested.block {t : Text} (h : Nested t) {i : Nat} (hi : t[i]? = some '\x7b') :
    ∃ w rest, t.drop (i + 1) = w ++ '\x7d' :: rest ∧ nest [] w = some [] ∧
      braceEnd t i = i + 1 + w.length := by
  rw [Nested, ← List.take_append_drop i t, nest_append] at h
  obtain ⟨stack, -, hstack⟩ := Option.bind_eq_some_iff.mp h
  rw [List.drop_eq_getElem?_toList_append, hi, Option.toList_some, List.singleton_append,
    nest_opens rfl] at hstack
  have hopen : nest ([] ++ '\x7d' :: stack) (t.drop (i + 1)) = some [] := hstack
  obtain ⟨w, rest, hsplit, hw, hclosing⟩ := exists_nested_block hopen (i + 1)
  refine ⟨w, rest, hsplit, hw, ?_⟩
  have hstart : closing? '\x7b' '\x7d' 0 i (t.drop i) = some (i + 1 + w.length) := by
    rw [closing?_drop_opener hi]
    exact hclosing
  rw [braceEnd, blockEnd, hstart, Option.getD_some]

/-! ## Blocks and expressions -/

/-- **A block within an expression ends within it.** -/
theorem Nested.braceEnd_le_expressionEnd {t : Text} (h : Nested t) {a i : Nat}
    (hi : t[i]? = some '\x7b') (hai : a ≤ i) (hreach : i ≤ expressionEnd t a) :
    braceEnd t i ≤ expressionEnd t a := by
  have hilt : i < t.length := (List.getElem?_eq_some_iff.mp hi).1
  obtain ⟨w, rest, hsplit, hw, hend⟩ := h.block hi
  obtain ⟨d, hd⟩ := exists_expressionEnd_eq hai hilt hreach
  -- The depth is positive from the brace on, so nothing ends the expression before the block.
  have hskip : expressionEndFrom a d i (t.drop i)
      = expressionEndFrom a d (i + 1 + w.length + 1) rest := by
    have hinner : expressionEndFrom a (d + 1) (i + 1) (w ++ '\x7d' :: rest)
        = expressionEndFrom a (d + 1) (i + 1 + w.length) ('\x7d' :: rest) :=
      expressionEndFrom_nested hw (Nat.succ_pos d) a (i + 1) ('\x7d' :: rest)
    calc expressionEndFrom a d i (t.drop i)
        = expressionEndFrom a (d + 1) (i + 1) (w ++ '\x7d' :: rest) := by
          rw [List.drop_eq_getElem?_toList_append, hi, Option.toList_some, List.singleton_append,
            expressionEndFrom_opens rfl, hsplit]
      _ = expressionEndFrom a (d + 1) (i + 1 + w.length) ('\x7d' :: rest) := hinner
      _ = expressionEndFrom a d (i + 1 + w.length + 1) rest := by
          rw [expressionEndFrom_closes rfl, if_neg (by omega), Nat.add_sub_cancel]
  rw [hd, hskip, hend]
  cases hrest : expressionEndFrom a d (i + 1 + w.length + 1) rest with
  | none =>
      have hlength := congrArg List.length hsplit
      rw [List.length_drop, List.length_append, List.length_cons] at hlength
      rw [Option.getD_none]
      omega
  | some g =>
      obtain ⟨p, hp, -, hpg, -⟩ := expressionEndFrom_bounds hrest
      rw [Option.getD_some]
      omega

/-- Below the depth of a nested text an expression ends at the latest with the text. -/
theorem expressionEndFrom_le_of_nest {above below : List Char} {w : Text}
    (hw : nest (above ++ below) w = some []) (f i : Nat) {c : Char} (hc : closes c = true)
    (t : Text) :
    ∃ g, expressionEndFrom f above.length i (w ++ c :: t) = some g ∧ g ≤ max f (i + w.length) := by
  induction w generalizing above i with
  | nil =>
      -- Nothing is open, and the closing bracket after the text ends the expression.
      obtain ⟨rfl, rfl⟩ : above = [] ∧ below = [] := by simpa [nest] using hw
      refine ⟨max f (i - 1), ?_, ?_⟩
      · rw [List.nil_append, expressionEndFrom_closes hc]
        rfl
      · rw [List.length_nil]
        omega
  | cons e w ih =>
      have hlength : i + (e :: w).length = i + 1 + w.length := by
        rw [List.length_cons]
        omega
      rw [List.cons_append, hlength]
      cases hopen : opens e with
      | true =>
          rw [nest_opens hopen, ← List.cons_append] at hw
          rw [expressionEndFrom_opens hopen]
          exact ih hw (i + 1)
      | false =>
          cases hclose : closes e with
          | true =>
              -- The depth is that of `above`: the expression ends when a bracket below it closes.
              obtain ⟨rest, hstack, hrest⟩ := exists_of_nest_closes hclose hw
              rw [expressionEndFrom_closes hclose]
              cases above with
              | nil => exact ⟨_, if_pos rfl, by omega⟩
              | cons top above =>
                  obtain ⟨rfl, rfl⟩ : top = e ∧ above ++ below = rest := by simpa using hstack
                  rw [if_neg (by simp)]
                  exact ih hrest (i + 1)
          | false =>
              rw [nest_other hopen hclose] at hw
              rw [expressionEndFrom_other hopen hclose]
              split
              · exact ⟨i, rfl, by omega⟩
              · exact ih hw (i + 1)

/-- **An expression within a block ends within it.** -/
theorem Nested.expressionEnd_le_braceEnd {t : Text} (h : Nested t) {a i : Nat}
    (hi : t[i]? = some '\x7b') (hia : i < a) (ha : a ≤ braceEnd t i) :
    expressionEnd t a ≤ braceEnd t i := by
  obtain ⟨w, rest, hsplit, hw, hend⟩ := h.block hi
  rw [hend] at ha ⊢
  have hcut : w = w.take (a - (i + 1)) ++ w.drop (a - (i + 1)) := (List.take_append_drop _ w).symm
  have hfrom : t.drop a = w.drop (a - (i + 1)) ++ '\x7d' :: rest := by
    have hdrop : t.drop a = (t.drop (i + 1)).drop (a - (i + 1)) := by
      rw [List.drop_drop]
      congr 1
      omega
    rw [hdrop, hsplit, List.drop_append_of_le_length (by omega)]
  rw [hcut, nest_append] at hw
  obtain ⟨stack, -, hstack⟩ := Option.bind_eq_some_iff.mp hw
  have hbelow : nest ([] ++ stack) (w.drop (a - (i + 1))) = some [] := hstack
  have hclose : closes '\x7d' = true := rfl
  obtain ⟨g, hg, hle⟩ := expressionEndFrom_le_of_nest hbelow a a hclose rest
  rw [List.length_nil] at hg
  rw [expressionEnd, hfrom, hg, Option.getD_some]
  rw [List.length_drop] at hle
  omega

end Bracket

end CodeAtlas
