import CodeAtlas.Proofs.Bracket.Nesting

set_option autoImplicit false

/-! # The bracket that closes a block

`Bracket.blockEnd` counts a depth and stops where it comes back to zero. What it finds is told here
without a depth: it is the least position behind the opening bracket up to which as many brackets of
the kind are closed as are opened (`Bracket.Matches`), or the last position of the text if there is none.

A count that starts above zero and changes by one at a time cannot pass over zero. So a stretch that
opens and closes equally many brackets closes the block, at its end or before (`exists_closing?_eq`), and
the stretch up to the bracket that closes the block is such a stretch (`balance_take_of_closing?`).
-/

namespace CodeAtlas.Bracket

variable {opener closer : Char}

/-! ## Counting up to a position -/

/-- Up to the bracket that closes a block everything that was open is closed. -/
theorem balance_take_of_closing? (hne : opener ≠ closer) {d : Int} {i n : Nat} {t : Text}
    (h : closing? opener closer d i t = some (i + n)) :
    d + balance opener closer (t.take (n + 1)) = 0 := by
  induction t generalizing d i n with
  | nil => simp [closing?] at h
  | cons c t ih =>
      -- The rest closes the block behind the head.
      have hrest : ∀ {e : Int}, closing? opener closer e (i + 1) t = some (i + n) →
          e + balance opener closer (t.take n) = 0 := by
        intro e he
        have hbounds := closing?_bounds he
        obtain ⟨m, rfl⟩ : ∃ m, n = m + 1 := ⟨n - 1, by omega⟩
        have hmoved : i + (m + 1) = i + 1 + m := by omega
        rw [hmoved] at he
        exact ih he
      rw [List.take_succ_cons]
      by_cases hopen : c = opener
      · subst hopen
        rw [closing?_opener] at h
        have hzero := hrest h
        rw [balance_opener hne]
        omega
      · by_cases hclose : c = closer
        · subst hclose
          rw [closing?_closer hne] at h
          rw [balance_closer hne]
          by_cases hone : d = 1
          · rw [if_pos hone, Option.some_inj] at h
            obtain rfl : n = 0 := by omega
            simp [balance, hone]
          · rw [if_neg hone] at h
            have hzero := hrest h
            omega
        · rw [closing?_other hopen hclose] at h
          rw [balance_other hopen hclose]
          exact hrest h

/-- **A count does not pass over zero.** A stretch that closes what was open closes the block. -/
theorem exists_closing?_eq (hne : opener ≠ closer) {d : Int} (hd : 1 ≤ d) (i : Nat) {n : Nat} {t : Text}
    (h : d + balance opener closer (t.take n) ≤ 0) :
    ∃ j, closing? opener closer d i t = some j ∧ j < i + n := by
  cases hclosed : closing? opener closer d i (t.take n) with
  | none =>
      have hopen := balance_pos_of_closing?_eq_none hne hd hclosed
      omega
  | some j =>
      refine ⟨j, ?_, ?_⟩
      · rw [← List.take_append_drop n t, closing?_append hne, hclosed, Option.some_or]
      · have hbounds := closing?_bounds hclosed
        have hlength := List.length_take_le n t
        omega

/-! ## The end of a block -/

/-- From position `i` of a text up to a later position `j` of it, both included, as many brackets are
opened as are closed. -/
structure Matches (opener closer : Char) (t : Text) (i j : Nat) : Prop where
  lt : i < j
  lt_length : j < t.length
  count_eq : ((t.take (j + 1)).drop i).count opener = ((t.take (j + 1)).drop i).count closer

section Ends

variable {t : Text} {i j : Nat}

/-- The stretch from an opening bracket up to a position, without this bracket. -/
theorem matches_iff (hne : opener ≠ closer) (hi : t[i]? = some opener) (hij : i < j) :
    Matches opener closer t i j ↔
      j < t.length ∧ 1 + balance opener closer ((t.drop (i + 1)).take (j - i)) = 0 := by
  have hstretch : (t.take (j + 1)).drop i = opener :: (t.drop (i + 1)).take (j - i) := by
    have hlength : j + 1 - i = (j - i) + 1 := by omega
    rw [List.drop_take, List.drop_eq_getElem?_toList_append, hi, Option.toList_some,
      List.singleton_append, hlength, List.take_succ_cons]
  have hcount : ((t.take (j + 1)).drop i).count opener = ((t.take (j + 1)).drop i).count closer ↔
      balance opener closer ((t.take (j + 1)).drop i) = 0 := by
    unfold balance
    omega
  rw [hstretch, balance_opener hne, Int.add_comm] at hcount
  constructor
  · intro h
    exact ⟨h.lt_length, hcount.mp (hstretch ▸ h.count_eq)⟩
  · rintro ⟨hj, hzero⟩
    exact ⟨hij, hj, hstretch ▸ hcount.mpr hzero⟩

theorem blockEnd_eq (hi : t[i]? = some opener) :
    blockEnd opener closer t i =
      (closing? opener closer 1 (i + 1) (t.drop (i + 1))).getD (t.length - 1) := by
  rw [blockEnd, closing?_drop_opener hi]
  rfl

/-- A block is closed at the first position up to which its brackets match. -/
theorem blockEnd_le_of_matches (hne : opener ≠ closer) (hi : t[i]? = some opener)
    (h : Matches opener closer t i j) :
    closing? opener closer 1 (i + 1) (t.drop (i + 1)) = some (blockEnd opener closer t i) ∧
      blockEnd opener closer t i ≤ j := by
  have hzero := ((matches_iff hne hi h.lt).mp h).2
  obtain ⟨k, hk, hlt⟩ := exists_closing?_eq hne (Int.le_refl 1) (i + 1) hzero.le
  have hend : blockEnd opener closer t i = k := by rw [blockEnd_eq hi, hk, Option.getD_some]
  have hlater := h.lt
  exact ⟨by rw [hk, hend], by omega⟩

theorem matches_of_closing? (hne : opener ≠ closer) (hi : t[i]? = some opener)
    (h : closing? opener closer 1 (i + 1) (t.drop (i + 1)) = some j) :
    Matches opener closer t i j := by
  have hbounds := closing?_bounds h
  rw [List.length_drop] at hbounds
  obtain ⟨n, rfl⟩ : ∃ n, j = i + 1 + n := ⟨j - (i + 1), by omega⟩
  refine (matches_iff hne hi (by omega)).mpr ⟨by omega, ?_⟩
  have hlength : i + 1 + n - i = n + 1 := by omega
  rw [hlength]
  exact balance_take_of_closing? hne h

/-- **A block ends at the first position where its brackets match, or with the text.** -/
theorem isLeast_blockEnd_or (hne : opener ≠ closer) (hi : t[i]? = some opener) :
    IsLeast {j | Matches opener closer t i j} (blockEnd opener closer t i) ∨
      (∀ j, ¬ Matches opener closer t i j) ∧ blockEnd opener closer t i = t.length - 1 := by
  cases hclosed : closing? opener closer 1 (i + 1) (t.drop (i + 1)) with
  | some k =>
      have hend : blockEnd opener closer t i = k := by rw [blockEnd_eq hi, hclosed, Option.getD_some]
      refine Or.inl ⟨?_, fun j hj => (blockEnd_le_of_matches hne hi hj).2⟩
      rw [hend]
      exact matches_of_closing? hne hi hclosed
  | none =>
      refine Or.inr ⟨fun j hj => ?_, ?_⟩
      · have hsome := (blockEnd_le_of_matches hne hi hj).1
        rw [hclosed] at hsome
        contradiction
      · rw [blockEnd_eq hi, hclosed, Option.getD_none]

end Ends

/-- **Blocks are matched, and they do not cross**, on any text. The block that opens at a bracket ends at
the least position behind it up to which as many brackets are opened as are closed, or, if there is none,
at the last position of the text. Of two blocks the one that opens later opens behind the end of the
other, or ends no later. -/
theorem blocks_matched (hne : opener ≠ closer) (t : Text) :
    (∀ i, t[i]? = some opener →
      IsLeast {j | Matches opener closer t i j} (blockEnd opener closer t i) ∨
        (∀ j, ¬ Matches opener closer t i j) ∧ blockEnd opener closer t i = t.length - 1) ∧
    ∀ i j, t[i]? = some opener → t[j]? = some opener → i < j →
      blockEnd opener closer t i < j ∨
        blockEnd opener closer t j ≤ blockEnd opener closer t i := by
  constructor
  · intro i hi
    exact isLeast_blockEnd_or hne hi
  · intro i j hi hj hij
    exact blockEnd_lt_or_le hne hi hj hij

/-- A text that closes too much before it opens and opens too much before it ends. -/
def unbalancedText : Text := "\x7da\x7b\x7bb\x7d\x7b\x7d".toList

theorem blocks_matched_unbalanced :
    '\x7b' ≠ '\x7d' ∧
      (∀ i, unbalancedText[i]? = some '\x7b' →
        IsLeast {j | Matches '\x7b' '\x7d' unbalancedText i j} (blockEnd '\x7b' '\x7d' unbalancedText i) ∨
          (∀ j, ¬ Matches '\x7b' '\x7d' unbalancedText i j) ∧
            blockEnd '\x7b' '\x7d' unbalancedText i = unbalancedText.length - 1) ∧
      (∀ i j, unbalancedText[i]? = some '\x7b' → unbalancedText[j]? = some '\x7b' → i < j →
        blockEnd '\x7b' '\x7d' unbalancedText i < j ∨
          blockEnd '\x7b' '\x7d' unbalancedText j ≤ blockEnd '\x7b' '\x7d' unbalancedText i) ∧
      unbalancedText[2]? = some '\x7b' ∧ blockEnd '\x7b' '\x7d' unbalancedText 2 = 7 ∧
      unbalancedText[3]? = some '\x7b' ∧ blockEnd '\x7b' '\x7d' unbalancedText 3 = 5 := by
  have hne : '\x7b' ≠ '\x7d' := by decide
  obtain ⟨hends, hcross⟩ := blocks_matched hne unbalancedText
  exact ⟨hne, hends, hcross, by decide⟩

end CodeAtlas.Bracket
