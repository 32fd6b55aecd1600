import CodeAtlas.Text.Basic
import Mathlib.Data.List.DropRight

set_option autoImplicit false

/-! # What is left of a text without its ends

Signs and white space around a name are dropped, and what is left is found again in the text. Dropping
stops at once where there is something to keep, so that the ends may be told apart from the name by
their characters alone (`Text.dropWhile_append`, `Text.trim_append`, `Text.find?_append`). What is
found is the first occurrence (`Text.find?_eq_some_iff`).
-/

namespace CodeAtlas.Text

theorem dropWhile_append {p : Char → Bool} {u v : Text} (hu : ∀ c ∈ u, p c = true)
    (hv : ∀ c ∈ v.head?, p c = false) : (u ++ v).dropWhile p = v := by
  rw [List.dropWhile_append_of_pos hu]
  cases v with
  | nil => rfl
  | cons c v => exact List.dropWhile_cons_of_neg (by simp [hv c rfl])

/-! ## Trimming -/

/-- The white space around a text is dropped, and nothing of the text if it has none at its ends. -/
theorem trim_append_of_ends {b n d : Text} (hb : ∀ c ∈ b, isBlank c = true)
    (hfirst : ∀ c ∈ n.head?, isBlank c = false) (hlast : ∀ c ∈ n.getLast?, isBlank c = false)
    (hd : ∀ c ∈ d, isBlank c = true) : trim (b ++ (n ++ d)) = n := by
  unfold trim dropRight
  by_cases hnil : n = []
  · subst hnil
    rw [List.dropWhile_append_of_pos hb, List.nil_append, List.dropWhile_eq_nil_iff.mpr hd]
    rfl
  · obtain ⟨c, u, rfl⟩ := List.exists_cons_of_ne_nil hnil
    rw [dropWhile_append hb fun x hx => hfirst x (by simpa using hx), List.reverse_append,
      dropWhile_append (by simpa using hd), List.reverse_reverse]
    intro x hx
    exact hlast x (by rwa [List.head?_reverse] at hx)

theorem trim_append {b n d : Text} (hb : ∀ c ∈ b, isBlank c = true)
    (hn : ∀ c ∈ n, isBlank c = false) (hd : ∀ c ∈ d, isBlank c = true) :
    trim (b ++ (n ++ d)) = n :=
  trim_append_of_ends hb (fun c hc => hn c (List.mem_of_mem_head? hc))
    (fun c hc => hn c (List.mem_of_getLast? hc)) hd

theorem trim_eq_self {t : Text} (hfirst : ∀ c ∈ t.head?, isBlank c = false)
    (hlast : ∀ c ∈ t.getLast?, isBlank c = false) : trim t = t := by
  have htrim := trim_append_of_ends (b := []) (d := []) (by simp) hfirst hlast (by simp)
  rwa [List.nil_append, List.append_nil] at htrim

theorem trim_blank_append {b : Text} (hb : ∀ c ∈ b, isBlank c = true) (t : Text) :
    trim (b ++ t) = trim t := by
  rw [trim, List.dropWhile_append_of_pos hb, trim]

theorem trim_append_blank {d : Text} (hd : ∀ c ∈ d, isBlank c = true) (t : Text) :
    trim (t ++ d) = trim t := by
  induction t with
  | nil => rw [List.nil_append, ← List.append_nil d, trim_blank_append hd]
  | cons c t ih =>
      by_cases hc : isBlank c = true
      · have hcons : ∀ u : Text, trim (c :: u) = trim u :=
          trim_blank_append (b := [c]) (by simpa using hc)
        rw [List.cons_append, hcons, hcons, ih]
      · -- Nothing is dropped on the left, so the white space is the first to go on the right.
        rw [trim, trim, List.cons_append, List.dropWhile_cons_of_neg hc,
          List.dropWhile_cons_of_neg hc, dropRight, ← List.cons_append, List.reverse_append,
          List.dropWhile_append_of_pos (by simpa using hd), dropRight]

/-- There is no white space at the ends of the text. -/
def IsStripped (t : Text) : Prop := t.head?.any isBlank = false ∧ t.getLast?.any isBlank = false

instance (t : Text) : Decidable (IsStripped t) := inferInstanceAs (Decidable (_ ∧ _))

theorem isStripped_iff {t : Text} :
    IsStripped t ↔ (∀ c ∈ t.head?, isBlank c = false) ∧ ∀ c ∈ t.getLast?, isBlank c = false := by
  simp only [IsStripped, Option.any_eq_false, Option.mem_def]

theorem IsStripped.trim_eq {t : Text} (h : IsStripped t) : trim t = t :=
  trim_eq_self (isStripped_iff.mp h).1 (isStripped_iff.mp h).2

theorem isStripped_trim (t : Text) : IsStripped (trim t) := by
  refine isStripped_iff.mpr ⟨fun c hc => ?_, fun c hc => ?_⟩
  · -- What is dropped from the right leaves the first character where it is.
    obtain ⟨rest, hrest⟩ : trim t <+: t.dropWhile isBlank := List.rdropWhile_prefix isBlank _
    have hhead : (t.dropWhile isBlank).head? = some c := by
      rw [← hrest, List.head?_append, hc, Option.some_or]
    have hnot := List.head?_dropWhile_not isBlank t
    rw [hhead] at hnot
    simpa using hnot
  · obtain ⟨hne, rfl⟩ := List.mem_getLast?_eq_getLast hc
    exact Bool.eq_false_iff.mpr (List.rdropWhile_last_not isBlank _ hne)

/-- A trimmed text has nothing to trim. -/
theorem trim_trim (t : Text) : trim (trim t) = trim t := (isStripped_trim t).trim_eq

/-- A text is what is left of it, with white space around. -/
theorem exists_append_trim (t : Text) :
    ∃ b d, t = b ++ (trim t ++ d) ∧ (∀ c ∈ b, isBlank c = true) ∧ ∀ c ∈ d, isBlank c = true := by
  refine ⟨t.takeWhile isBlank, (t.dropWhile isBlank).rtakeWhile isBlank, ?_, ?_, ?_⟩
  · calc t = t.takeWhile isBlank ++ t.dropWhile isBlank := List.takeWhile_append_dropWhile.symm
      _ = t.takeWhile isBlank ++ (trim t ++ (t.dropWhile isBlank).rtakeWhile isBlank) := by
          rw [trim, dropRight, ← List.rdropWhile, List.rdropWhile_append_rtakeWhile]
  · intro c hc
    exact List.mem_takeWhile_imp hc
  · intro c hc
    exact List.mem_rtakeWhile_imp hc

/-! ## Finding a name again -/

/-- What is found is the first occurrence. -/
theorem find?_eq_some_iff {pat t : Text} {j : Nat} :
    find? pat t = some j ↔ pat <+: t.drop j ∧ ∀ i < j, ¬ pat <+: t.drop i := by
  refine ⟨fun h => ⟨find?_eq_some h, ?_⟩, ?_⟩
  · induction t generalizing j with
    | nil =>
        simp only [find?, Option.ite_none_right_eq_some, Option.some_inj] at h
        intro i hi
        omega
    | cons c t ih =>
        intro i hi
        by_cases hpat : pat.isPrefixOf (c :: t) = true
        · rw [find?, if_pos hpat, Option.some_inj] at h
          omega
        · rw [find?, if_neg hpat] at h
          obtain ⟨k, hk, rfl⟩ := Option.map_eq_some_iff.mp h
          cases i with
          | zero => exact fun hfirst => hpat (List.isPrefixOf_iff_prefix.mpr hfirst)
          | succ i => exact ih hk i (by omega)
  · rintro ⟨hoccurs, hfirst⟩
    induction t generalizing j with
    | nil =>
        obtain rfl : pat = [] := List.prefix_nil.mp (by simpa using hoccurs)
        have hzero : j = 0 := by
          by_contra hne
          exact hfirst 0 (by omega) List.nil_prefix
        rw [hzero]
        rfl
    | cons c t ih =>
        cases j with
        | zero =>
            rw [find?]
            exact if_pos (List.isPrefixOf_iff_prefix.mpr hoccurs)
        | succ j =>
            have hpat : ¬ pat.isPrefixOf (c :: t) = true := fun h =>
              hfirst 0 (by omega) (List.isPrefixOf_iff_prefix.mp h)
            have hrest := ih hoccurs fun i hi => hfirst (i + 1) (by omega)
            rw [find?, if_neg hpat, hrest]
            rfl

/-- The text around what is found. -/
theorem exists_append_of_find? {pat t : Text} {j : Nat} (h : find? pat t = some j) :
    ∃ rest, t = t.take j ++ (pat ++ rest) := by
  obtain ⟨rest, hrest⟩ := find?_eq_some h
  refine ⟨rest, ?_⟩
  rw [hrest, List.take_append_drop]

theorem find?_eq_none_iff {pat t : Text} : find? pat t = none ↔ ¬ pat <:+: t := by
  induction t with
  | nil => simp [find?]
  | cons c t ih =>
      rw [List.infix_cons_iff, not_or, ← List.isPrefixOf_iff_prefix, ← ih, find?]
      by_cases hpat : pat.isPrefixOf (c :: t) = true
      · simp [hpat]
      · simp [hpat]

/-- A text that starts with a character that is not before it is found behind what is before it. -/
theorem find?_append {u : Text} {c : Char} (hu : c ∉ u) (v : Text) :
    find? (c :: v) (u ++ c :: v) = some u.length := by
  induction u with
  | nil => simp [find?]
  | cons d u ih =>
      rw [List.mem_cons, not_or] at hu
      have hprefix : ¬ (c :: v).isPrefixOf (d :: (u ++ c :: v)) = true := by
        simp [List.isPrefixOf, hu.1]
      rw [List.cons_append, find?, if_neg hprefix, ih hu.2]
      rfl

/-! ## Fields -/

/-- The stretches of a text between white space. -/
def fields (t : Text) : List Text := (t.splitOnP isBlank).filter (!·.isEmpty)

theorem fields_append_blank {u : Text} (hu : ∀ c ∈ u, isBlank c = true) (t : Text) :
    fields (u ++ t) = fields t := by
  induction u with
  | nil => rfl
  | cons c u ih =>
      obtain ⟨hc, hu⟩ := List.forall_mem_cons.mp hu
      have hfirst : fields (c :: (u ++ t)) = fields (u ++ t) := by
        unfold fields
        rw [List.splitOnP_cons_eq_if_modifyHead, if_pos hc]
        rfl
      exact hfirst.trans (ih hu)

theorem fields_append_cons {u : Text} (hne : u ≠ []) (hu : ∀ c ∈ u, isBlank c = false) {c : Char}
    (hc : isBlank c = true) (t : Text) : fields (u ++ c :: t) = u :: fields t := by
  unfold fields
  rw [List.splitOnP_append_cons _ _ hc, List.splitOnP_eq_singleton fun c hc => by simp [hu c hc]]
  exact List.filter_cons_of_pos (by simpa using hne)

end CodeAtlas.Text
