import CodeAtlas.Extraction.Scan
import Mathlib.Tactic

set_option autoImplicit false

/-! # Reading an identity backwards

An identity is a label and the digest of a key, and a key joins its parts by a separator. This module
takes both apart: equal identities have equal labels and equal digests (`ofDefinition_inj`), and equal
keys of one label and path have equal names and equal qualifiers, provided that the separator stands in
no name (`key_inj`).

A qualifier has one of three forms: the name of the owner; that name and a line; that name, a line and
a position. The marks `@` and `:` stand in no name and no number, so the forms do not overlap, and a
qualifier of the third form gives back its position (`Qualifies.start_eq`).
-/

namespace CodeAtlas

/-! ## Names -/

/-- A character of a name: of an identifier, or the dot that joins several. -/
def isNameChar (c : Char) : Bool := isNamePart c || c == '.'

/-- A text without the marks that keys and qualifiers are built with. -/
def IsName (t : Text) : Prop := ∀ c ∈ t, isNameChar c = true

instance (t : Text) : Decidable (IsName t) :=
  List.decidableBAll (fun c => isNameChar c = true) t

theorem IsName.notMem {t : Text} (h : IsName t) {c : Char} (hc : isNameChar c = false) : c ∉ t := by
  intro hmem
  rw [h c hmem] at hc
  contradiction

/-! ## Numbers -/

namespace Text

theorem isDigit_of_mem_ofNat {n : Nat} {c : Char} (hc : c ∈ ofNat n) : c.isDigit = true :=
  Nat.isDigit_of_mem_toDigits (by decide) (by decide) hc

theorem ofNat_injective : Function.Injective ofNat := by
  intro m n h
  have := congrArg (Nat.ofDigitChars 10 · 0) h
  simpa [ofNat] using this

theorem notMem_ofNat {c : Char} (hc : c.isDigit = false) (n : Nat) : c ∉ ofNat n := by
  intro hmem
  rw [isDigit_of_mem_ofNat hmem] at hc
  contradiction

theorem ofNat_ne_negative (m n : Nat) : ofNat m ≠ '-' :: ofNat n := by
  intro h
  have hminus : '-' ∈ ofNat m := by rw [h]; exact List.mem_cons_self
  exact notMem_ofNat (by decide) m hminus

theorem ofInt_injective : Function.Injective ofInt := by
  intro m n h
  cases m with
  | ofNat m =>
      cases n with
      | ofNat n => exact congrArg Int.ofNat (ofNat_injective h)
      | negSucc n => exact absurd h (ofNat_ne_negative m (n + 1))
  | negSucc m =>
      cases n with
      | ofNat n => exact absurd h.symm (ofNat_ne_negative n (m + 1))
      | negSucc n =>
          have hsucc := ofNat_injective (List.cons_injective h)
          exact congrArg Int.negSucc (by omega)

end Text

/-! ## Splitting at a mark -/

/-- Two texts are split at the first occurrence of a mark in only one way. -/
theorem append_mark_inj {mark : Char} {s₁ s₂ t₁ t₂ : Text} (h₁ : mark ∉ s₁) (h₂ : mark ∉ s₂)
    (h : s₁ ++ mark :: t₁ = s₂ ++ mark :: t₂) : s₁ = s₂ ∧ t₁ = t₂ := by
  induction s₁ generalizing s₂ with
  | nil =>
      cases s₂ with
      | nil => exact ⟨rfl, List.cons_injective h⟩
      | cons c s₂ =>
          rw [List.nil_append, List.cons_append, List.cons.injEq] at h
          exact absurd (h.1 ▸ List.mem_cons_self) h₂
  | cons c s₁ ih =>
      cases s₂ with
      | nil =>
          rw [List.nil_append, List.cons_append, List.cons.injEq] at h
          exact absurd (h.1 ▸ List.mem_cons_self) h₁
      | cons d s₂ =>
          rw [List.cons_append, List.cons_append, List.cons.injEq] at h
          rw [List.mem_cons, not_or] at h₁ h₂
          obtain ⟨rfl, rfl⟩ := ih h₁.2 h₂.2 h.2
          exact ⟨by rw [h.1], rfl⟩

/-! ## Identities and keys -/

theorem Label.name_injective : Function.Injective Label.name := by
  intro a b h
  cases a <;> cases b <;> first | rfl | exact absurd h (by decide)

namespace Identity

theorem colon_notMem_labelName (l : Label) : ':' ∉ l.name := by
  cases l <;> decide

theorem ofDefinition_inj {l l' : Label} {p p' n n' : Text} {q q' : Option Text}
    (h : ofDefinition l p n q = ofDefinition l' p' n' q') :
    l = l' ∧ Digest.md5Hex (key l.name p n q) = Digest.md5Hex (key l'.name p' n' q') := by
  obtain ⟨hlabel, hdigest⟩ :=
    append_mark_inj (colon_notMem_labelName l) (colon_notMem_labelName l') h
  exact ⟨Label.name_injective hlabel, hdigest⟩

/-- A definition that is no file has not the identity of a file. -/
theorem ofDefinition_ne_ofFile {l : Label} (hl : l ≠ .file) (p n p' : Text) (q : Option Text) :
    ofDefinition l p n q ≠ ofFile p' := by
  intro h
  have hfile : ofFile p' = ofDefinition .file p' [] none := rfl
  exact hl (ofDefinition_inj (h.trans hfile)).1

/-- What a key has after label and path: the name and, if there is one, the qualifier. -/
def keyTail (name : Text) : Option Text → Text
  | none | some [] => name
  | some q => name ++ separator :: q

theorem key_eq {l : Label} (hl : l ≠ .file) (p n : Text) (q : Option Text) :
    key l.name p n q = l.name ++ separator :: (p ++ separator :: keyTail n q) := by
  have hname : l.name ≠ Label.file.name := fun h => hl (Label.name_injective h)
  unfold key
  rw [if_neg hname]
  match q with
  | none => simp [keyTail]
  | some [] => simp [keyTail]
  | some (c :: q) => simp [keyTail]

/-- A key with a qualifier comes from one name and one qualifier only. -/
theorem key_inj {l : Label} (hl : l ≠ .file) {p n n' q' : Text} {q : Option Text}
    (hn : separator ∉ n) (hn' : separator ∉ n') (hq' : q' ≠ [])
    (h : key l.name p n q = key l.name p n' (some q')) : n = n' ∧ q = some q' := by
  rw [key_eq hl, key_eq hl] at h
  have htail : keyTail n q = keyTail n' (some q') :=
    List.cons_injective (List.append_cancel_left (List.cons_injective (List.append_cancel_left h)))
  have hright : keyTail n' (some q') = n' ++ separator :: q' := by
    cases q' with
    | nil => exact absurd rfl hq'
    | cons c q' => rfl
  rw [hright] at htail
  -- A key without a qualifier has no separator after its path.
  have hbare : n ≠ n' ++ separator :: q' := fun h => hn (h ▸ by simp)
  match q with
  | none => exact absurd htail hbare
  | some [] => exact absurd htail hbare
  | some (c :: q) =>
      obtain ⟨hname, hqual⟩ := append_mark_inj hn hn' htail
      exact ⟨hname, congrArg some hqual⟩

end Identity

/-! ## Qualifiers -/

/-- The forms of a qualifier of a definition that starts at a given position. -/
inductive Qualifies (start : Int) : Option Text → Prop where
  | byOwner {owner : Option Text} (h : IsName (owner.getD [])) : Qualifies start owner
  | byLine {owner : Text} (h : IsName owner) (line : Nat) :
      Qualifies start (some (owner ++ '@' :: Text.ofNat line))
  | byPlace {owner : Text} (h : IsName owner) (line : Nat) :
      Qualifies start (some (owner ++ '@' :: Text.ofNat line ++ ':' :: Text.ofInt start))

theorem colon_notMem_byLine {owner : Text} (h : IsName owner) (line : Nat) :
    ':' ∉ owner ++ '@' :: Text.ofNat line := by
  simp only [List.mem_append, List.mem_cons, not_or]
  exact ⟨h.notMem (by decide), by decide, Text.notMem_ofNat (by decide) line⟩

/-- **A qualifier by place tells the position.** -/
theorem Qualifies.start_eq {start start' : Int} {owner : Text} {line : Nat} (howner : IsName owner)
    (h : Qualifies start (some (owner ++ '@' :: Text.ofNat line ++ ':' :: Text.ofInt start'))) :
    start = start' := by
  generalize hq : some (owner ++ '@' :: Text.ofNat line ++ ':' :: Text.ofInt start') = q at h
  cases h with
  | byOwner h =>
      -- A name has no `@`.
      subst hq
      exact absurd (by simp) (h.notMem (c := '@') (by decide))
  | byLine h line' =>
      -- A qualifier by line has no colon.
      have hcolon : ':' ∈ owner ++ '@' :: Text.ofNat line ++ ':' :: Text.ofInt start' := by simp
      rw [Option.some_inj.mp hq] at hcolon
      exact absurd hcolon (colon_notMem_byLine h line')
  | byPlace h line' =>
      -- Both are split at their only colon.
      have hparts := append_mark_inj (colon_notMem_byLine howner line)
        (colon_notMem_byLine h line') (Option.some_inj.mp hq)
      exact (Text.ofInt_injective hparts.2).symm

end CodeAtlas
