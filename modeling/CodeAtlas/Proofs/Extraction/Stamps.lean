import CodeAtlas.Proofs.Extraction.Distinct

set_option autoImplicit false

/-! # What an identity is made of

Besides the path, the identity of a definition is made of its label, its name, the name of its owner and,
where that is not enough, of its line and then also of its position: its *stamp*. The stamp can be read off
the key of an identity (`Stamp.key_inj`), so as long as the digest does not collide on recorded keys,
identities are equal if and only if their stamps are.

A new definition gets the first of three stamps that is not in use. `Scan.Registered` is the invariant of
a scan that says so: every definition has a stamp, and if the stamp tells a line, then an earlier definition
has the plain one. So the definition with the plain stamp is the first of its label, name and owner name
(`Scan.Registered.isFirstAlike_iff_plain`).
-/

namespace CodeAtlas

/-- Two texts are split in one way where a mark that stands in neither of them starts what is left, if
anything is left. -/
theorem append_marked_inj {mark : Char} {s₁ s₂ t₁ t₂ : Text} (h₁ : mark ∉ s₁) (h₂ : mark ∉ s₂)
    (ht₁ : ∀ c ∈ t₁.head?, c = mark) (ht₂ : ∀ c ∈ t₂.head?, c = mark) (h : s₁ ++ t₁ = s₂ ++ t₂) :
    s₁ = s₂ ∧ t₁ = t₂ := by
  cases t₁ with
  | nil =>
      cases t₂ with
      | nil => exact ⟨by simpa using h, rfl⟩
      | cons c t₂ =>
          obtain rfl := ht₂ c rfl
          rw [List.append_nil] at h
          exact absurd (h ▸ List.mem_append_right s₂ List.mem_cons_self) h₁
  | cons c t₁ =>
      obtain rfl := ht₁ c rfl
      cases t₂ with
      | nil =>
          rw [List.append_nil] at h
          exact absurd (h ▸ List.mem_append_right s₁ List.mem_cons_self) h₂
      | cons d t₂ =>
          obtain rfl := ht₂ d rfl
          obtain ⟨hs, ht⟩ := append_mark_inj h₁ h₂ h
          exact ⟨hs, by rw [ht]⟩

/-- What an identity is made of besides the path. The owner is empty if there is none. -/
structure Stamp where
  label : Label
  name : Text
  owner : Text
  line : Option Nat := none
  place : Option Int := none

namespace Stamp

/-- The part of a qualifier that tells a number, behind its mark; nothing if there is none to tell. -/
def marked {α : Type} (mark : Char) (write : α → Text) (number : Option α) : Text :=
  number.elim [] fun n => mark :: write n

/-- The qualifier of a key. -/
def qualifier (st : Stamp) : Text :=
  st.owner ++ marked '@' Text.ofNat st.line ++ marked ':' Text.ofInt st.place

/-- The key that the identity is the digest of. -/
def key (path : Text) (st : Stamp) : Text := Identity.key st.label.name path st.name (some st.qualifier)

/-- The identity. -/
def id (path : Text) (st : Stamp) : Text :=
  Identity.ofDefinition st.label path st.name (some st.qualifier)

/-- The stamp without line and position. -/
def plain (st : Stamp) : Stamp := { st with line := none, place := none }

/-- The label is that of a definition, and the names have none of the marks in them. -/
structure IsNamed (st : Stamp) : Prop where
  label_ne_file : st.label ≠ .file
  isName : IsName st.name
  isName_owner : IsName st.owner

variable {st st' : Stamp}

theorem IsNamed.plain (h : st.IsNamed) : st.plain.IsNamed := { h with }

/-! ## Reading a stamp off its key -/

section Marks

variable {α : Type} {mark : Char} {write : α → Text}

theorem head?_marked (number : Option α) : ∀ c ∈ (marked mark write number).head?, c = mark := by
  cases number with
  | none => simp [marked]
  | some n => simp [marked]

theorem marked_injective (hwrite : Function.Injective write) :
    Function.Injective (marked mark write) := by
  intro m n h
  cases m with
  | none =>
      cases n with
      | none => rfl
      | some n => exact absurd h.symm (List.cons_ne_nil mark (write n))
  | some m =>
      cases n with
      | none => exact absurd h (List.cons_ne_nil mark (write m))
      | some n => exact congrArg some (hwrite (List.cons_injective h))

end Marks

theorem colon_notMem (h : st.IsNamed) : ':' ∉ st.owner ++ marked '@' Text.ofNat st.line := by
  rw [List.mem_append, not_or]
  refine ⟨h.isName_owner.notMem (by decide), ?_⟩
  cases st.line with
  | none => exact List.not_mem_nil
  | some n =>
      show ':' ∉ '@' :: Text.ofNat n
      rw [List.mem_cons, not_or]
      exact ⟨by decide, Text.notMem_ofNat (by decide) n⟩

/-- The qualifier tells owner, line and position. -/
theorem qualifier_inj (h : st.IsNamed) (h' : st'.IsNamed) (heq : st.qualifier = st'.qualifier) :
    st.owner = st'.owner ∧ st.line = st'.line ∧ st.place = st'.place := by
  obtain ⟨hfront, hplace⟩ := append_marked_inj (colon_notMem h) (colon_notMem h')
    (head?_marked st.place) (head?_marked st'.place) heq
  have hat : '@' ∉ st.owner := h.isName_owner.notMem (by decide)
  have hat' : '@' ∉ st'.owner := h'.isName_owner.notMem (by decide)
  obtain ⟨howner, hline⟩ :=
    append_marked_inj hat hat' (head?_marked st.line) (head?_marked st'.line) hfront
  exact ⟨howner, marked_injective Text.ofNat_injective hline,
    marked_injective Text.ofInt_injective hplace⟩

theorem keyTail_inj {n n' q q' : Text} (hn : Identity.separator ∉ n) (hn' : Identity.separator ∉ n')
    (h : Identity.keyTail n (some q) = Identity.keyTail n' (some q')) : n = n' ∧ q = q' := by
  have hsplit : ∀ (n q : Text), Identity.keyTail n (some q) =
      n ++ (if q = [] then [] else Identity.separator :: q) := by
    intro n q
    cases q with
    | nil => exact (List.append_nil n).symm
    | cons c q => rfl
  have hmark : ∀ q : Text, ∀ c ∈ (if q = [] then [] else Identity.separator :: q).head?,
      c = Identity.separator := by
    intro q c hc
    split at hc
    · simp at hc
    · exact (Option.some_inj.mp hc).symm
  rw [hsplit, hsplit] at h
  obtain ⟨hname, htail⟩ := append_marked_inj hn hn' (hmark q) (hmark q') h
  refine ⟨hname, ?_⟩
  by_cases hq : q = []
  · by_cases hq' : q' = []
    · rw [hq, hq']
    · simp [hq, hq'] at htail
  · by_cases hq' : q' = []
    · simp [hq, hq'] at htail
    · simpa [hq, hq'] using htail

/-- **A stamp can be read off its key**, once the label is known. -/
theorem key_inj {path : Text} (h : st.IsNamed) (h' : st'.IsNamed) (hlabel : st.label = st'.label)
    (heq : st.key path = st'.key path) : st = st' := by
  rw [key, key, ← hlabel, Identity.key_eq h.label_ne_file, Identity.key_eq h.label_ne_file] at heq
  have htail := List.cons_injective (List.append_cancel_left
    (List.cons_injective (List.append_cancel_left heq)))
  obtain ⟨hname, hqualifier⟩ :=
    keyTail_inj (h.isName.notMem (by decide)) (h'.isName.notMem (by decide)) htail
  obtain ⟨howner, hline, hplace⟩ := qualifier_inj h h' hqualifier
  cases st
  cases st'
  simp_all

/-- Identities are equal only if their stamps are, unless the digest collides. -/
theorem id_inj {path : Text} {keys : List Text} (hkeys : Digest.NoCollision keys) (h : st.IsNamed)
    (h' : st'.IsNamed) (hmem : st.key path ∈ keys) (hmem' : st'.key path ∈ keys)
    (heq : st.id path = st'.id path) : st = st' := by
  obtain ⟨hlabel, hdigest⟩ := Identity.ofDefinition_inj heq
  exact key_inj h h' hlabel (hkeys _ hmem _ hmem' hdigest)

end Stamp

namespace Scan

/-! ## The stamps of a new definition -/

/-- The stamp of a definition that needs neither line nor position. -/
def plainStamp (d : Sighting) (owner : Text) : Stamp := { label := d.label, name := d.name, owner := owner }

/-- The same with the line. -/
def lineStamp (s : Scan) (d : Sighting) (owner : Text) : Stamp :=
  { plainStamp d owner with line := some (s.lineOf d.start) }

/-- The same with line and position. -/
def placeStamp (s : Scan) (d : Sighting) (owner : Text) : Stamp :=
  { s.lineStamp d owner with place := some d.start }

/-- The stamp that a new definition gets: the first one that is not in use, and else the last one. -/
def freshStamp (s : Scan) (d : Sighting) (owner : Text) : Stamp :=
  if s.ids.contains ((plainStamp d owner).id s.path) then
    if s.ids.contains ((s.lineStamp d owner).id s.path) then s.placeStamp d owner else s.lineStamp d owner
  else plainStamp d owner

/-- The stamps that are looked at, with the one that is taken. -/
def triedStamps (s : Scan) (d : Sighting) (owner : Text) : List Stamp :=
  if s.ids.contains ((plainStamp d owner).id s.path) then
    if s.ids.contains ((s.lineStamp d owner).id s.path) then
      [s.placeStamp d owner, s.lineStamp d owner, plainStamp d owner]
    else [s.lineStamp d owner, plainStamp d owner]
  else [plainStamp d owner]

variable {s t : Scan} {d : Sighting}

/-- A missing owner counts like an empty name. -/
theorem key_owner (label path name : Text) (owner : Option Text) :
    Identity.key label path name owner = Identity.key label path name (some (owner.getD [])) := by
  cases owner with
  | none => rfl
  | some q => rfl

/-- **The choice of an identity is the choice of a stamp.** -/
theorem freshId_eq (s : Scan) (d : Sighting) (owner : Option Text) :
    s.freshId d owner = ((s.freshStamp d (owner.getD [])).id s.path,
      (s.triedStamps d (owner.getD [])).map (Stamp.key s.path)) := by
  have hplain : (plainStamp d (owner.getD [])).qualifier = owner.getD [] := by
    simp [plainStamp, Stamp.qualifier, Stamp.marked]
  have hline : (s.lineStamp d (owner.getD [])).qualifier =
      owner.getD [] ++ '@' :: Text.ofNat (s.lineOf d.start) := by
    simp [lineStamp, plainStamp, Stamp.qualifier, Stamp.marked]
  have hid : Identity.ofDefinition d.label s.path d.name owner =
      (plainStamp d (owner.getD [])).id s.path := by
    rw [Stamp.id, hplain, Identity.ofDefinition, Identity.ofParts, key_owner]
    rfl
  have hkey : Identity.key d.label.name s.path d.name owner =
      (plainStamp d (owner.getD [])).key s.path := by
    rw [Stamp.key, hplain, key_owner]
    rfl
  have hidLine : Identity.ofDefinition d.label s.path d.name
      (some (owner.getD [] ++ '@' :: Text.ofNat (s.lineOf d.start))) =
        (s.lineStamp d (owner.getD [])).id s.path := by
    rw [Stamp.id, hline]
    rfl
  have hkeyLine : Identity.key d.label.name s.path d.name
      (some (owner.getD [] ++ '@' :: Text.ofNat (s.lineOf d.start))) =
        (s.lineStamp d (owner.getD [])).key s.path := by
    rw [Stamp.key, hline]
    rfl
  simp only [freshId, freshStamp, triedStamps, hid, hkey, hidLine, hkeyLine]
  split
  · split
    · rfl
    · rfl
  · rfl

theorem plainStamp_mem_tried (s : Scan) (d : Sighting) (owner : Text) :
    plainStamp d owner ∈ s.triedStamps d owner := by
  unfold triedStamps
  split
  · split
    · simp
    · simp
  · simp

theorem lineStamp_mem_tried {owner : Text} (h : (plainStamp d owner).id s.path ∈ s.ids) :
    s.lineStamp d owner ∈ s.triedStamps d owner := by
  rw [triedStamps, if_pos (List.contains_iff_mem.mpr h)]
  split
  · simp
  · simp

theorem freshStamp_mem_tried (s : Scan) (d : Sighting) (owner : Text) :
    s.freshStamp d owner ∈ s.triedStamps d owner := by
  unfold triedStamps freshStamp
  split
  · split
    · simp
    · simp
  · simp

theorem freshStamp_cases (s : Scan) (d : Sighting) (owner : Text) :
    s.freshStamp d owner = plainStamp d owner ∨
      (plainStamp d owner).id s.path ∈ s.ids ∧
        (s.freshStamp d owner = s.lineStamp d owner ∨ s.freshStamp d owner = s.placeStamp d owner) := by
  unfold freshStamp
  split
  · next htaken =>
    refine Or.inr ⟨List.contains_iff_mem.mp htaken, ?_⟩
    split
    · exact Or.inr rfl
    · exact Or.inl rfl
  · exact Or.inl rfl

/-- A stamp that is tried tells label, name and owner. -/
theorem parts_of_mem_tried {owner : Text} {st : Stamp} (h : st ∈ s.triedStamps d owner) :
    st.label = d.label ∧ st.name = d.name ∧ st.owner = owner := by
  have hthree : st = s.placeStamp d owner ∨ st = s.lineStamp d owner ∨ st = plainStamp d owner := by
    unfold triedStamps at h
    split at h
    · split at h
      · simpa using h
      · exact Or.inr (by simpa using h)
    · exact Or.inr (Or.inr (by simpa using h))
  rcases hthree with rfl | rfl | rfl
  · exact ⟨rfl, rfl, rfl⟩
  · exact ⟨rfl, rfl, rfl⟩
  · exact ⟨rfl, rfl, rfl⟩

/-- The name of the owner of what starts at a position, empty if there is none. -/
def ownerNameAt (s : Scan) (index : Int) : Text := ((s.ownerOf index).map (·.definition.name)).getD []

theorem id_definitionOf (s : Scan) (d : Sighting) :
    (s.definitionOf d).id = (s.freshStamp d (s.ownerNameAt d.start)).id s.path := by
  show (s.freshId d ((s.ownerOf d.start).map (·.definition.name))).1 = _
  rw [freshId_eq]
  rfl

theorem define_eq (h : (d.label, d.name, d.start) ∉ s.seen) :
    s.define d =
      ({ s with
          seen := (d.label, d.name, d.start) :: s.seen
          nameOffsets := d.nameAt.toList ++ s.nameOffsets
          keys := (s.triedStamps d (s.ownerNameAt d.start)).map (Stamp.key s.path) ++ s.keys
          ids := (s.definitionOf d).id :: s.ids
          definitions := s.definitions ++ [s.definitionOf d] }, some (s.definitionOf d)) := by
  rw [define_of_not_seen h, freshId_eq]
  rfl

/-! ## The stamps of the definitions on record -/

/-- The name of the owner of a definition is `n`; a definition without an owner counts as owned by the
empty name. -/
def OwnerNamed (ds : List Definition) (x : Definition) (n : Text) : Prop :=
  (x.owner = none ∧ n = []) ∨ ∃ o ∈ ds, x.owner = some o.id ∧ n = o.name

theorem OwnerNamed.mono {ds ds' : List Definition} {x : Definition} {n : Text} (h : OwnerNamed ds x n)
    (hsub : ds ⊆ ds') : OwnerNamed ds' x n :=
  h.imp_right fun ⟨o, ho, howner⟩ => ⟨o, hsub ho, howner⟩

/-- The owner has one name if identities are distinct. -/
theorem OwnerNamed.unique {ds : List Definition} {x : Definition} {n n' : Text} (h : OwnerNamed ds x n)
    (h' : OwnerNamed ds x n') (hids : (ds.map (·.id)).Nodup) : n = n' := by
  rcases h with ⟨hnone, rfl⟩ | ⟨o, ho, howner, rfl⟩
  · rcases h' with ⟨-, rfl⟩ | ⟨o, -, howner, -⟩
    · rfl
    · rw [hnone] at howner
      contradiction
  · rcases h' with ⟨hnone, -⟩ | ⟨o', ho', howner', rfl⟩
    · rw [hnone] at howner
      contradiction
    · have hid : o.id = o'.id := Option.some_inj.mp (howner.symm.trans howner')
      rw [List.inj_on_of_nodup_map hids ho ho' hid]

/-- A definition on record has the identity of a stamp. -/
structure Stamped (s : Scan) (x : Definition) (st : Stamp) : Prop where
  label : st.label = x.label
  name : st.name = x.name
  isNamed : st.IsNamed
  owner : OwnerNamed s.definitions x st.owner
  id : x.id = st.id s.path
  key_mem : st.key s.path ∈ s.keys

namespace Stamped

variable {x y : Definition} {st st' : Stamp}

theorem mono (h : s.Stamped x st) (hpath : t.path = s.path) (hdefinitions : s.definitions ⊆ t.definitions)
    (hkeys : s.keys ⊆ t.keys) : t.Stamped x st := by
  refine { h with owner := h.owner.mono hdefinitions, id := ?_, key_mem := ?_ }
  · rw [hpath]
    exact h.id
  · rw [hpath]
    exact hkeys h.key_mem

theorem congr (hpath : t.path = s.path) (hdefinitions : t.definitions = s.definitions)
    (hkeys : t.keys = s.keys) : t.Stamped x st ↔ s.Stamped x st := by
  constructor
  · intro h
    exact h.mono hpath.symm (hdefinitions ▸ List.Subset.refl _) (hkeys ▸ List.Subset.refl _)
  · intro h
    exact h.mono hpath (hdefinitions ▸ List.Subset.refl _) (hkeys ▸ List.Subset.refl _)

/-- **Definitions of one identity have one stamp.** -/
theorem eq_of_id_eq (h : s.Stamped x st) (h' : s.Stamped y st') (hkeys : Digest.NoCollision s.keys)
    (hid : x.id = y.id) : st = st' :=
  Stamp.id_inj hkeys h.isNamed h'.isNamed h.key_mem h'.key_mem (h.id.symm.trans (hid.trans h'.id))

theorem unique (h : s.Stamped x st) (h' : s.Stamped x st') (hkeys : Digest.NoCollision s.keys) :
    st = st' :=
  h.eq_of_id_eq h' hkeys rfl

end Stamped

/-- What is true of the stamps at every point of a scan. -/
structure Registered (s : Scan) : Prop where
  keyed : s.Keyed
  exists_of_mem_ids : ∀ i ∈ s.ids, ∃ x ∈ s.definitions, x.id = i
  stamped : ∀ x ∈ s.definitions, ∃ st, s.Stamped x st
  plain_earlier : Digest.NoCollision s.keys → ∀ l₁ x l₂ st, s.definitions = l₁ ++ x :: l₂ →
    s.Stamped x st → st = st.plain ∨ ∃ y ∈ l₁, s.Stamped y st.plain

namespace Registered

theorem isNamed_of_mem_tried (h : s.Registered) (hd : d.IsNamed) {st : Stamp}
    (hst : st ∈ s.triedStamps d (ownerNameAt s d.start)) : st.IsNamed := by
  obtain ⟨hlabel, hname, howner⟩ := parts_of_mem_tried hst
  refine ⟨hlabel ▸ hd.label_ne_file, hname ▸ hd.isName, ?_⟩
  rw [howner]
  exact h.keyed.isName_owner d.start

/-- An identity in use is that of a definition with its stamp. -/
theorem exists_stamped_of_taken (h : s.Registered) {st : Stamp} (hst : st.IsNamed)
    (htaken : st.id s.path ∈ s.ids) {keys : List Text} (hkeys : Digest.NoCollision keys)
    (hsub : s.keys ⊆ keys) (hmem : st.key s.path ∈ keys) : ∃ x ∈ s.definitions, s.Stamped x st := by
  obtain ⟨x, hx, hid⟩ := h.exists_of_mem_ids _ htaken
  obtain ⟨st', hst'⟩ := h.stamped x hx
  have heq : st' = st :=
    Stamp.id_inj hkeys hst'.isNamed hst (hsub hst'.key_mem) hmem (hst'.id.symm.trans hid)
  exact ⟨x, hx, heq ▸ hst'⟩

theorem stamped_definitionOf (h : s.Registered) (hd : d.IsNamed)
    (hnew : (d.label, d.name, d.start) ∉ s.seen) :
    (s.define d).1.Stamped (s.definitionOf d) (s.freshStamp d (s.ownerNameAt d.start)) := by
  have hmem := s.freshStamp_mem_tried d (s.ownerNameAt d.start)
  obtain ⟨hlabel, hname, howner⟩ := parts_of_mem_tried hmem
  rw [define_eq hnew]
  refine ⟨hlabel, hname, h.isNamed_of_mem_tried hd hmem, ?_, s.id_definitionOf d,
    List.mem_append_left _ (List.mem_map_of_mem hmem)⟩
  rw [howner]
  cases hat : s.ownerOf d.start with
  | none => exact Or.inl ⟨by simp [definitionOf, hat], by simp [ownerNameAt, hat]⟩
  | some r =>
      have hr := h.keyed.container_mem r (mem_containers_of_ownerOf hat)
      exact Or.inr ⟨r.definition, List.mem_append_left _ hr, by simp [definitionOf, hat],
        by simp [ownerNameAt, hat]⟩

/-- A definition that is recorded leaves the stamps of the others as they are. -/
theorem stamped_define {x : Definition} {st : Stamp} (hst : s.Stamped x st)
    (hnew : (d.label, d.name, d.start) ∉ s.seen) : (s.define d).1.Stamped x st := by
  rw [define_eq hnew]
  exact hst.mono rfl (List.subset_append_left _ _) (List.subset_append_right _ _)

/-- The stamp of a new definition is plain, or a definition on record has the plain one. -/
theorem plain_or_taken (h : s.Registered) (hd : d.IsNamed)
    (hkeys : Digest.NoCollision
      ((s.triedStamps d (s.ownerNameAt d.start)).map (Stamp.key s.path) ++ s.keys)) :
    s.freshStamp d (s.ownerNameAt d.start) = (s.freshStamp d (s.ownerNameAt d.start)).plain ∨
      ∃ y ∈ s.definitions, s.Stamped y (s.freshStamp d (s.ownerNameAt d.start)).plain := by
  set owner := s.ownerNameAt d.start with howner
  have hsame : (s.freshStamp d owner).plain = plainStamp d owner := by
    rcases s.freshStamp_cases d owner with heq | ⟨-, heq | heq⟩
    · rw [heq]
      rfl
    · rw [heq]
      rfl
    · rw [heq]
      rfl
  rcases s.freshStamp_cases d owner with hplain | ⟨htaken, -⟩
  · left
    rw [hsame, hplain]
  · right
    have htried := s.plainStamp_mem_tried d owner
    rw [hsame]
    exact h.exists_stamped_of_taken (h.isNamed_of_mem_tried hd htried) htaken hkeys
      (List.subset_append_right _ _) (List.mem_append_left _ (List.mem_map_of_mem htried))

/-- With one more definition on record, a stamp with a line still has the plain one before it. -/
theorem plain_earlier_define (h : s.Registered) (hd : d.IsNamed)
    (hnew : (d.label, d.name, d.start) ∉ s.seen) (hcollide : Digest.NoCollision (s.define d).1.keys)
    {l₁ l₂ : List Definition} {x : Definition} {st : Stamp}
    (hsplit : s.definitions ++ [s.definitionOf d] = l₁ ++ x :: l₂) (hst : (s.define d).1.Stamped x st) :
    st = st.plain ∨ ∃ y ∈ l₁, (s.define d).1.Stamped y st.plain := by
  have hold : ∀ {x st}, s.Stamped x st → (s.define d).1.Stamped x st :=
    fun hst => stamped_define hst hnew
  have hkeys : (s.define d).1.keys =
      (s.triedStamps d (s.ownerNameAt d.start)).map (Stamp.key s.path) ++ s.keys := by
    rw [define_eq hnew]
  rcases List.eq_nil_or_concat l₂ with rfl | ⟨l₂, y, rfl⟩
  · -- The new definition: all the others are earlier.
    obtain ⟨rfl, hlast⟩ := List.append_inj' hsplit rfl
    obtain rfl := (List.singleton_inj.mp hlast).symm
    obtain rfl := hst.unique (h.stamped_definitionOf hd hnew) hcollide
    rcases h.plain_or_taken hd (hkeys ▸ hcollide) with hplain | ⟨y, hy, hstamped⟩
    · exact Or.inl hplain
    · exact Or.inr ⟨y, hy, hold hstamped⟩
  · -- A definition from before: what is earlier than it is the same.
    rw [List.concat_eq_append, ← List.cons_append, ← List.append_assoc] at hsplit
    obtain ⟨hfront, -⟩ := List.append_inj' hsplit rfl
    have hx : x ∈ s.definitions := by
      rw [hfront]
      exact List.mem_append_right _ List.mem_cons_self
    have hfewer : Digest.NoCollision s.keys := by
      rw [hkeys] at hcollide
      exact hcollide.mono (List.subset_append_right _ _)
    obtain ⟨st', hst'⟩ := h.stamped x hx
    obtain rfl := hst.unique (hold hst') hcollide
    rcases h.plain_earlier hfewer l₁ x l₂ st hfront hst' with hplain | ⟨y, hy, hstamped⟩
    · exact Or.inl hplain
    · exact Or.inr ⟨y, hy, hold hstamped⟩

theorem define (h : s.Registered) (hd : d.IsNamed) : (s.define d).1.Registered := by
  by_cases hseen : (d.label, d.name, d.start) ∈ s.seen
  · rwa [define_of_seen hseen]
  · have hnewStamp := h.stamped_definitionOf hd hseen
    have hold : ∀ {x st}, s.Stamped x st → (s.define d).1.Stamped x st :=
      fun hst => stamped_define hst hseen
    have hdefinitions : (s.define d).1.definitions = s.definitions ++ [s.definitionOf d] := by
      rw [define_eq hseen]
    refine ⟨h.keyed.define hd, ?_, ?_, ?_⟩
    · intro i hi
      rw [define_eq hseen] at hi ⊢
      rcases List.mem_cons.mp hi with rfl | hi
      · exact ⟨_, List.mem_append_right _ List.mem_cons_self, rfl⟩
      · obtain ⟨x, hx, hid⟩ := h.exists_of_mem_ids i hi
        exact ⟨x, List.mem_append_left _ hx, hid⟩
    · intro x hx
      rw [hdefinitions, List.mem_append, List.mem_singleton] at hx
      rcases hx with hx | rfl
      · obtain ⟨st, hst⟩ := h.stamped x hx
        exact ⟨st, hold hst⟩
      · exact ⟨_, hnewStamp⟩
    · intro hcollide l₁ x l₂ st hsplit hst
      rw [hdefinitions] at hsplit
      exact h.plain_earlier_define hd hseen hcollide hsplit hst

/-- What leaves definitions, identities and keys alone leaves the stamps alone. -/
theorem congr (h : s.Registered) (hkeyed : t.Keyed) (hpath : t.path = s.path)
    (hdefinitions : t.definitions = s.definitions) (hids : t.ids = s.ids) (hkeys : t.keys = s.keys) :
    t.Registered := by
  have hstamped : ∀ x st, t.Stamped x st ↔ s.Stamped x st := fun x st =>
    Stamped.congr hpath hdefinitions hkeys
  refine ⟨hkeyed, ?_, ?_, ?_⟩
  · rw [hids, hdefinitions]
    exact h.exists_of_mem_ids
  · simp only [hdefinitions, hstamped]
    exact h.stamped
  · simp only [hdefinitions, hstamped, hkeys]
    exact h.plain_earlier

theorem addImport (h : s.Registered) (path : Text) : (s.addImport path).Registered := by
  simp only [Scan.addImport]
  split
  · exact h
  · exact h.congr { h.keyed with } rfl rfl rfl rfl

theorem addContainer (h : s.Registered) {x : Definition} (hx : x ∈ s.definitions) (e : Extent) :
    (s.addContainer (some x) e).Registered := by
  have hkeyed := h.keyed.addContainer hx e
  cases hfirst : e.first with
  | none =>
      have hsame : s.addContainer (some x) e = s := by simp only [Scan.addContainer, hfirst]
      rwa [hsame]
  | some i =>
      have hsame : s.addContainer (some x) e = { s with containers := s.containers ++ [⟨x, i, e.last⟩] } := by
        simp only [Scan.addContainer, hfirst]
      rw [hsame] at hkeyed ⊢
      exact h.congr hkeyed rfl rfl rfl rfl

theorem addScope (h : s.Registered) (x : Option Definition) (e : Extent) :
    (s.addScope x e).Registered := by
  unfold Scan.addScope
  split
  · split
    · exact h.congr { h.keyed with } rfl rfl rfl rfl
    · exact h
  · exact h

theorem addHeritage (h : s.Registered) (x : Option Definition) (clauses : List Text)
    (kind : HeritageKind) : (s.addHeritage x clauses kind).Registered := by
  unfold Scan.addHeritage
  split
  · exact h.congr { h.keyed with } rfl rfl rfl rfl
  · exact h

/-- Every step keeps the stamps on record. -/
theorem step {Body : Text → Extent → Prop} (hstep : Step Body s t) (h : s.Registered) :
    t.Registered := by
  cases hstep with
  | addImport path => exact h.addImport path
  | define hd => exact h.define hd
  | addContainer hx e => exact h.addContainer hx e
  | addScope hx he => exact h.addScope _ _
  | addHeritage hx clauses kind => exact h.addHeritage _ clauses kind

theorem start (path code outline : Text) :
    Registered { path := path, code := code, outline := outline } := by
  refine ⟨keyed_start path code outline, ?_, ?_, ?_⟩
  · simp
  · simp
  · simp

end Registered

end Scan

theorem Language.registered_scan (l : Language) (path source : Text) : (l.scan path source).Registered :=
  (l.run_scan path source).invariant Scan.Registered.step (Scan.Registered.start _ _ _)

/-! ## The first definition of its name -/

/-- The name of the owner of a definition, empty if it has none. -/
def ownerName (ds : List Definition) (x : Definition) : Text :=
  ((ds.find? fun o => x.owner == some o.id).map (·.name)).getD []

/-- Do the definitions agree in label, name and owner name? -/
def alike (ds : List Definition) (x y : Definition) : Bool :=
  y.label == x.label && y.name == x.name && ownerName ds y == ownerName ds x

/-- No definition of the list with this label, name and owner name is earlier. -/
def IsFirstAlike (ds : List Definition) (x : Definition) : Prop := ds.find? (alike ds x) = some x

instance (ds : List Definition) (x : Definition) : Decidable (IsFirstAlike ds x) :=
  inferInstanceAs (Decidable (_ = _))

theorem alike_iff {ds : List Definition} {x y : Definition} :
    alike ds x y = true ↔ y.label = x.label ∧ y.name = x.name ∧ ownerName ds y = ownerName ds x := by
  simp [alike, and_assoc]

theorem Scan.OwnerNamed.ownerName_eq {ds : List Definition} {x : Definition} {n : Text}
    (h : OwnerNamed ds x n) (hids : (ds.map (·.id)).Nodup) : ownerName ds x = n := by
  refine OwnerNamed.unique ?_ h hids
  unfold ownerName
  cases hfind : ds.find? fun o => x.owner == some o.id with
  | some o =>
      have howner := List.find?_some hfind
      exact Or.inr ⟨o, List.mem_of_find?_eq_some hfind, by simpa using howner, rfl⟩
  | none =>
      rcases h with ⟨hnone, -⟩ | ⟨o, ho, howner, -⟩
      · exact Or.inl ⟨hnone, rfl⟩
      · exact absurd (List.find?_eq_none.mp hfind o ho) (by simp [howner])

namespace Scan.Registered

variable {s : Scan} {x : Definition} {st : Stamp}

theorem ownerName_eq (h : s.Registered) (hkeys : Digest.NoCollision s.keys) (hst : s.Stamped x st) :
    ownerName s.definitions x = st.owner :=
  hst.owner.ownerName_eq (h.keyed.distinct hkeys)

/-- The stamp of the first definition of its label, name and owner name is plain. -/
theorem plain_of_isFirstAlike (h : s.Registered) (hkeys : Digest.NoCollision s.keys) (hst : s.Stamped x st)
    (hfirst : IsFirstAlike s.definitions x) : st = st.plain := by
  obtain ⟨-, l₁, l₂, hsplit, hearlier⟩ := List.find?_eq_some_iff_append.mp hfirst
  rcases h.plain_earlier hkeys l₁ x l₂ st hsplit hst with hplain | ⟨y, hy, hstamped⟩
  · exact hplain
  · have halike : alike s.definitions x y = true :=
      alike_iff.mpr ⟨hstamped.label.symm.trans hst.label, hstamped.name.symm.trans hst.name,
        (h.ownerName_eq hkeys hstamped).trans (h.ownerName_eq hkeys hst).symm⟩
    simpa [halike] using hearlier y hy

/-- **The first definition of its label, name and owner name** is the one whose stamp is plain. -/
theorem isFirstAlike_iff_plain (h : s.Registered) (hkeys : Digest.NoCollision s.keys) (hx : x ∈ s.definitions)
    (hst : s.Stamped x st) : IsFirstAlike s.definitions x ↔ st = st.plain := by
  refine ⟨h.plain_of_isFirstAlike hkeys hst, fun hplain => ?_⟩
  have hself : alike s.definitions x x = true := alike_iff.mpr ⟨rfl, rfl, rfl⟩
  cases hfind : s.definitions.find? (alike s.definitions x) with
  | none => exact absurd hself (List.find?_eq_none.mp hfind x hx)
  | some y =>
      -- The first one that is alike has a plain stamp too, so it has the same identity.
      obtain ⟨hlabel, hname, howner⟩ := alike_iff.mp (List.find?_some hfind)
      have hy := List.mem_of_find?_eq_some hfind
      obtain ⟨st', hst'⟩ := h.stamped y hy
      have hsame : alike s.definitions y = alike s.definitions x := by
        funext z
        rw [alike, alike, hlabel, hname, howner]
      have hplain' : st' = st'.plain :=
        h.plain_of_isFirstAlike hkeys hst' (by rw [IsFirstAlike, hsame, hfind])
      have hstamps : st' = st := by
        rw [hplain, hplain', Stamp.plain, Stamp.plain, hst'.label, hst.label, hst'.name, hst.name,
          ← h.ownerName_eq hkeys hst', ← h.ownerName_eq hkeys hst, hlabel, hname, howner]
      have hid : y.id = x.id := by rw [hst'.id, hst.id, hstamps]
      rw [IsFirstAlike, hfind, List.inj_on_of_nodup_map (h.keyed.distinct hkeys) hy hx hid]

/-- **A plain identity is that of a plain stamp.** -/
theorem id_eq_iff_plain (h : s.Registered) (hkeys : Digest.NoCollision s.keys) (hx : x ∈ s.definitions)
    (hst : s.Stamped x st) :
    x.id = Identity.ofDefinition x.label s.path x.name (some (ownerName s.definitions x)) ↔
      st = st.plain := by
  have hid : Identity.ofDefinition x.label s.path x.name (some (ownerName s.definitions x)) =
      st.plain.id s.path := by
    rw [h.ownerName_eq hkeys hst, ← hst.label, ← hst.name]
    simp [Stamp.id, Stamp.plain, Stamp.qualifier, Stamp.marked]
  rw [hid]
  constructor
  · intro heq
    obtain ⟨l₁, l₂, hsplit⟩ := List.append_of_mem hx
    rcases h.plain_earlier hkeys l₁ x l₂ st hsplit hst with hplain | ⟨y, -, hstamped⟩
    · exact hplain
    · exact hst.eq_of_id_eq hstamped hkeys (heq.trans hstamped.id.symm)
  · intro hplain
    rw [hst.id, ← hplain]

end Scan.Registered

end CodeAtlas
