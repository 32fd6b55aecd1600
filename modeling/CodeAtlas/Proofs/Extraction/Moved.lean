import CodeAtlas.Proofs.Extraction.Stamps
import CodeAtlas.Proofs.Pattern.Below
import Mathlib.Data.List.Forall2

set_option autoImplicit false

/-! # Two scans, one below the other

The record of a scan and that of the text moved down have the same shape. What is a position or a line in
the one is `k` greater in the other, and an identity in the one is that of a definition which stands at the
same place of the list in the other (`Corresponds`). `Scan.Moved` says this of every field that a result is
made of, and each operation of a scan keeps it, so each pass does (`Scan.Moved.foldl`).

Nothing of this depends on the digest, except which identities are equal. For that the stamps of two
definitions at the same place are compared: as long as the digest does not collide, a stamp is in use in
the one scan if and only if it is in use, moved down, in the other, and so the same choice is made.
-/

namespace CodeAtlas

open Text

variable {k : Nat}

/-! ## Results that may be missing -/

section Rel

variable {α β γ δ : Type} {R : α → β → Prop} {P : γ → δ → Prop} {o : Option α} {o' : Option β}

theorem rel_map {f : α → γ} {g : β → δ} (h : Option.Rel R o o') (hfg : ∀ a b, R a b → P (f a) (g b)) :
    Option.Rel P (o.map f) (o'.map g) := by
  cases h with
  | none => exact .none
  | some hab => exact .some (hfg _ _ hab)

theorem rel_imp {Q : α → β → Prop} (h : Option.Rel R o o') (hRQ : ∀ a b, R a b → Q a b) :
    Option.Rel Q o o' := by
  cases h with
  | none => exact .none
  | some hab => exact .some (hRQ _ _ hab)

theorem isSome_eq_of_rel (h : Option.Rel R o o') : o'.isSome = o.isSome := by
  cases h with
  | none => rfl
  | some hab => rfl

end Rel

/-! ## Definitions at the same place -/

/-- The definitions stand at the same place of the two lists. -/
def Twins (ds ds' : List Definition) (x x' : Definition) : Prop := (x, x') ∈ ds.zip ds'

/-- The identities are those of definitions at the same place. -/
def Corresponds (ds ds' : List Definition) (id id' : Text) : Prop :=
  ∃ x x', Twins ds ds' x x' ∧ x.id = id ∧ x'.id = id'

section Twins

variable {ds ds' : List Definition} {x x' y y' : Definition}

theorem Twins.mem_left (h : Twins ds ds' x x') : x ∈ ds := (List.of_mem_zip h).1

theorem Twins.mem_right (h : Twins ds ds' x x') : x' ∈ ds' := (List.of_mem_zip h).2

theorem Twins.corresponds (h : Twins ds ds' x x') : Corresponds ds ds' x.id x'.id := ⟨x, x', h, rfl, rfl⟩

theorem twins_concat (hlength : ds.length = ds'.length) :
    Twins (ds ++ [y]) (ds' ++ [y']) x x' ↔ Twins ds ds' x x' ∨ (x = y ∧ x' = y') := by
  unfold Twins
  rw [List.zip_append hlength, List.mem_append]
  simp

theorem Twins.concat (h : Twins ds ds' x x') (hlength : ds.length = ds'.length) (y y' : Definition) :
    Twins (ds ++ [y]) (ds' ++ [y']) x x' :=
  (twins_concat hlength).mpr (Or.inl h)

theorem Corresponds.concat {id id' : Text} (h : Corresponds ds ds' id id')
    (hlength : ds.length = ds'.length) (y y' : Definition) :
    Corresponds (ds ++ [y]) (ds' ++ [y']) id id' := by
  obtain ⟨x, x', htwins, hid, hid'⟩ := h
  exact ⟨x, x', htwins.concat hlength y y', hid, hid'⟩

theorem exists_twin_right (hlength : ds.length = ds'.length) (hx : x ∈ ds) : ∃ x', Twins ds ds' x x' := by
  rw [← List.map_fst_zip hlength.le] at hx
  obtain ⟨⟨y, y'⟩, hmem, rfl⟩ := List.mem_map.mp hx
  exact ⟨y', hmem⟩

theorem exists_twin_left (hlength : ds.length = ds'.length) (hx : x' ∈ ds') : ∃ x, Twins ds ds' x x' := by
  rw [← List.map_snd_zip hlength.ge] at hx
  obtain ⟨⟨y, y'⟩, hmem, rfl⟩ := List.mem_map.mp hx
  exact ⟨y, hmem⟩

end Twins

/-! ## What is moved down -/

/-- The definition is the same, `k` lines and `k` characters further down. -/
structure Definition.Below (k : Nat) (x x' : Definition) : Prop where
  label : x'.label = x.label
  name : x'.name = x.name
  isExported : x'.isExported = x.isExported
  startLine : x'.startLine = x.startLine + k
  endLine : x'.endLine = x.endLine + k
  start : x'.start = x.start + k

/-- The parent is the same, named by a definition at the same place. -/
structure Heritage.Matches (ds ds' : List Definition) (h h' : Heritage) : Prop where
  classId : Corresponds ds ds' h.classId h'.classId
  className : h'.className = h.className
  parent : h'.parent = h.parent
  kind : h'.kind = h.kind

/-- The call is the same, from a definition at the same place, or in both from what calls outside of all
bodies belong to. -/
structure Call.Matches (topLevel : Option Text) (ds ds' : List Definition) (c c' : Call) : Prop where
  name : c'.name = c.name
  source : Corresponds ds ds' c.source c'.source ∨ topLevel = some c.source ∧ topLevel = some c'.source

/-- The region is that of a definition at the same place, `k` characters further down. -/
structure Region.Below (k : Nat) (ds ds' : List Definition) (r r' : Region) : Prop where
  twins : Twins ds ds' r.definition r'.definition
  first : r'.first = r.first + k
  last : r'.last = r.last + k

/-- What is known of a definition in the text that is moved down. -/
def Sighting.down (k : Nat) (d : Sighting) : Sighting :=
  { d with
    start := d.start + k
    finish := d.finish.map (· + k)
    nameAt := d.nameAt.map (· + k) }

/-- The stamp in the text that is moved down. -/
def Stamp.down (k : Nat) (st : Stamp) : Stamp :=
  { st with line := st.line.map (· + k), place := st.place.map (· + k) }

theorem Sighting.IsNamed.down {d : Sighting} (h : d.IsNamed) (k : Nat) : (d.down k).IsNamed := ⟨h.1, h.2⟩

namespace Stamp

theorem IsNamed.down {st : Stamp} (h : st.IsNamed) (k : Nat) : (st.down k).IsNamed := ⟨h.1, h.2, h.3⟩

theorem down_injective (k : Nat) : Function.Injective (Stamp.down k) := by
  intro st st' h
  have hlabel : (st.down k).label = (st'.down k).label := congrArg Stamp.label h
  have hname : (st.down k).name = (st'.down k).name := congrArg Stamp.name h
  have howner : (st.down k).owner = (st'.down k).owner := congrArg Stamp.owner h
  have hline : st.line.map (· + k) = st'.line.map (· + k) := congrArg Stamp.line h
  have hplace : st.place.map (· + (k : Int)) = st'.place.map (· + (k : Int)) := congrArg Stamp.place h
  have hline' := Option.map_injective (add_left_injective k) hline
  have hplace' := Option.map_injective (add_left_injective (k : Int)) hplace
  cases st
  cases st'
  simp_all [Stamp.down]

/-- A stamp that tells no line is the same in the text that is moved down. -/
theorem down_of_plain {st : Stamp} (h : st = st.plain) (k : Nat) : st.down k = st := by
  rw [h]
  rfl

end Stamp

/-! ## Regions -/

namespace Region

variable {ds ds' : List Definition} {r r' : Region} {rs rs' : List Region}

theorem Below.contains_eq (h : r.Below k ds ds' r') (index : Int) :
    r'.contains (index + k) = r.contains index := by
  have hfirst := h.first
  have hlast := h.last
  rw [contains, contains, hfirst, hlast]
  have hleft : ((r.first + k : Nat) : Int) < index + k ↔ (r.first : Int) < index := by omega
  have hright : index + k ≤ ((r.last + k : Nat) : Int) ↔ index ≤ r.last := by omega
  simp only [hleft, hright]

theorem Below.concat (h : r.Below k ds ds' r') (hlength : ds.length = ds'.length) (y y' : Definition) :
    r.Below k (ds ++ [y]) (ds' ++ [y']) r' :=
  { h with twins := h.twins.concat hlength y y' }

/-- The region that opens last is that of the text, moved down. -/
theorem innermost_below (h : List.Forall₂ (Below k ds ds') rs rs') :
    Option.Rel (Below k ds ds') (innermost rs) (innermost rs') := by
  induction h with
  | nil => exact .none
  | cons hr _ ih =>
      rw [innermost, innermost]
      generalize innermost _ = o at ih ⊢
      generalize innermost _ = o' at ih ⊢
      cases ih with
      | none => exact .some hr
      | some hs =>
          simp only [hr.first, hs.first, Nat.add_lt_add_iff_right]
          split
          · exact .some hs
          · exact .some hr

/-- The innermost region that holds a position is that of the text, moved down. -/
theorem innermost_filter_below (h : List.Forall₂ (Below k ds ds') rs rs') (index : Int) :
    Option.Rel (Below k ds ds') (innermost (rs.filter (·.contains index)))
      (innermost (rs'.filter (·.contains (index + k)))) := by
  apply innermost_below
  refine List.rel_filter (fun r r' hr => ?_) h
  show r.contains index = true ↔ r'.contains (index + k) = true
  rw [hr.contains_eq index]

end Region

namespace Scan

/-! ## Scans that are moved down -/

/-- The record is that of the text moved down. The text has a character, so that there is a last position
for what is not found. -/
structure Moved (k : Nat) (s s' : Scan) : Prop where
  path : s'.path = s.path
  outline : s'.outline = below k s.outline
  hasText : s.outline ≠ []
  imports : s'.imports = s.imports
  definitions : List.Forall₂ (Definition.Below k) s.definitions s'.definitions
  owners : ∀ x x', Twins s.definitions s'.definitions x x' →
    Option.Rel (Corresponds s.definitions s'.definitions) x.owner x'.owner
  heritage : List.Forall₂ (Heritage.Matches s.definitions s'.definitions) s.heritage s'.heritage
  seen : s'.seen = s.seen.map fun p => (p.1, p.2.1, p.2.2 + (k : Int))
  nameOffsets : s'.nameOffsets = s.nameOffsets.map (· + (k : Int))
  containers : List.Forall₂ (Region.Below k s.definitions s'.definitions) s.containers s'.containers
  scopes : List.Forall₂ (Region.Below k s.definitions s'.definitions) s.scopes s'.scopes
  registered : s.Registered
  registered' : s'.Registered
  stamps : Digest.NoCollision (s.keys ++ s'.keys) → ∀ x x', Twins s.definitions s'.definitions x x' →
    ∃ st, s.Stamped x st ∧ s'.Stamped x' (st.down k)

namespace Moved

variable {s s' : Scan}

theorem length_eq (h : s.Moved k s') : s.definitions.length = s'.definitions.length :=
  h.definitions.length_eq

theorem below_of_twins (h : s.Moved k s') {x x' : Definition} (hx : Twins s.definitions s'.definitions x x') :
    x.Below k x' :=
  (List.forall₂_iff_zip.mp h.definitions).2 hx

theorem lineOf_eq (h : s.Moved k s') {index : Int} (hindex : 0 ≤ index) :
    s'.lineOf (index + k) = s.lineOf index + k := by
  rw [Scan.lineOf, h.outline, lineOf_below k s.outline hindex]
  rfl

/-- **The owner of what starts at a position** is the definition at the same place. -/
theorem rel_ownerOf (h : s.Moved k s') {index : Int} (hindex : 0 ≤ index) :
    Option.Rel (Region.Below k s.definitions s'.definitions) (s.ownerOf index)
      (s'.ownerOf (index + k)) := by
  have hinner := Region.innermost_filter_below h.containers index
  unfold ownerOf
  generalize Region.innermost (s.containers.filter (·.contains index)) = o at hinner ⊢
  generalize Region.innermost (s'.containers.filter (·.contains (index + k))) = o' at hinner ⊢
  cases hinner with
  | none => exact .none
  | @some r r' hr =>
      have hfirst : (r'.first : Int) + 1 = (r.first + 1) + k := by
        rw [hr.first]
        push_cast
        ring
      simp only [hfirst, h.outline]
      rw [depthBetween_below (by omega) hindex]
      split
      · exact .some hr
      · exact .none

theorem ownerNameAt_eq (h : s.Moved k s') {index : Int} (hindex : 0 ≤ index) :
    s'.ownerNameAt (index + k) = s.ownerNameAt index := by
  have hrel := h.rel_ownerOf hindex
  unfold ownerNameAt
  generalize s.ownerOf index = o at hrel ⊢
  generalize s'.ownerOf (index + k) = o' at hrel ⊢
  cases hrel with
  | none => rfl
  | some hr => exact (h.below_of_twins hr.twins).name

/-! ## The stamps that are tried -/

theorem lineStamp_down (h : s.Moved k s') {d : Sighting} (hstart : 0 ≤ d.start) (owner : Text) :
    s'.lineStamp (d.down k) owner = (s.lineStamp d owner).down k := by
  have hline : s'.lineOf (d.down k).start = s.lineOf d.start + k := h.lineOf_eq hstart
  rw [lineStamp, hline]
  rfl

theorem placeStamp_down (h : s.Moved k s') {d : Sighting} (hstart : 0 ≤ d.start) (owner : Text) :
    s'.placeStamp (d.down k) owner = (s.placeStamp d owner).down k := by
  rw [placeStamp, h.lineStamp_down hstart owner]
  rfl

/-- **A stamp is in use if and only if it is, moved down, in the text that is moved down**, unless the
digest collides on the keys at hand. -/
theorem taken_iff (h : s.Moved k s') {keys : List Text} (hkeys : Digest.NoCollision keys)
    (hsub : s.keys ⊆ keys) (hsub' : s'.keys ⊆ keys) {st : Stamp} (hst : st.IsNamed)
    (hmem : st.key s.path ∈ keys) (hmem' : (st.down k).key s'.path ∈ keys) :
    (st.down k).id s'.path ∈ s'.ids ↔ st.id s.path ∈ s.ids := by
  have hboth : Digest.NoCollision (s.keys ++ s'.keys) := hkeys.mono (List.append_subset.mpr ⟨hsub, hsub'⟩)
  constructor
  · intro htaken
    obtain ⟨x', hx', hstamped'⟩ :=
      h.registered'.exists_stamped_of_taken (hst.down k) htaken hkeys hsub' hmem'
    obtain ⟨x, htwins⟩ := exists_twin_left h.length_eq hx'
    obtain ⟨st₀, hst₀, hst₀'⟩ := h.stamps hboth x x' htwins
    have hsame : st₀ = st :=
      Stamp.down_injective k (hst₀'.unique hstamped' (hkeys.mono hsub'))
    rw [← hsame, ← hst₀.id]
    exact h.registered.keyed.id_mem x htwins.mem_left
  · intro htaken
    obtain ⟨x, hx, hstamped⟩ := h.registered.exists_stamped_of_taken hst htaken hkeys hsub hmem
    obtain ⟨x', htwins⟩ := exists_twin_right h.length_eq hx
    obtain ⟨st₀, hst₀, hst₀'⟩ := h.stamps hboth x x' htwins
    obtain rfl : st₀ = st := hst₀.unique hstamped (hkeys.mono hsub)
    rw [← hst₀'.id]
    exact h.registered'.keyed.id_mem x' htwins.mem_right

/-- **The same choice is made of the stamps of a new definition.** -/
theorem freshStamp_down (h : s.Moved k s') {d : Sighting} (hd : d.IsNamed) (hstart : 0 ≤ d.start)
    (hkeys : Digest.NoCollision
      (((s.triedStamps d (s.ownerNameAt d.start)).map (Stamp.key s.path) ++ s.keys) ++
        ((s'.triedStamps (d.down k) (s.ownerNameAt d.start)).map (Stamp.key s'.path) ++ s'.keys))) :
    s'.freshStamp (d.down k) (s.ownerNameAt d.start) =
      (s.freshStamp d (s.ownerNameAt d.start)).down k := by
  set owner := s.ownerNameAt d.start with howner
  set keys := ((s.triedStamps d owner).map (Stamp.key s.path) ++ s.keys) ++
    ((s'.triedStamps (d.down k) owner).map (Stamp.key s'.path) ++ s'.keys) with hall
  have hsub : s.keys ⊆ keys := fun key hkey =>
    List.mem_append_left _ (List.mem_append_right _ hkey)
  have hsub' : s'.keys ⊆ keys := fun key hkey =>
    List.mem_append_right _ (List.mem_append_right _ hkey)
  have hmem : ∀ st ∈ s.triedStamps d owner, st.key s.path ∈ keys := fun st hst =>
    List.mem_append_left _ (List.mem_append_left _ (List.mem_map_of_mem hst))
  have hmem' : ∀ st ∈ s'.triedStamps (d.down k) owner, st.key s'.path ∈ keys := fun st hst =>
    List.mem_append_right _ (List.mem_append_left _ (List.mem_map_of_mem hst))
  have hnamed : ∀ st ∈ s.triedStamps d owner, st.IsNamed := fun st hst =>
    h.registered.isNamed_of_mem_tried hd hst
  have hplainTried := s.plainStamp_mem_tried d owner
  have hplain : (plainStamp (d.down k) owner).id s'.path ∈ s'.ids ↔
      (plainStamp d owner).id s.path ∈ s.ids :=
    h.taken_iff hkeys hsub hsub' (hnamed _ hplainTried) (hmem _ hplainTried)
      (hmem' _ (s'.plainStamp_mem_tried (d.down k) owner))
  by_cases htaken : (plainStamp d owner).id s.path ∈ s.ids
  · -- The plain stamp is in use in both, so in both the one with the line is looked at.
    have htaken' := hplain.mpr htaken
    have hlineTried := lineStamp_mem_tried htaken
    have hlineTried' := lineStamp_mem_tried htaken'
    rw [h.lineStamp_down hstart] at hlineTried'
    have hline := h.taken_iff hkeys hsub hsub' (hnamed _ hlineTried) (hmem _ hlineTried)
      (hmem' _ hlineTried')
    simp only [freshStamp, List.contains_iff_mem, if_pos htaken, if_pos htaken',
      h.lineStamp_down hstart, h.placeStamp_down hstart, hline]
    split
    · rfl
    · rfl
  · simp only [freshStamp, List.contains_iff_mem, if_neg htaken, if_neg (hplain.not.mpr htaken)]
    rfl

/-! ## Operations -/

theorem seen_iff (h : s.Moved k s') (d : Sighting) :
    ((d.down k).label, (d.down k).name, (d.down k).start) ∈ s'.seen ↔
      (d.label, d.name, d.start) ∈ s.seen := by
  have hinjective : Function.Injective
      fun p : Label × Text × Int => (p.1, p.2.1, p.2.2 + (k : Int)) := by
    intro p q hpq
    simp only [Prod.mk.injEq, add_left_inj] at hpq
    exact Prod.ext hpq.1 (Prod.ext hpq.2.1 hpq.2.2)
  rw [h.seen]
  exact List.mem_map_of_injective hinjective (a := (d.label, d.name, d.start))

theorem below_definitionOf (h : s.Moved k s') {d : Sighting} (hstart : 0 ≤ d.start)
    (hfinish : 0 ≤ d.finish.getD d.start) : (s.definitionOf d).Below k (s'.definitionOf (d.down k)) := by
  have hstartLine : s'.lineOf (d.start + k) = s.lineOf d.start + k := h.lineOf_eq hstart
  have hends : (d.down k).finish.getD (d.down k).start = d.finish.getD d.start + k := by
    show (d.finish.map (· + (k : Int))).getD (d.start + k) = _
    cases d.finish with
    | none => rfl
    | some finish => rfl
  have hendLine : s'.lineOf (d.finish.getD d.start + k) = s.lineOf (d.finish.getD d.start) + k :=
    h.lineOf_eq hfinish
  refine ⟨rfl, rfl, rfl, ?_, ?_, rfl⟩
  · show ((s'.lineOf (d.start + k) : Nat) : Int) = _
    rw [hstartLine]
    rfl
  · show ((s'.lineOf ((d.down k).finish.getD (d.down k).start) : Nat) : Int) = _
    rw [hends, hendLine]
    rfl

theorem rel_owner_definitionOf (h : s.Moved k s') {d : Sighting} (hstart : 0 ≤ d.start) :
    Option.Rel (Corresponds s.definitions s'.definitions) (s.definitionOf d).owner
      (s'.definitionOf (d.down k)).owner :=
  rel_map (h.rel_ownerOf hstart) fun _ _ hr => hr.twins.corresponds

/-- Old and new definitions have the same stamps in both. -/
theorem stamps_define (h : s.Moved k s') {d : Sighting} (hd : d.IsNamed) (hstart : 0 ≤ d.start)
    (hnew : (d.label, d.name, d.start) ∉ s.seen)
    (hkeys : Digest.NoCollision ((s.define d).1.keys ++ (s'.define (d.down k)).1.keys)) (x x' : Definition)
    (hx : Twins (s.definitions ++ [s.definitionOf d])
      (s'.definitions ++ [s'.definitionOf (d.down k)]) x x') :
    ∃ st, (s.define d).1.Stamped x st ∧ (s'.define (d.down k)).1.Stamped x' (st.down k) := by
  have hnew' := (h.seen_iff d).not.mpr hnew
  have howner : s'.ownerNameAt (d.down k).start = s.ownerNameAt d.start := h.ownerNameAt_eq hstart
  have hsplit : Digest.NoCollision
      (((s.triedStamps d (s.ownerNameAt d.start)).map (Stamp.key s.path) ++ s.keys) ++
        ((s'.triedStamps (d.down k) (s.ownerNameAt d.start)).map (Stamp.key s'.path) ++ s'.keys)) := by
    rwa [define_eq hnew, define_eq hnew', howner] at hkeys
  rcases (twins_concat h.length_eq).mp hx with hold | ⟨rfl, rfl⟩
  · have hfewer : Digest.NoCollision (s.keys ++ s'.keys) := by
      refine hsplit.mono (List.append_subset.mpr ⟨fun key hkey => ?_, fun key hkey => ?_⟩)
      · exact List.mem_append_left _ (List.mem_append_right _ hkey)
      · exact List.mem_append_right _ (List.mem_append_right _ hkey)
    obtain ⟨st, hst, hst'⟩ := h.stamps hfewer x x' hold
    exact ⟨st, Registered.stamped_define hst hnew, Registered.stamped_define hst' hnew'⟩
  · have hstamp' := h.registered'.stamped_definitionOf (hd.down k) hnew'
    rw [howner, h.freshStamp_down hd hstart hsplit] at hstamp'
    exact ⟨_, h.registered.stamped_definitionOf hd hnew, hstamp'⟩

/-- **A definition is recorded in both.** -/
theorem define (h : s.Moved k s') {d : Sighting} (hd : d.IsNamed) (hstart : 0 ≤ d.start)
    (hfinish : 0 ≤ d.finish.getD d.start) : (s.define d).1.Moved k (s'.define (d.down k)).1 := by
  by_cases hseen : (d.label, d.name, d.start) ∈ s.seen
  · rwa [define_of_seen hseen, define_of_seen ((h.seen_iff d).mpr hseen)]
  · have hseen' := (h.seen_iff d).not.mpr hseen
    have hlength := h.length_eq
    have hregistered := h.registered.define hd
    have hregistered' := h.registered'.define (hd.down k)
    have hstamps := h.stamps_define hd hstart hseen
    rw [define_eq hseen] at hregistered hstamps ⊢
    rw [define_eq hseen'] at hregistered' hstamps ⊢
    refine { h with
      definitions := List.rel_append h.definitions (.cons (h.below_definitionOf hstart hfinish) .nil)
      owners := ?_
      heritage := h.heritage.imp fun _ _ hh => { hh with classId := hh.classId.concat hlength _ _ }
      seen := ?_
      nameOffsets := ?_
      containers := h.containers.imp fun _ _ hr => hr.concat hlength _ _
      scopes := h.scopes.imp fun _ _ hr => hr.concat hlength _ _
      registered := hregistered
      registered' := hregistered'
      stamps := hstamps }
    · intro x x' hx
      rcases (twins_concat hlength).mp hx with hold | ⟨rfl, rfl⟩
      · exact rel_imp (h.owners x x' hold) fun _ _ hids => hids.concat hlength _ _
      · exact rel_imp (h.rel_owner_definitionOf hstart) fun _ _ hids => hids.concat hlength _ _
    · show (d.label, d.name, d.start + (k : Int)) :: s'.seen = _
      rw [h.seen]
      rfl
    · show (d.nameAt.map (· + (k : Int))).toList ++ s'.nameOffsets = _
      rw [h.nameOffsets, List.map_append, Option.toList_map]

/-- The definition that is new in the one is new in the other. -/
theorem define_twins (h : s.Moved k s') (d : Sighting) :
    Option.Rel (Twins (s.define d).1.definitions (s'.define (d.down k)).1.definitions)
      (s.define d).2 (s'.define (d.down k)).2 := by
  by_cases hseen : (d.label, d.name, d.start) ∈ s.seen
  · rw [define_of_seen hseen, define_of_seen ((h.seen_iff d).mpr hseen)]
    exact .none
  · rw [define_eq hseen, define_eq ((h.seen_iff d).not.mpr hseen)]
    exact .some ((twins_concat h.length_eq).mpr (Or.inr ⟨rfl, rfl⟩))

/-- What leaves definitions and keys alone leaves their stamps alone. -/
theorem stamps_congr (h : s.Moved k s') {t t' : Scan} (hpath : t.path = s.path) (hpath' : t'.path = s'.path)
    (hdefinitions : t.definitions = s.definitions) (hdefinitions' : t'.definitions = s'.definitions)
    (hkeys : t.keys = s.keys) (hkeys' : t'.keys = s'.keys) (hcollide : Digest.NoCollision (t.keys ++ t'.keys))
    (x x' : Definition) (hx : Twins t.definitions t'.definitions x x') :
    ∃ st, t.Stamped x st ∧ t'.Stamped x' (st.down k) := by
  rw [hkeys, hkeys'] at hcollide
  rw [hdefinitions, hdefinitions'] at hx
  obtain ⟨st, hst, hst'⟩ := h.stamps hcollide x x' hx
  exact ⟨st, (Stamped.congr hpath hdefinitions hkeys).mpr hst,
    (Stamped.congr hpath' hdefinitions' hkeys').mpr hst'⟩

theorem addImport (h : s.Moved k s') (path : Text) : (s.addImport path).Moved k (s'.addImport path) := by
  have hregistered := h.registered.addImport path
  have hregistered' := h.registered'.addImport path
  simp only [Scan.addImport, h.imports] at hregistered hregistered' ⊢
  split_ifs at hregistered hregistered' ⊢
  · exact h
  · exact { h with
      imports := rfl
      registered := hregistered
      registered' := hregistered'
      stamps := h.stamps_congr rfl rfl rfl rfl rfl rfl }

section Bodies

variable {x x' : Option Definition} (hx : Option.Rel (Twins s.definitions s'.definitions) x x')

include hx

theorem addContainer (h : s.Moved k s') (e : Extent) :
    (s.addContainer x e).Moved k (s'.addContainer x' (e.down k)) := by
  obtain ⟨first, last⟩ := e
  cases hx with
  | none => exact h
  | some htwins =>
      have hregistered := h.registered.addContainer htwins.mem_left ⟨first, last⟩
      have hregistered' := h.registered'.addContainer htwins.mem_right (Extent.down k ⟨first, last⟩)
      cases first with
      | none => exact h
      | some i =>
          exact { h with
            containers := List.rel_append h.containers (.cons ⟨htwins, rfl, rfl⟩ .nil)
            registered := hregistered
            registered' := hregistered'
            stamps := h.stamps_congr rfl rfl rfl rfl rfl rfl }

theorem addScope (h : s.Moved k s') (e : Extent) :
    (s.addScope x e).Moved k (s'.addScope x' (e.down k)) := by
  obtain ⟨first, last⟩ := e
  have hregistered := h.registered.addScope x ⟨first, last⟩
  have hregistered' := h.registered'.addScope x' (Extent.down k ⟨first, last⟩)
  cases hx with
  | none => exact h
  | some htwins =>
      cases first with
      | none => exact h
      | some i =>
          simp only [Scan.addScope, Extent.down, Option.map_some, Nat.add_lt_add_iff_right]
            at hregistered hregistered' ⊢
          split_ifs at hregistered hregistered' ⊢
          · exact { h with
              scopes := List.rel_append h.scopes (.cons ⟨htwins, rfl, rfl⟩ .nil)
              registered := hregistered
              registered' := hregistered'
              stamps := h.stamps_congr rfl rfl rfl rfl rfl rfl }
          · exact h

theorem addHeritage (h : s.Moved k s') (clauses : List Text) (kind : HeritageKind) :
    (s.addHeritage x clauses kind).Moved k (s'.addHeritage x' clauses kind) := by
  have hregistered := h.registered.addHeritage x clauses kind
  have hregistered' := h.registered'.addHeritage x' clauses kind
  cases hx with
  | none => exact h
  | @some x x' htwins =>
      have hname : x'.name = x.name := (h.below_of_twins htwins).name
      have hparents : List.Forall₂ (Heritage.Matches s.definitions s'.definitions)
          (heritageOf x clauses kind) (heritageOf x' clauses kind) := by
        refine List.rel_filterMap (R := Eq) (fun clause clause' hclause => ?_) (List.forall₂_refl clauses)
        subst hclause
        simp only [hname]
        split
        · split
          · exact .none
          · exact .some ⟨htwins.corresponds, rfl, rfl, rfl⟩
        · exact .none
      exact { h with
        heritage := List.rel_append h.heritage hparents
        registered := hregistered
        registered' := hregistered'
        stamps := h.stamps_congr rfl rfl rfl rfl rfl rfl }

end Bodies

/-- A definition is recorded with the body of a container. -/
theorem define_addContainer (h : s.Moved k s') {d : Sighting} (hd : d.IsNamed) (hstart : 0 ≤ d.start)
    (hfinish : 0 ≤ d.finish.getD d.start) (e : Extent) :
    ((s.define d).1.addContainer (s.define d).2 e).Moved k
      ((s'.define (d.down k)).1.addContainer (s'.define (d.down k)).2 (e.down k)) :=
  (h.define hd hstart hfinish).addContainer (h.define_twins d) e

/-- A definition is recorded with a body for calls. -/
theorem define_addScope (h : s.Moved k s') {d : Sighting} (hd : d.IsNamed) (hstart : 0 ≤ d.start)
    (hfinish : 0 ≤ d.finish.getD d.start) (e : Extent) :
    ((s.define d).1.addScope (s.define d).2 e).Moved k
      ((s'.define (d.down k)).1.addScope (s'.define (d.down k)).2 (e.down k)) :=
  (h.define hd hstart hfinish).addScope (h.define_twins d) e

/-- **A pass over matches that are moved down** keeps the records moved down, if each match does. -/
theorem foldl (h : s.Moved k s') {f f' : Scan → Match → Scan} {ms : List Match}
    (hf : ∀ m ∈ ms, ∀ t t' : Scan, t.Moved k t' → (f t m).Moved k (f' t' (m.down k))) :
    (ms.foldl f s).Moved k ((ms.map (Match.down k)).foldl f' s') := by
  induction ms generalizing s s' with
  | nil => exact h
  | cons m ms ih =>
      have hhead := hf m List.mem_cons_self s s' h
      exact ih hhead fun m' hm' => hf m' (List.mem_cons_of_mem m hm')

/-- The imports of one form are found in both. -/
theorem foldl_addImport (h : s.Moved k s') {p : Pattern} (hp : p.movesDown = true) (code : Text) :
    ((p.findAll code).foldl (fun s m => s.addImport (m.group 1)) s).Moved k
      ((p.findAll (below k code)).foldl (fun s m => s.addImport (m.group 1)) s') := by
  rw [Pattern.findAll_below hp]
  refine h.foldl fun m _ t t' ht => ?_
  rw [Match.group_down]
  exact ht.addImport (m.group 1)

/-- The records of two scans before the first pass. -/
theorem start (path code code' : Text) {outline : Text} (htext : outline ≠ []) :
    Moved k { path := path, code := code, outline := outline }
      { path := path, code := code', outline := below k outline } := by
  refine ⟨rfl, rfl, htext, rfl, .nil, ?_, .nil, rfl, rfl, .nil, .nil, Registered.start _ _ _,
    Registered.start _ _ _, ?_⟩
  · intro x x' hx
    exact absurd hx List.not_mem_nil
  · intro _ x x' hx
    exact absurd hx List.not_mem_nil

/-! ## Calls -/

theorem rel_callAt (h : s.Moved k s') (exclusions : List Text) (topLevel : Option Text) {m : Match}
    (hm : Pattern.callSite.Makes m) :
    Option.Rel (Call.Matches topLevel s.definitions s'.definitions) (s.callAt exclusions topLevel m)
      (s'.callAt exclusions topLevel (m.down k)) := by
  have hindex : (((m.down k).groupStart 1 : Nat) : Int) = (m.groupStart 1 : Int) + k := by
    rw [hm.groupStart_down rfl k]
    rfl
  have hoffsets : s'.nameOffsets.contains ((m.groupStart 1 : Int) + k) =
      s.nameOffsets.contains (m.groupStart 1 : Int) := by
    rw [Bool.eq_iff_iff, List.contains_iff_mem, List.contains_iff_mem, h.nameOffsets]
    exact List.mem_map_of_injective (add_left_injective (k : Int))
  have hinner := Region.innermost_filter_below h.scopes (m.groupStart 1)
  simp only [callAt, hindex, hoffsets, Match.group_down]
  split
  · exact .none
  · generalize Region.innermost (s.scopes.filter _) = o at hinner ⊢
    generalize Region.innermost (s'.scopes.filter _) = o' at hinner ⊢
    cases hinner with
    | none =>
        cases topLevel with
        | none => exact .none
        | some file => exact .some ⟨rfl, Or.inr ⟨rfl, rfl⟩⟩
    | some hr =>
        have hname := (h.below_of_twins hr.twins).name
        simp only [hname]
        split
        · exact .none
        · exact .some ⟨rfl, Or.inl hr.twins.corresponds⟩

/-- **The calls are the same**, each from the definition at the same place. -/
theorem calls (h : s.Moved k s') (exclusions : List Text) (topLevel : Option Text) :
    List.Forall₂ (Call.Matches topLevel s.definitions s'.definitions) (s.calls exclusions topLevel)
      (s'.calls exclusions topLevel) := by
  have hsites : List.Forall₂ (fun m m' => Pattern.callSite.Makes m ∧ m' = m.down k)
      (Pattern.callSite.findAll s.outline) ((Pattern.callSite.findAll s.outline).map (Match.down k)) :=
    List.forall₂_map_right_iff.mpr
      (List.forall₂_same.mpr fun m hm => ⟨Pattern.makes_of_mem_findAll hm, rfl⟩)
  rw [Scan.calls, Scan.calls, h.outline, Pattern.findAll_below (p := Pattern.callSite) rfl]
  refine List.rel_filterMap (fun m m' hm => ?_) hsites
  obtain ⟨hmakes, rfl⟩ := hm
  exact h.rel_callAt exclusions topLevel hmakes

end Moved

end Scan

end CodeAtlas
