import CodeAtlas.Proofs.Extraction.Passes
import CodeAtlas.Proofs.Sorting

set_option autoImplicit false

/-! # Identities within a file are distinct

A definition gets the first identity of three that is free: the one by its owner, the one by its
line, and the one by its position. The last one is taken without a look. That it is free all the same
rests on the guard at the front: no two definitions have label, name and start in common, and a key by
position tells all three.

`Scan.Keyed` is the invariant of a scan that says this. Every definition has the identity of a key of
one of the three forms, all the keys are on record, and the identities are distinct as long as the
digest does not take two of the recorded keys to one value.
-/

namespace CodeAtlas

/-- The digest tells the given keys apart. -/
def Digest.NoCollision (keys : List Text) : Prop :=
  ∀ k₁ ∈ keys, ∀ k₂ ∈ keys, Digest.md5Hex k₁ = Digest.md5Hex k₂ → k₁ = k₂

instance (keys : List Text) : Decidable (Digest.NoCollision keys) :=
  inferInstanceAs (Decidable (∀ k₁ ∈ keys, ∀ k₂ ∈ keys, _ → _))

theorem Digest.NoCollision.mono {keys keys' : List Text} (h : NoCollision keys')
    (hsub : keys ⊆ keys') : NoCollision keys :=
  fun k₁ h₁ k₂ h₂ => h k₁ (hsub h₁) k₂ (hsub h₂)

namespace Scan

/-! ## Owners -/

/-- An owner is a container that holds the position directly. -/
theorem ownerOf_eq_some {s : Scan} {index : Int} {c : Region} (h : s.ownerOf index = some c) :
    c ∈ s.containers ∧ c.contains index = true ∧
      Bracket.depthBetween s.outline (c.first + 1) index = 0 := by
  unfold ownerOf at h
  split at h
  · simp at h
  · next c' hc' =>
    rw [Option.ite_none_right_eq_some, Option.some_inj, beq_iff_eq] at h
    obtain ⟨hdepth, rfl⟩ := h
    obtain ⟨hmem, hcontains⟩ := List.mem_filter.mp (Region.innermost_eq_some hc').1
    exact ⟨hmem, hcontains, hdepth⟩

theorem mem_containers_of_ownerOf {s : Scan} {index : Int} {r : Region}
    (h : s.ownerOf index = some r) : r ∈ s.containers :=
  (ownerOf_eq_some h).1

/-! ## The choice of an identity -/

/-- **What identity a definition gets.** It is that of a key with a qualifier of one of the three
forms, and it is either free or the one by position. -/
theorem freshId_spec (s : Scan) (d : Sighting) {owner : Option Text}
    (howner : IsName (owner.getD [])) :
    ∃ q, Qualifies d.start q ∧
      (s.freshId d owner).1 = Identity.ofDefinition d.label s.path d.name q ∧
      Identity.key d.label.name s.path d.name q ∈ (s.freshId d owner).2 ∧
      ((s.freshId d owner).1 ∉ s.ids ∨
        ∃ line, q = some (owner.getD [] ++ '@' :: Text.ofNat line ++ ':' :: Text.ofInt d.start)) := by
  simp only [freshId]
  -- Each test that fails leads to the next form; after the last one nothing is tested.
  split
  · split
    · refine ⟨_, .byPlace howner (s.lineOf d.start), rfl, by simp, Or.inr ⟨_, rfl⟩⟩
    · next hfree =>
      exact ⟨_, .byLine howner (s.lineOf d.start), rfl, by simp, Or.inl (by simpa using hfree)⟩
  · next hfree => exact ⟨_, .byOwner howner, rfl, by simp, Or.inl (by simpa using hfree)⟩

/-! ## The invariant -/

/-- What is true of the identities at every point of a scan. -/
structure Keyed (s : Scan) : Prop where
  id_mem : ∀ x ∈ s.definitions, x.id ∈ s.ids
  seen : ∀ x ∈ s.definitions, (x.label, x.name, x.start) ∈ s.seen
  label_ne_file : ∀ x ∈ s.definitions, x.label ≠ .file
  isName : ∀ x ∈ s.definitions, IsName x.name
  container_mem : ∀ r ∈ s.containers, r.definition ∈ s.definitions
  keyed : ∀ x ∈ s.definitions, ∃ q, Qualifies x.start q ∧
    x.id = Identity.ofDefinition x.label s.path x.name q ∧
    Identity.key x.label.name s.path x.name q ∈ s.keys
  distinct : Digest.NoCollision s.keys → (s.definitions.map (·.id)).Nodup

theorem Keyed.isName_owner {s : Scan} (h : s.Keyed) (index : Int) :
    IsName (((s.ownerOf index).map (·.definition.name)).getD []) := by
  cases howner : s.ownerOf index with
  | none => intro c hc; simp at hc
  | some r => exact h.isName _ (h.container_mem r (mem_containers_of_ownerOf howner))

/-- The identity given to a new definition is not in use. -/
theorem Keyed.id_definitionOf_ne {s : Scan} (h : s.Keyed) {d : Sighting} (hd : d.IsNamed)
    (hnew : (d.label, d.name, d.start) ∉ s.seen)
    (hkeys : Digest.NoCollision
      ((s.freshId d ((s.ownerOf d.start).map (·.definition.name))).2 ++ s.keys)) :
    ∀ x ∈ s.definitions, x.id ≠ (s.definitionOf d).id := by
  intro x hx heq
  have howner := h.isName_owner d.start
  obtain ⟨q, -, hid, hkey, hfree⟩ := s.freshId_spec d howner
  rcases hfree with hfree | ⟨line, rfl⟩
  · exact hfree (show (s.definitionOf d).id ∈ s.ids from heq ▸ h.id_mem x hx)
  · -- The identity by position: the keys agree, and so do label, name and start.
    obtain ⟨q', hq', hid', hkey'⟩ := h.keyed x hx
    obtain ⟨hlabel, hdigest⟩ := Identity.ofDefinition_inj (hid'.symm.trans (heq.trans hid))
    have hsame := hkeys _ (List.mem_append_right _ hkey') _ (List.mem_append_left _ hkey) hdigest
    rw [hlabel] at hsame
    obtain ⟨hname, rfl⟩ := Identity.key_inj hd.label_ne_file
      ((h.isName x hx).notMem (by decide)) (hd.isName.notMem (by decide)) (by simp) hsame
    have hstart := hq'.start_eq howner
    exact hnew (hlabel ▸ hname ▸ hstart ▸ h.seen x hx)

theorem Keyed.define {s : Scan} (h : s.Keyed) {d : Sighting} (hd : d.IsNamed) :
    (s.define d).1.Keyed := by
  by_cases hseen : (d.label, d.name, d.start) ∈ s.seen
  · rwa [define_of_seen hseen]
  · rw [define_of_not_seen hseen]
    obtain ⟨q, hq, hid, hkey, -⟩ := s.freshId_spec d (h.isName_owner d.start)
    have hmem : ∀ {x : Definition}, x ∈ s.definitions ++ [s.definitionOf d] →
        x ∈ s.definitions ∨ x = s.definitionOf d := by
      intro x hx
      simpa using hx
    constructor
    · intro x hx
      rcases hmem hx with hx | rfl
      · exact List.mem_cons_of_mem _ (h.id_mem x hx)
      · exact List.mem_cons_self
    · intro x hx
      rcases hmem hx with hx | rfl
      · exact List.mem_cons_of_mem _ (h.seen x hx)
      · exact List.mem_cons_self
    · intro x hx
      rcases hmem hx with hx | rfl
      · exact h.label_ne_file x hx
      · exact hd.label_ne_file
    · intro x hx
      rcases hmem hx with hx | rfl
      · exact h.isName x hx
      · exact hd.isName
    · intro r hr
      exact List.mem_append_left _ (h.container_mem r hr)
    · intro x hx
      rcases hmem hx with hx | rfl
      · obtain ⟨q', hq', hid', hkey'⟩ := h.keyed x hx
        exact ⟨q', hq', hid', List.mem_append_right _ hkey'⟩
      · exact ⟨q, hq, hid, List.mem_append_left _ hkey⟩
    · -- The old identities are distinct under fewer keys, and the new one is none of them.
      intro hkeys
      have hold := h.distinct (hkeys.mono (List.subset_append_right _ _))
      rw [List.map_append, List.nodup_append]
      refine ⟨hold, by simp, fun a ha b hb => ?_⟩
      obtain ⟨x, hx, rfl⟩ := List.mem_map.mp ha
      obtain rfl : b = (s.definitionOf d).id := by simpa using hb
      exact h.id_definitionOf_ne hd hseen hkeys x hx

theorem Keyed.addContainer {s : Scan} (h : s.Keyed) {x : Definition} (hx : x ∈ s.definitions)
    (e : Extent) : (s.addContainer (some x) e).Keyed := by
  unfold Scan.addContainer
  split
  · next y i hy hi =>
    obtain rfl := Option.some_inj.mp hy
    refine { h with container_mem := fun r hr => ?_ }
    rcases List.mem_append.mp hr with hr | hr
    · exact h.container_mem r hr
    · obtain rfl := List.mem_singleton.mp hr
      exact hx
  · exact h

/-- Every step keeps the identities keyed. -/
theorem Keyed.step {Body : Text → Extent → Prop} {s t : Scan} (hstep : Step Body s t)
    (h : s.Keyed) : t.Keyed := by
  cases hstep with
  | addImport path =>
      simp only [Scan.addImport]
      split
      · exact h
      · exact { h with }
  | define hd => exact h.define hd
  | addContainer hx e => exact h.addContainer hx e
  | addScope hx he =>
      unfold Scan.addScope
      split
      · split
        · exact { h with }
        · exact h
      · exact h
  | addHeritage hx clauses kind => exact { h with }

theorem keyed_start (path code outline : Text) :
    Keyed { path := path, code := code, outline := outline } := by
  constructor <;> simp

end Scan

theorem Language.keyed_scan (l : Language) (path source : Text) : (l.scan path source).Keyed :=
  (l.run_scan path source).invariant Scan.Keyed.step (Scan.keyed_start _ _ _)

/-! ## The definitions of a file -/

namespace Language

theorem definitions_extract_perm (l : Language) (path source : Text) :
    (l.extract path source).definitions.Perm (l.scan path source).definitions := by
  rw [extract_eq]
  exact sortBy_perm _ _

/-- The identity of a definition comes from a key on record that holds the path of its file. -/
theorem exists_key_of_mem {l : Language} {path source : Text} {d : Definition}
    (h : d ∈ (l.extract path source).definitions) :
    d.label ≠ .file ∧ ∃ q, d.id = Identity.ofDefinition d.label path d.name q ∧
      Identity.key d.label.name path d.name q ∈ (l.scan path source).keys := by
  have hkeyed := l.keyed_scan path source
  have hmem := (l.definitions_extract_perm path source).mem_iff.mp h
  obtain ⟨q, -, hid, hkey⟩ := hkeyed.keyed d hmem
  rw [path_scan] at hid hkey
  exact ⟨hkeyed.label_ne_file d hmem, q, hid, hkey⟩

/-- **Identities within a file are distinct.** If the digest does not take two of the keys generated
for a file to one value, then no two definitions of the file have one identity, and none has the
identity of the file. -/
theorem ids_distinct (l : Language) (path source : Text)
    (h : Digest.NoCollision (l.scan path source).keys) :
    ((l.extract path source).definitions.map (·.id)).Nodup ∧
      ∀ x ∈ (l.extract path source).definitions, x.id ≠ Identity.ofFile path := by
  have hkeyed := l.keyed_scan path source
  have hperm := l.definitions_extract_perm path source
  refine ⟨(hperm.map _).nodup_iff.mpr (hkeyed.distinct h), fun x hx => ?_⟩
  have hx := hperm.mem_iff.mp hx
  obtain ⟨q, -, hid, -⟩ := hkeyed.keyed x hx
  rw [hid]
  exact Identity.ofDefinition_ne_ofFile (hkeyed.label_ne_file x hx) _ _ _ _

/-- Three functions of one name on one line. -/
def overloadSource : Text :=
  "contract A\x7bfunction f()\x7b\x7dfunction f()\x7b\x7dfunction f()\x7b\x7d\x7d".toList

theorem ids_distinct_overloads :
    Digest.NoCollision (solidity.scan "a.sol".toList overloadSource).keys ∧
      ((solidity.extract "a.sol".toList overloadSource).definitions.map (·.id)).Nodup ∧
      ∀ x ∈ (solidity.extract "a.sol".toList overloadSource).definitions,
        x.id ≠ Identity.ofFile "a.sol".toList := by
  have hkeys : Digest.NoCollision (solidity.scan "a.sol".toList overloadSource).keys := by
    decide +kernel
  exact ⟨hkeys, ids_distinct solidity "a.sol".toList overloadSource hkeys⟩

end Language

end CodeAtlas
