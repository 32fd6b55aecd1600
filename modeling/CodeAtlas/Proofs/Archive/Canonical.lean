import CodeAtlas.Proofs.Archive.Names

set_option autoImplicit false

/-! # When the path of an entry is canonical

A path is canonical (`EntryPath.IsCanonical`) if it has no backslash and starts neither with a slash nor
with `./`. What leads a name may be a mixture of both (`EntryPath.IsLead`). It is dropped in two rounds,
first every `./` and then every slash, and the second round may uncover a `./` that the first one did not
reach. This happens exactly to the names that have a slash before a `./` in what leads them
(`EntryPath.IsMixed`).

For all other names nothing of the lead is left, so the path is canonical, it is its own path, and it is
the path of every name that differs in the lead only (`EntryPath.normalize_canonical`). Both directions
rest on one fact: the path of a name starts with `./` if and only if the name is mixed
(`EntryPath.dotSlash_prefix_normalize_iff`).
-/

namespace CodeAtlas.EntryPath

/-! ## Leads -/

/-- Slashes and `./`, in any mixture. -/
inductive IsLead : Text → Prop where
  | nil : IsLead []
  | slash {u : Text} (h : IsLead u) : IsLead ('/' :: u)
  | dotSlash {u : Text} (h : IsLead u) : IsLead ('.' :: '/' :: u)

theorem IsLead.append {u v : Text} (hu : IsLead u) (hv : IsLead v) : IsLead (u ++ v) := by
  induction hu with
  | nil => exact hv
  | slash _ ih => exact .slash ih
  | dotSlash _ ih => exact .dotSlash ih

/-- Drop all that leads a path. -/
def dropLead : Text → Text
  | '/' :: rest => dropLead rest
  | '.' :: '/' :: rest => dropLead rest
  | t => t

theorem IsLead.dropLead_append {u : Text} (hu : IsLead u) (t : Text) :
    dropLead (u ++ t) = dropLead t := by
  induction hu with
  | nil => rfl
  | slash _ ih => exact ih
  | dotSlash _ ih => exact ih

theorem slashes_append (u v : Text) : slashes (u ++ v) = slashes u ++ slashes v := List.map_append

theorem slashes_eq_self {t : Text} (ht : '\\' ∉ t) : slashes t = t := by
  have hsame : ∀ c ∈ t, (if c == '\\' then '/' else c) = c := by
    intro c hc
    refine if_neg fun heq => ht ?_
    rwa [beq_iff_eq.mp heq] at hc
  exact (List.map_congr_left hsame).trans (List.map_id t)

theorem IsLead.slashes_eq {u : Text} (hu : IsLead u) : slashes u = u := by
  induction hu with
  | nil => rfl
  | slash _ ih => exact congrArg ('/' :: ·) ih
  | dotSlash _ ih => exact congrArg ('.' :: '/' :: ·) ih

/-! ## What the two rounds drop -/

/-- The first round drops a lead, and leaves no `./` at the start. -/
theorem exists_lead_dropDotSlash (t : Text) :
    (∃ u, IsLead u ∧ t = u ++ dropDotSlash t) ∧ ¬ ['.', '/'] <+: dropDotSlash t := by
  fun_induction dropDotSlash t with
  | case1 rest ih =>
      obtain ⟨⟨u, hu, hrest⟩, hstart⟩ := ih
      exact ⟨⟨'.' :: '/' :: u, hu.dotSlash, congrArg ('.' :: '/' :: ·) hrest⟩, hstart⟩
  | case2 t hstart =>
      refine ⟨⟨[], .nil, rfl⟩, ?_⟩
      rintro ⟨rest, rfl⟩
      exact hstart rest rfl

/-- The second round drops nothing, or a lead that ends with a slash. -/
theorem dropSlashes_eq_or (t : Text) :
    t.dropWhile (· == '/') = t ∨ ∃ u, IsLead u ∧ t = u ++ '/' :: t.dropWhile (· == '/') := by
  induction t with
  | nil => exact Or.inl rfl
  | cons c t ih =>
      by_cases hc : c = '/'
      · subst hc
        rw [List.dropWhile_cons_of_pos (by simp)]
        right
        rcases ih with hkept | ⟨u, hu, ht⟩
        · exact ⟨[], .nil, by rw [hkept, List.nil_append]⟩
        · exact ⟨'/' :: u, hu.slash, by rw [List.cons_append, ← ht]⟩
      · exact Or.inl (List.dropWhile_cons_of_neg (by simpa using hc))

/-- A path is what a lead of the name leaves. -/
theorem exists_lead_normalize (name : Text) :
    ∃ u, IsLead u ∧ slashes name = u ++ normalize name := by
  obtain ⟨⟨u, hu, hfirst⟩, -⟩ := exists_lead_dropDotSlash (slashes name)
  rcases dropSlashes_eq_or (dropDotSlash (slashes name)) with hkept | ⟨v, hv, hsecond⟩
  · exact ⟨u, hu, by rw [normalize_eq, hkept, ← hfirst]⟩
  · refine ⟨u ++ (v ++ ['/']), hu.append (hv.append (.slash .nil)), ?_⟩
    calc slashes name = u ++ dropDotSlash (slashes name) := hfirst
      _ = u ++ (v ++ '/' :: normalize name) := by rw [normalize_eq, ← hsecond]
      _ = u ++ (v ++ ['/']) ++ normalize name := by simp

/-! ## Mixed names -/

/-- A slash comes before a `./` in what leads the name. -/
def IsMixed (name : Text) : Prop :=
  ∃ u rest, IsLead u ∧ slashes name = u ++ '/' :: '.' :: '/' :: rest

/-- The second round stops at a `./`, wherever it stands in the lead. -/
theorem IsLead.dotSlash_prefix_dropSlashes {u : Text} (hu : IsLead u) (rest : Text) :
    ['.', '/'] <+: (u ++ '/' :: '.' :: '/' :: rest).dropWhile (· == '/') := by
  induction hu with
  | nil => exact ⟨rest, rfl⟩
  | slash _ ih => exact ih
  | @dotSlash u _ _ => exact ⟨u ++ '/' :: '.' :: '/' :: rest, rfl⟩

/-- The first round stops at a slash, so that the second one comes to the `./` behind it. -/
theorem IsLead.dotSlash_prefix_dropBoth {u : Text} (hu : IsLead u) (rest : Text) :
    ['.', '/'] <+: (dropDotSlash (u ++ '/' :: '.' :: '/' :: rest)).dropWhile (· == '/') := by
  induction hu with
  | nil => exact ⟨rest, rfl⟩
  | slash hu _ => exact hu.slash.dotSlash_prefix_dropSlashes rest
  | dotSlash _ ih => exact ih

/-- **Only mixed names leave a `./` at the start of the path, and all of them do.** -/
theorem dotSlash_prefix_normalize_iff (name : Text) :
    ['.', '/'] <+: normalize name ↔ IsMixed name := by
  constructor
  · rintro ⟨rest, hrest⟩
    obtain ⟨⟨u, hu, hfirst⟩, hstart⟩ := exists_lead_dropDotSlash (slashes name)
    rcases dropSlashes_eq_or (dropDotSlash (slashes name)) with hkept | ⟨v, hv, hsecond⟩
    · -- The first round has left no `./` for the second one to keep.
      rw [← hkept, ← normalize_eq] at hstart
      exact absurd ⟨rest, hrest⟩ hstart
    · rw [← normalize_eq, ← hrest] at hsecond
      refine ⟨u ++ v, rest, hu.append hv, ?_⟩
      rw [hfirst, hsecond, List.append_assoc]
      rfl
  · rintro ⟨u, rest, hu, hname⟩
    rw [normalize_eq, hname]
    exact hu.dotSlash_prefix_dropBoth rest

instance (name : Text) : Decidable (IsMixed name) :=
  decidable_of_iff _ (dotSlash_prefix_normalize_iff name)

/-! ## Canonical paths -/

/-- A path with forward slashes and without a lead. -/
structure IsCanonical (p : Text) : Prop where
  backslash_notMem : '\\' ∉ p
  not_slash : ¬ ['/'] <+: p
  not_dotSlash : ¬ ['.', '/'] <+: p

theorem IsCanonical.dropLead_eq {p : Text} (h : IsCanonical p) : dropLead p = p := by
  rw [dropLead.eq_def]
  split
  · exact absurd ⟨_, rfl⟩ h.not_slash
  · exact absurd ⟨_, rfl⟩ h.not_dotSlash
  · rfl

/-- Nothing leads a canonical path, so it is its own path. -/
theorem IsCanonical.normalize_eq_self {p : Text} (h : IsCanonical p) : normalize p = p := by
  obtain ⟨u, hu, hp⟩ := exists_lead_normalize p
  rw [slashes_eq_self h.backslash_notMem] at hp
  cases hu with
  | nil => exact hp.symm
  | slash => exact absurd ⟨_, hp.symm⟩ h.not_slash
  | dotSlash => exact absurd ⟨_, hp.symm⟩ h.not_dotSlash

/-- A `./` at the start is lost. -/
theorem length_normalize_lt {p : Text} (h : ['.', '/'] <+: p) : (normalize p).length < p.length := by
  obtain ⟨q, rfl⟩ := h
  have hsuffix : normalize (['.', '/'] ++ q) <:+ slashes q :=
    (List.dropWhile_suffix _).trans (dropDotSlash_suffix (slashes q))
  calc (normalize (['.', '/'] ++ q)).length ≤ (slashes q).length := hsuffix.length_le
    _ = q.length := List.length_map _
    _ < (['.', '/'] ++ q).length := by simp

theorem not_slash_prefix_normalize (name : Text) : ¬ ['/'] <+: normalize name := by
  rintro ⟨rest, hrest⟩
  exact head?_normalize_ne name (hrest ▸ rfl)

theorem isCanonical_normalize {name : Text} (h : ¬ IsMixed name) : IsCanonical (normalize name) where
  backslash_notMem := backslash_notMem_normalize name
  not_slash := not_slash_prefix_normalize name
  not_dotSlash := mt (dotSlash_prefix_normalize_iff name).mp h

/-- Of a name that is not mixed the whole lead is dropped. -/
theorem normalize_eq_dropLead {name : Text} (h : ¬ IsMixed name) :
    normalize name = dropLead (slashes name) := by
  obtain ⟨u, hu, hname⟩ := exists_lead_normalize name
  calc normalize name = dropLead (normalize name) := (isCanonical_normalize h).dropLead_eq.symm
    _ = dropLead (u ++ normalize name) := (hu.dropLead_append _).symm
    _ = dropLead (slashes name) := by rw [← hname]

/-- The lead has no part in the path. -/
theorem IsLead.normalize_append {u rest : Text} (hu : IsLead u) (h : ¬ IsMixed (u ++ rest)) :
    normalize (u ++ rest) = dropLead (slashes rest) := by
  rw [normalize_eq_dropLead h, slashes_append, hu.slashes_eq, hu.dropLead_append]

/-- **Paths are canonical, but for mixed names.** No path has a backslash or starts with a slash. It starts
with `./` exactly if its name is mixed, and it is its own path exactly if the name is not. Names that
differ in their leads only have one path, if they are not mixed; the path of a mixed name is another. -/
theorem normalize_canonical (name : Text) :
    '\\' ∉ normalize name ∧ ¬ ['/'] <+: normalize name ∧
      (¬ ['.', '/'] <+: normalize name ↔ ¬ IsMixed name) ∧
      (normalize (normalize name) = normalize name ↔ ¬ IsMixed name) ∧
      ∀ u v rest, IsLead u → IsLead v → name = u ++ rest → ¬ IsMixed name →
        (normalize (v ++ rest) = normalize name ↔ ¬ IsMixed (v ++ rest)) := by
  refine ⟨backslash_notMem_normalize name, not_slash_prefix_normalize name,
    not_congr (dotSlash_prefix_normalize_iff name), ⟨fun hself hmixed => ?_, fun h => ?_⟩, ?_⟩
  · have hshorter := length_normalize_lt ((dotSlash_prefix_normalize_iff name).mpr hmixed)
    rw [hself] at hshorter
    exact Nat.lt_irrefl _ hshorter
  · exact (isCanonical_normalize h).normalize_eq_self
  · rintro u v rest hu hv rfl hname
    constructor
    · intro hsame hmixed
      have hstart := (dotSlash_prefix_normalize_iff (v ++ rest)).mpr hmixed
      rw [hsame] at hstart
      exact (isCanonical_normalize hname).not_dotSlash hstart
    · intro hother
      rw [hv.normalize_append hother, hu.normalize_append hname]

theorem normalize_canonical_leads :
    let name := "././/src\\a.js".toList
    ¬ IsMixed name ∧ IsCanonical (normalize name) ∧ normalize (normalize name) = normalize name ∧
      normalize "//src\\a.js".toList = normalize name ∧ normalize "/./src\\a.js".toList ≠ normalize name := by
  intro name
  have hname : ¬ IsMixed name := by decide
  obtain ⟨hback, hslash, hstart, hself, hleads⟩ := normalize_canonical name
  have hsplit : name = "././/".toList ++ "src\\a.js".toList := by decide
  have hlead : IsLead "././/".toList := .dotSlash (.dotSlash (.slash .nil))
  refine ⟨hname, ⟨hback, hslash, hstart.mpr hname⟩, hself.mpr hname, ?_, ?_⟩
  · exact (hleads _ "//".toList _ hlead (.slash (.slash .nil)) hsplit hname).mpr (by decide)
  · intro hsame
    have hmixed : IsMixed ("/./".toList ++ "src\\a.js".toList) := by decide
    exact (hleads _ "/./".toList _ hlead (.slash (.dotSlash .nil)) hsplit hname).mp hsame hmixed

/-- A slash hides the `./` behind it: it stays in the path, a second normalisation drops it, and the name
without the lead has another path. -/
theorem normalize_hidden :
    let name := "/./".toList ++ "a.js".toList
    IsLead "/./".toList ∧ ['.', '/'] <+: normalize name ∧ normalize (normalize name) ≠ normalize name ∧
      normalize name ≠ normalize "a.js".toList := by
  exact ⟨.slash (.dotSlash .nil), by decide, by decide, by decide⟩

end CodeAtlas.EntryPath
