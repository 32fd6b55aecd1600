import CodeAtlas.Archive.EntryPath
import CodeAtlas.Proofs.Path.Normal

set_option autoImplicit false

/-! # Names that the filter has no answer for

The filter looks at the last component of a path. A path that is not empty and does not end with a slash
may have none all the same: it is a dot, or dots between slashes (`EntryPath.isDots`). What is taken off
the front of a name are slashes and dots before slashes, so the name is of this form as well. The filter
has an answer for every other name and for none of these (`EntryPath.ignored?_normalize_eq_none_iff`).
-/

namespace CodeAtlas

namespace Path

/-! ## Paths without components -/

theorem components_slash (p : Text) : components ('/' :: p) = components p := by
  rw [components, List.splitOn_cons_eq_if_modifyHead, if_pos (by decide)]
  rfl

theorem components_dot_slash (p : Text) : components ('.' :: '/' :: p) = components p := by
  rw [components, Text.splitOn_cons_of_ne (by decide), List.splitOn_cons_eq_if_modifyHead,
    if_pos (by decide)]
  rfl

/-- A path that starts with something else than a slash has a component, unless this is a dot alone. -/
theorem components_ne_nil {c : Char} {p : Text} (hslash : c ≠ '/')
    (hdot : c = '.' → ∃ d q, p = d :: q ∧ d ≠ '/') : components (c :: p) ≠ [] := by
  obtain ⟨q, qs, hq⟩ := List.exists_cons_of_ne_nil (List.splitOn_ne_nil '/' p)
  have hkept : (c :: q != [] && c :: q != ['.']) = true := by
    rw [Bool.and_eq_true, bne_iff_ne, bne_iff_ne]
    refine ⟨List.cons_ne_nil c q, fun heq => ?_⟩
    obtain ⟨rfl, rfl⟩ := List.cons.inj heq
    obtain ⟨d, r, rfl, hd⟩ := hdot rfl
    -- The first piece goes on with the character behind the dot.
    obtain ⟨q', qs', hq'⟩ := List.exists_cons_of_ne_nil (List.splitOn_ne_nil '/' r)
    rw [Text.splitOn_cons_of_ne hd, hq', List.modifyHead_cons] at hq
    exact List.cons_ne_nil d q' (List.cons.inj hq).1
  rw [components, Text.splitOn_cons_of_ne hslash, hq, List.modifyHead_cons, List.filter_cons, if_pos hkept]
  exact List.cons_ne_nil _ _

end Path

namespace EntryPath

/-! ## Names that are dots -/

/-- A slash of either kind. -/
def isSlash (c : Char) : Bool := c == '/' || c == '\\'

/-- Is a name a dot, or dots and slashes with a dot at the end and no two dots in a row? -/
def isDots : Text → Bool
  | [] => false
  | '.' :: rest =>
    match rest with
    | [] => true
    | c :: rest => isSlash c && isDots rest
  | c :: rest => isSlash c && isDots rest

theorem isDots_slash {c : Char} (hc : isSlash c = true) (t : Text) : isDots (c :: t) = isDots t := by
  have hdot : c ≠ '.' := by
    rintro rfl
    exact absurd hc (by decide)
  rw [isDots.eq_def]
  split
  · contradiction
  · next heq => exact absurd (List.cons.inj heq).1 hdot
  · next heq =>
    obtain ⟨rfl, rfl⟩ := List.cons.inj heq
    rw [hc, Bool.true_and]

theorem isDots_other {c : Char} (hc : isSlash c = false) (hdot : c ≠ '.') (t : Text) :
    isDots (c :: t) = false := by
  rw [isDots.eq_def]
  split
  · rfl
  · next heq => exact absurd (List.cons.inj heq).1 hdot
  · next heq =>
    obtain ⟨rfl, rfl⟩ := List.cons.inj heq
    rw [hc, Bool.false_and]

theorem isDots_dot (c : Char) (t : Text) : isDots ('.' :: c :: t) = (isSlash c && isDots t) := rfl

/-- **A path is dots if it has no components** and is neither empty nor ends with a slash. -/
theorem isDots_iff {p : Text} (hp : '\\' ∉ p) :
    isDots p = true ↔ p ≠ [] ∧ p.getLast? ≠ some '/' ∧ Path.components p = [] := by
  fun_induction isDots p with
  | case1 => simp
  | case2 => decide
  | case3 c rest ih =>
      rw [List.mem_cons, List.mem_cons, not_or, not_or] at hp
      by_cases hc : c = '/'
      · subst hc
        rw [Path.components_dot_slash]
        cases rest with
        | nil => decide
        | cons d rest => simpa [isSlash] using ih hp.2.2
      · have hslash : isSlash c = false := by simp [isSlash, hc, Ne.symm hp.2.1]
        have hne : Path.components ('.' :: c :: rest) ≠ [] :=
          Path.components_ne_nil (by decide) fun _ => ⟨c, rest, rfl, hc⟩
        simp [hslash, hne]
  | case4 c rest hdot ih =>
      rw [List.mem_cons, not_or] at hp
      by_cases hc : c = '/'
      · subst hc
        rw [Path.components_slash]
        cases rest with
        | nil => decide
        | cons d rest => simpa [isSlash] using ih hp.2
      · have hslash : isSlash c = false := by simp [isSlash, hc, Ne.symm hp.1]
        have hne : Path.components (c :: rest) ≠ [] :=
          Path.components_ne_nil hc fun heq => absurd heq hdot
        simp [hslash, hne]

/-! ## Normalised names -/

/-- A name with forward slashes. -/
def slashes (name : Text) : Text := name.map fun c => if c == '\\' then '/' else c

theorem normalize_eq (name : Text) :
    normalize name = (dropDotSlash (slashes name)).dropWhile (· == '/') := rfl

theorem backslash_notMem_slashes (name : Text) : '\\' ∉ slashes name := by
  intro hmem
  obtain ⟨c, -, hc⟩ := List.mem_map.mp hmem
  split at hc
  · contradiction
  · next hne => exact hne (by simpa using hc)

theorem dropDotSlash_suffix (t : Text) : dropDotSlash t <:+ t := by
  fun_induction dropDotSlash t with
  | case1 rest ih => exact ih.trans ((List.suffix_cons '/' rest).trans (List.suffix_cons '.' _))
  | case2 t => exact List.suffix_refl t

/-- A path is what is left of its name when something is taken off the front. -/
theorem normalize_suffix (name : Text) : normalize name <:+ slashes name := by
  rw [normalize_eq]
  exact (List.dropWhile_suffix _).trans (dropDotSlash_suffix _)

theorem backslash_notMem_normalize (name : Text) : '\\' ∉ normalize name := by
  intro hmem
  exact backslash_notMem_slashes name ((normalize_suffix name).subset hmem)

theorem head?_normalize_ne (name : Text) : (normalize name).head? ≠ some '/' := by
  intro hhead
  have hnot := List.head?_dropWhile_not (· == '/') (dropDotSlash (slashes name))
  rw [← normalize_eq, hhead] at hnot
  simp at hnot

/-! ### Dots stay dots -/

theorem isDots_slashes (name : Text) : isDots (slashes name) = isDots name := by
  have hmap : ∀ c, isSlash (if c == '\\' then '/' else c) = isSlash c := by
    intro c
    split
    · next heq =>
      rw [beq_iff_eq.mp heq]
      rfl
    · rfl
  fun_induction isDots name with
  | case1 => rfl
  | case2 => rfl
  | case3 c rest ih =>
      show isDots ('.' :: (if c == '\\' then '/' else c) :: slashes rest) = _
      rw [isDots_dot, hmap, ih]
  | case4 c rest hdot ih =>
      show isDots ((if c == '\\' then '/' else c) :: slashes rest) = _
      cases hc : isSlash c with
      | true => rw [isDots_slash ((hmap c).trans hc), ih, Bool.true_and]
      | false =>
          have hback : (c == '\\') = false := by
            have := (Bool.or_eq_false_iff.mp hc).2
            exact this
          rw [hback, if_neg (by decide), isDots_other hc hdot, Bool.false_and]

theorem isDots_dropDotSlash (t : Text) : isDots (dropDotSlash t) = isDots t := by
  fun_induction dropDotSlash t with
  | case1 rest ih => rw [ih, isDots_dot, isSlash, beq_self_eq_true, Bool.true_or, Bool.true_and]
  | case2 t => rfl

theorem isDots_dropWhile (t : Text) : isDots (t.dropWhile (· == '/')) = isDots t := by
  induction t with
  | nil => rfl
  | cons c t ih =>
      by_cases hc : c = '/'
      · subst hc
        rw [List.dropWhile_cons_of_pos (by simp), ih, isDots_slash (by decide)]
      · rw [List.dropWhile_cons_of_neg (by simpa using hc)]

/-- What is taken off a name makes no dots of it, and leaves them if it was dots. -/
theorem isDots_normalize (name : Text) : isDots (normalize name) = isDots name := by
  calc isDots (normalize name) = isDots (dropDotSlash (slashes name)) := isDots_dropWhile _
    _ = isDots (slashes name) := isDots_dropDotSlash _
    _ = isDots name := isDots_slashes name

/-! ## The filter -/

/-- The filter has no answer for paths without parts, unless it leaves them out as directories. -/
theorem ignored?_eq_none_iff {f : Filter} {p : Text} :
    ignored? f p = none ↔ p ≠ [] ∧ p.getLast? ≠ some '/' ∧ Path.parts p = [] := by
  unfold ignored?
  by_cases hfolder : (p.isEmpty || p.getLast? == some '/') = true
  · rw [if_pos hfolder]
    rw [Bool.or_eq_true, List.isEmpty_iff, beq_iff_eq] at hfolder
    constructor
    · intro h
      contradiction
    · rintro ⟨hne, hlast, -⟩
      exact absurd hfolder (not_or.mpr ⟨hne, hlast⟩)
  · rw [if_neg hfolder]
    rw [Bool.or_eq_true, not_or, List.isEmpty_iff, beq_iff_eq] at hfolder
    cases hparts : Path.parts p with
    | nil => simpa using hfolder
    | cons part parts =>
        simp only
        split
        · simp
        · simp

/-- **The filter has an answer for the path of a name, unless the name is dots.** -/
theorem ignored?_normalize_eq_none_iff {f : Filter} {name : Text} :
    ignored? f (normalize name) = none ↔ isDots name = true := by
  -- There is no root, so the parts of the path are its components.
  have hparts : Path.parts (normalize name) = Path.components (normalize name) := by
    rw [Path.parts, if_pos (Path.root_eq_nil (head?_normalize_ne name))]
  rw [ignored?_eq_none_iff, hparts, ← isDots_normalize, isDots_iff (backslash_notMem_normalize name)]

/-- A name that ends with a slash is left out. -/
theorem ignored?_normalize_of_getLast? {f : Filter} {name : Text} (h : name.getLast? = some '/') :
    ignored? f (normalize name) = some true := by
  have hlast : (slashes name).getLast? = some '/' := by
    rw [slashes, List.getLast?_map, h]
    rfl
  obtain ⟨front, hfront⟩ := normalize_suffix name
  have hfolder : ((normalize name).isEmpty || (normalize name).getLast? == some '/') = true := by
    rw [Bool.or_eq_true, List.isEmpty_iff, beq_iff_eq]
    by_cases hnil : normalize name = []
    · exact Or.inl hnil
    · right
      rwa [← hfront, List.getLast?_append_of_ne_nil _ hnil] at hlast
  rw [ignored?, if_pos hfolder]

end EntryPath

end CodeAtlas
