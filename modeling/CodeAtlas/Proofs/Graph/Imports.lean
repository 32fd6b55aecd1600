import CodeAtlas.Graph.Import
import CodeAtlas.Proofs.Path.Normal
import CodeAtlas.Proofs.Text.Trim

set_option autoImplicit false

/-! # Relative imports

An import that starts with a dot names a file by a way from the directory of the importer: some steps up,
and then the rest of the path. Its text is left as it is when it is cleaned (`clean_relative`), it is read
from the directory (`target_relative`), and a path that is known is the first that is tried, so that no
other known path matters (`resolve?_of_mem`).
-/

namespace CodeAtlas.Import

open CodeAtlas.Path

/-! ## The text of a relative import -/

/-- A relative import that goes up `k` times, or starts in the directory of the importer. -/
def relative (k : Nat) (rest : List Text) : Text := ofComponents (climb k ++ rest)

variable {rest : List Text}

theorem head?_relative (k : Nat) (rest : List Text) : (relative k rest).head? = some '.' := by
  obtain ⟨c, cs, hclimb⟩ := List.exists_cons_of_ne_nil (climb_ne_nil k)
  have hc : c ∈ climb k := hclimb ▸ List.mem_cons_self
  unfold relative
  rw [hclimb, List.cons_append]
  rcases mem_climb hc with rfl | rfl
  · exact head?_ofComponents (by decide) _
  · exact head?_ofComponents (by decide) _

theorem mem_ofComponents {cs : List Text} {d : Char} (h : d ∈ ofComponents cs) :
    d = '/' ∨ ∃ c ∈ cs, d ∈ c :=
  (Text.of_mem_intercalate h).imp_left List.mem_singleton.mp

/-- **Nothing is cleaned** in a relative import whose components have neither backslashes nor white space
at the end. -/
theorem clean_relative (k : Nat) (hne : rest ≠ []) (hnil : ∀ c ∈ rest, c ≠ [])
    (hback : ∀ c ∈ rest, '\\' ∉ c)
    (hblank : ∀ c ∈ rest.getLast?, c.getLast?.any Text.isBlank = false) :
    clean (relative k rest) = relative k rest := by
  have hlast : ∀ d ∈ (relative k rest).getLast?, Text.isBlank d = false := by
    obtain ⟨cs, c, rfl⟩ := List.eq_nil_or_concat' rest |>.resolve_left hne
    intro d hd
    rw [relative, ← List.append_assoc, getLast?_ofComponents (hnil c (by simp))] at hd
    have hany := hblank c (by simp)
    rwa [Option.mem_def.mp hd] at hany
  have hfirst : ∀ d ∈ (relative k rest).head?, Text.isBlank d = false := by
    intro d hd
    rw [head?_relative] at hd
    obtain rfl := Option.mem_some_iff.mp hd
    rfl
  have hkeep : ∀ d ∈ relative k rest, (if d == '\\' then '/' else d) = d := by
    intro d hd
    rw [if_neg]
    rw [beq_iff_eq]
    rintro rfl
    rcases mem_ofComponents hd with hslash | ⟨c, hc, hd⟩
    · exact absurd hslash (by decide)
    · rcases List.mem_append.mp hc with hc | hc
      · rcases mem_climb hc with rfl | rfl
        · exact absurd hd (by decide)
        · exact absurd hd (by decide)
      · exact hback c hc hd
  rw [clean, Text.trim_eq_self hfirst hlast]
  exact (List.map_congr_left hkeep).trans (List.map_id' _)

/-! ## The path it names -/

theorem isRelative_relative (k : Nat) (rest : List Text) : isRelative (relative k rest) = true := by
  rw [isRelative, head?_relative]
  rfl

section Target

variable {ds : List Text} (hds : ∀ c ∈ ds, IsComponent c) (hrest : ∀ c ∈ rest, IsComponent c)
  (hne : rest ≠ [])
include hds hrest hne

/-- **What a relative import names**: the directory of the importer without as many of its last
components as the import goes up, and then the rest. An import that goes up further keeps the steps for
which there is no component. -/
theorem target_relative {base : Text} (hbase : '/' ∉ base) (k : Nat) :
    target (ofComponents (ds ++ [base])) (relative k rest) =
      ofComponents (ds.take (ds.length - k) ++
        (List.replicate (k - ds.length) ['.', '.'] ++ rest)) := by
  have hdir : ∀ c ∈ ds, c ≠ [] ∧ '/' ∉ c := fun c hc => ⟨(hds c hc).ne_nil, (hds c hc).slash_notMem⟩
  have hsteps : ∀ c ∈ climb k ++ rest, c ≠ [] ∧ '/' ∉ c := by
    intro c hc
    rcases List.mem_append.mp hc with hc | hc
    · rcases mem_climb hc with rfl | rfl
      · decide
      · decide
    · exact ⟨(hrest c hc).ne_nil, (hrest c hc).slash_notMem⟩
  have hjoin : Path.join (dirName (ofComponents (ds ++ [base]))) (relative k rest) =
      ofComponents (ds ++ (climb k ++ rest)) := by
    rw [dirName_ofComponents hdir hbase]
    exact join_ofComponents hdir hsteps (List.append_ne_nil_of_right_ne_nil _ hne)
  rw [target, if_pos (isRelative_relative k rest), hjoin, normalize_climb hds hrest hne]

end Target

/-- A path whose first component is a step up leads out of the archive. -/
theorem isOutside_up (n : Nat) (cs : List Text) :
    isOutside (ofComponents (List.replicate (n + 1) ['.', '.'] ++ cs)) = true := by
  have hprefix : ['.', '.'] <+: ofComponents (List.replicate (n + 1) ['.', '.'] ++ cs) := by
    rw [List.replicate_succ, List.cons_append]
    cases List.replicate n ['.', '.'] ++ cs with
    | nil => exact List.prefix_refl _
    | cons c cs => exact ⟨'/' :: ofComponents (c :: cs), rfl⟩
  rw [isOutside, List.isPrefixOf_iff_prefix.mpr hprefix, Bool.true_or]

/-- A path of components is outside only if its text starts with two dots. -/
theorem isOutside_iff {cs : List Text} (hcs : ∀ c ∈ cs, IsComponent c) (hne : cs ≠ []) :
    isOutside (ofComponents cs) = true ↔ ['.', '.'] <+: ofComponents cs := by
  have hroot : ofComponents cs ≠ ['.'] := by
    intro hdot
    have hpieces := splitOn_ofComponents hne fun c hc => (hcs c hc).slash_notMem
    rw [hdot] at hpieces
    have hmem : ['.'] ∈ cs := hpieces ▸ List.mem_cons_self
    exact (hcs _ hmem).ne_here rfl
  simp [isOutside, hroot]

/-! ## The file it resolves to -/

/-- **A known path is the first that is tried.** -/
theorem resolve?_of_mem {importer raw : Text} {known : List Text} (language : Option Language)
    (hraw : (clean raw).isEmpty = false) (hinside : isOutside (target importer (clean raw)) = false)
    (hmem : target importer (clean raw) ∈ known) :
    resolve? importer raw known language = some (target importer (clean raw)) := by
  have hfind : (attempts language (target importer (clean raw))).find? known.contains =
      some (target importer (clean raw)) :=
    List.find?_cons_of_pos (List.contains_iff_mem.mpr hmem)
  simp only [resolve?, hraw, hinside, hfind, Bool.false_eq_true, if_false]

theorem resolve?_of_isOutside {importer raw : Text} (known : List Text)
    (language : Option Language) (h : isOutside (target importer (clean raw)) = true) :
    resolve? importer raw known language = none := by
  simp only [resolve?, h, if_true, ite_self]

/-- **A relative import resolves to exactly the file that it names.** Let the importer stand in the
directory `ds`, and let the import go up `k` times, or start in that directory, and then name `rest`. If
there are fewer directories than steps up it resolves to nothing. Else the path that it names is that of
the directories that are left, followed by the rest, and if this path is known the import resolves to it,
whatever else is known, and to nothing if the path starts with two dots. -/
theorem resolve?_relative {ds rest : List Text} (hds : ∀ c ∈ ds, IsComponent c)
    (hrest : ∀ c ∈ rest, IsComponent c) (hne : rest ≠ []) (hback : ∀ c ∈ rest, '\\' ∉ c)
    (hblank : ∀ c ∈ rest.getLast?, c.getLast?.any Text.isBlank = false)
    {base : Text} (hbase : '/' ∉ base) (k : Nat) (known : List Text) (language : Option Language) :
    let importer := ofComponents (ds ++ [base])
    let path := ofComponents (ds.take (ds.length - k) ++ rest)
    (ds.length < k → resolve? importer (relative k rest) known language = none) ∧
    (k ≤ ds.length → path ∈ known → resolve? importer (relative k rest) known language =
      if ['.', '.'] <+: path then none else some path) := by
  intro importer path
  have hclean : clean (relative k rest) = relative k rest :=
    clean_relative k hne (fun c hc => (hrest c hc).ne_nil) hback hblank
  have htarget := target_relative hds hrest hne hbase k
  constructor
  · intro hk
    obtain ⟨n, hn⟩ : ∃ n, k - ds.length = n + 1 := ⟨k - ds.length - 1, by omega⟩
    have hnone : ds.length - k = 0 := by omega
    rw [hn, hnone, List.take_zero, List.nil_append] at htarget
    refine resolve?_of_isOutside known language ?_
    rw [hclean, htarget]
    exact isOutside_up n rest
  · intro hk hmem
    have hzero : k - ds.length = 0 := by omega
    rw [hzero, List.replicate_zero, List.nil_append] at htarget
    have hpath : ∀ c ∈ ds.take (ds.length - k) ++ rest, IsComponent c := by
      intro c hc
      rcases List.mem_append.mp hc with hc | hc
      · exact hds c (List.mem_of_mem_take hc)
      · exact hrest c hc
    have hinside := isOutside_iff hpath (List.append_ne_nil_of_right_ne_nil _ hne)
    split
    · next hdots =>
      refine resolve?_of_isOutside known language ?_
      rw [hclean, htarget]
      exact hinside.mpr hdots
    · next hdots =>
      have hraw : (relative k rest).isEmpty = false := by
        have hhead := head?_relative k rest
        cases hnil : relative k rest with
        | nil => simp [hnil] at hhead
        | cons _ _ => rfl
      have hknown : resolve? importer (relative k rest) known language =
          some (target importer (clean (relative k rest))) := by
        refine resolve?_of_mem language (by rwa [hclean]) ?_ (by rwa [hclean, htarget])
        rw [hclean, htarget]
        exact Bool.eq_false_iff.mpr (mt hinside.mp hdots)
      rw [hknown, hclean, htarget]

/-- A known path wins over one with an extension that is known before it. An import that goes up further
than there are directories resolves to nothing, and so does one whose path only looks as if it did. -/
theorem resolve?_relative_exact :
    let ds := ["src".toList, "lib".toList]
    let importer := "src/lib/a.ts".toList
    let known := ["src/util/b.ts".toList, "src/util/b".toList, "..b/c".toList, "util/b".toList]
    let util := ["util".toList, "b".toList]
    let dots := ["..b".toList, "c".toList]
    (∀ c ∈ ds ++ util ++ dots, IsComponent c ∧ '\\' ∉ c ∧ c.getLast?.any Text.isBlank = false) ∧
    resolve? importer "../util/b".toList known (some .typescript) = some "src/util/b".toList ∧
    resolve? importer "../../../util/b".toList known (some .typescript) = none ∧
    resolve? importer "../../..b/c".toList known none = none := by
  intro ds importer known util dots
  have hds : ∀ c ∈ ds, IsComponent c := by decide
  have hutil : ∀ c ∈ util, IsComponent c := by decide
  have hdots : ∀ c ∈ dots, IsComponent c := by decide
  have hbase : '/' ∉ "a.ts".toList := by decide
  refine ⟨by decide, ?_, ?_, ?_⟩
  · exact (resolve?_relative hds hutil (by decide) (by decide) (by decide) hbase 1 known
      (some .typescript)).2 (by decide) (by decide)
  · exact (resolve?_relative hds hutil (by decide) (by decide) (by decide) hbase 3 known
      (some .typescript)).1 (by decide)
  · exact (resolve?_relative hds hdots (by decide) (by decide) (by decide) hbase 2 known
      none).2 (by decide) (by decide)

end CodeAtlas.Import
