import CodeAtlas.Proofs.Comment.Below
import CodeAtlas.Proofs.Extraction.Consistent
import CodeAtlas.Proofs.Script.Moved
import CodeAtlas.Proofs.Solidity.Moved

set_option autoImplicit false

/-! # Empty lines above a file

What is extracted from a text with empty lines above it is what is extracted from the text, moved down
(`Language.below_extract`). The records of the two scans are related by `Scan.Moved`; sorting the
definitions keeps those at the same place together (`twins_sortBy`), so the relation carries over to the
result. A text of empty lines only is a case of its own: nothing is found in it.

The identities are the same where they tell no line, and these are the identities of the first definitions
of their label, name and owner name.
-/

namespace CodeAtlas

open Text

variable {k : Nat}

/-! ## Sorting -/

section Definitions

variable {ds ds' : List Definition}

/-- In the text that is moved down the definitions stand in the same order. -/
theorem le_start_below {x x' y y' : Definition} (hx : x.Below k x') (hy : y.Below k y') :
    decide (x'.start ≤ y'.start) = decide (x.start ≤ y.start) := by
  rw [hx.start, hy.start]
  exact decide_eq_decide.mpr (add_le_add_iff_right _)

theorem below_sortBy (h : List.Forall₂ (Definition.Below k) ds ds') :
    List.Forall₂ (Definition.Below k) (sortBy (fun x y => x.start ≤ y.start) ds)
      (sortBy (fun x y => x.start ≤ y.start) ds') :=
  (forall₂_sortBy (R := Definition.Below k) (fun _ _ _ _ => le_start_below) h).1

/-- **Sorting keeps definitions at the same place together.** -/
theorem twins_sortBy (h : List.Forall₂ (Definition.Below k) ds ds') (x x' : Definition) :
    Twins (sortBy (fun x y => x.start ≤ y.start) ds) (sortBy (fun x y => x.start ≤ y.start) ds') x x' ↔
      Twins ds ds' x x' :=
  (forall₂_sortBy (R := Definition.Below k) (fun _ _ _ _ => le_start_below) h).2.mem_iff

theorem corresponds_sortBy (h : List.Forall₂ (Definition.Below k) ds ds') {id id' : Text}
    (hids : Corresponds ds ds' id id') :
    Corresponds (sortBy (fun x y => x.start ≤ y.start) ds) (sortBy (fun x y => x.start ≤ y.start) ds')
      id id' := by
  obtain ⟨x, x', htwins, hid, hid'⟩ := hids
  exact ⟨x, x', (twins_sortBy h x x').mpr htwins, hid, hid'⟩

end Definitions

/-! ## Extractions that are moved down -/

/-- The extraction is the same, `k` lines further down. Identities are told by the place of their definition
in the list. -/
structure Extraction.Below (k : Nat) (topLevel : Option Text) (e e' : Extraction) : Prop where
  path : e'.path = e.path
  language : e'.language = e.language
  imports : e'.imports = e.imports
  definitions : List.Forall₂ (Definition.Below k) e.definitions e'.definitions
  owners : ∀ x x', Twins e.definitions e'.definitions x x' →
    Option.Rel (Corresponds e.definitions e'.definitions) x.owner x'.owner
  calls : List.Forall₂ (Call.Matches topLevel e.definitions e'.definitions) e.calls e'.calls
  heritage : List.Forall₂ (Heritage.Matches e.definitions e'.definitions) e.heritage e'.heritage

theorem Scan.Moved.result {s s' : Scan} (h : s.Moved k s') (language : Option Language)
    (exclusions : List Text) (topLevel : Option Text) :
    (s.result language (s.calls exclusions topLevel)).Below k topLevel
      (s'.result language (s'.calls exclusions topLevel)) := by
  have hsort : ∀ {id id' : Text}, Corresponds s.definitions s'.definitions id id' → _ :=
    fun hids => corresponds_sortBy h.definitions hids
  refine ⟨h.path, rfl, h.imports, below_sortBy h.definitions, ?_, ?_, ?_⟩
  · intro x x' hx
    have htwins := (twins_sortBy h.definitions x x').mp hx
    exact rel_imp (h.owners x x' htwins) fun _ _ hids => hsort hids
  · exact (h.calls exclusions topLevel).imp fun _ _ hcall =>
      ⟨hcall.name, hcall.source.imp_left fun hids => hsort hids⟩
  · exact h.heritage.imp fun _ _ hparent => { hparent with classId := hsort hparent.classId }

/-! ## Texts of empty lines -/

theorem Pattern.findAll_blank {p : Pattern} (hp : p.movesDown = true) (k : Nat) :
    p.findAll (below k []) = [] :=
  findAll_below hp k []

theorem Solidity.scan_blank (path : Text) (k : Nat) :
    scan path (below k []) (below k []) = { path := path, code := below k [], outline := below k [] } := by
  simp only [scan, Pattern.findAll_blank (p := importStatement) rfl,
    Pattern.findAll_blank (p := container) rfl,
    Pattern.findAll_blank (p := structOrEnum) rfl, Pattern.findAll_blank (p := eventOrError) rfl,
    Pattern.findAll_blank (p := modifier) rfl, Pattern.findAll_blank (p := function) rfl,
    Pattern.findAll_blank (p := constructor) rfl, Pattern.findAll_blank (p := special) rfl, List.foldl_nil]

theorem Script.scan_blank (path : Text) (k : Nat) :
    scan path (below k []) (below k []) = { path := path, code := below k [], outline := below k [] } := by
  have himports : ∀ forms : List Pattern, (∀ p ∈ forms, p.movesDown = true) → ∀ s : Scan,
      forms.foldl (fun s p =>
        (p.findAll (below k [])).foldl (fun s m => s.addImport (m.group 1)) s) s = s := by
    intro forms hforms s
    induction forms with
    | nil => rfl
    | cons p forms ih =>
        rw [List.foldl_cons, Pattern.findAll_blank (hforms p List.mem_cons_self)]
        exact ih fun q hq => hforms q (List.mem_cons_of_mem p hq)
  simp only [scan, himports importForms (by decide), Pattern.findAll_blank (p := moduleHead) rfl,
    Pattern.findAll_blank (p := classHead) rfl, Pattern.findAll_blank (p := interfaceHead) rfl,
    Pattern.findAll_blank (p := enumHead) rfl, Pattern.findAll_blank (p := functionHead) rfl,
    Pattern.findAll_blank (p := variableFunction) rfl, List.foldl_nil]

namespace Language

theorem commentStyle_eq_family (l : Language) : ∃ regex, l.commentStyle = CommentStyle.family regex := by
  cases l with
  | solidity => exact ⟨false, rfl⟩
  | javascript | typescript => exact ⟨true, rfl⟩

theorem code_below (l : Language) (k : Nat) (source : Text) :
    l.commentStyle.code (below k source) = below k (l.commentStyle.code source) := by
  obtain ⟨regex, hstyle⟩ := l.commentStyle_eq_family
  rw [hstyle]
  exact CommentStyle.code_below regex k source

theorem outline_below (l : Language) (k : Nat) (source : Text) :
    l.commentStyle.outline (below k source) = below k (l.commentStyle.outline source) := by
  obtain ⟨regex, hstyle⟩ := l.commentStyle_eq_family
  rw [hstyle]
  exact CommentStyle.outline_below regex k source

/-- **A file of empty lines yields nothing but itself.** -/
theorem extract_blank (l : Language) (path : Text) (k : Nat) :
    l.extract path (below k []) = { path := path, language := some l } := by
  have hcode : l.commentStyle.code (below k []) = below k [] := l.code_below k []
  have houtline : l.commentStyle.outline (below k []) = below k [] := l.outline_below k []
  have hscan : l.scan path (below k []) =
      { path := path, code := below k [], outline := below k [] } := by
    cases l with
    | solidity =>
        rw [scan, hcode, houtline]
        exact Solidity.scan_blank path k
    | javascript | typescript =>
        rw [scan, hcode, houtline]
        exact Script.scan_blank path k
  have hcalls : (l.scan path (below k [])).calls l.callExclusions (l.topLevel path) = [] := by
    rw [hscan, Scan.calls, Pattern.findAll_blank rfl, List.filterMap_nil]
  rw [extract_eq, hcalls, hscan]
  rfl

theorem moved_scan (l : Language) (path : Text) {source : Text} (htext : source ≠ []) (k : Nat) :
    (l.scan path source).Moved k (l.scan path (below k source)) := by
  have houtline : l.commentStyle.outline source ≠ [] := by
    intro hnil
    have hlength := l.length_outline source
    rw [hnil] at hlength
    exact htext (List.eq_nil_of_length_eq_zero hlength.symm)
  have hcode := l.code_below k source
  have hbelow := l.outline_below k source
  cases l with
  | solidity =>
      rw [scan, scan, hcode, hbelow]
      exact Solidity.moved_scan path _ houtline
  | javascript | typescript =>
      rw [scan, scan, hcode, hbelow]
      exact Script.moved_scan path _ houtline

/-- **What is extracted is moved down with the text**, whatever the digest. -/
theorem below_extract (l : Language) (path source : Text) (k : Nat) :
    (l.extract path source).Below k (l.topLevel path) (l.extract path (below k source)) := by
  by_cases htext : source = []
  · have hnothing := l.extract_blank path 0
    rw [htext, l.extract_blank path k]
    rw [show below 0 [] = [] from rfl] at hnothing
    rw [hnothing]
    exact ⟨rfl, rfl, rfl, .nil, fun _ _ hx => absurd hx List.not_mem_nil, .nil, .nil⟩
  · rw [extract_eq, extract_eq]
    exact (l.moved_scan path htext k).result _ _ _

theorem ne_nil_of_twins {l : Language} {path source : Text} {x x' : Definition}
    (hx : Twins (l.extract path source).definitions (l.extract path (below k source)).definitions x x') :
    source ≠ [] := by
  rintro rfl
  have hnothing := hx.mem_left
  rw [show ([] : Text) = below 0 [] from rfl, l.extract_blank path 0] at hnothing
  exact absurd hnothing List.not_mem_nil

theorem twins_extract {l : Language} {path source : Text} (htext : source ≠ []) {x x' : Definition} :
    Twins (l.extract path source).definitions (l.extract path (below k source)).definitions x x' ↔
      Twins (l.scan path source).definitions (l.scan path (below k source)).definitions x x' := by
  rw [extract_eq, extract_eq]
  exact twins_sortBy (l.moved_scan path htext k).definitions x x'

/-- **Extraction follows a text that is moved down.** With `k` empty lines above a text the same is
extracted, `k` lines further down: the imports, the definitions with their owners, the calls and the parents.
If the digest does not collide on the keys of the two scans, the definitions whose identity tells no line are
the first of their label, name and owner name, and they keep their identity. -/
theorem extract_equivariant (l : Language) (path source : Text) (k : Nat)
    (h : Digest.NoCollision ((l.scan path source).keys ++ (l.scan path (below k source)).keys)) :
    (l.extract path source).Below k (l.topLevel path) (l.extract path (below k source)) ∧
      ∀ x x', Twins (l.extract path source).definitions (l.extract path (below k source)).definitions x x' →
        (IsFirstAlike (l.scan path source).definitions x ↔ x.id = Identity.ofDefinition x.label path x.name
          (some (ownerName (l.scan path source).definitions x))) ∧
        (IsFirstAlike (l.scan path source).definitions x → x'.id = x.id) := by
  refine ⟨l.below_extract path source k, fun x x' hx => ?_⟩
  have htext := ne_nil_of_twins hx
  have hmoved := l.moved_scan path htext k
  have htwins := (twins_extract htext).mp hx
  obtain ⟨st, hst, hst'⟩ := hmoved.stamps h x x' htwins
  have hkeys : Digest.NoCollision (l.scan path source).keys := h.mono (List.subset_append_left _ _)
  have hregistered := l.registered_scan path source
  have hfirst := hregistered.isFirstAlike_iff_plain hkeys htwins.mem_left hst
  have hplain := hregistered.id_eq_iff_plain hkeys htwins.mem_left hst
  rw [path_scan] at hplain
  refine ⟨hfirst.trans hplain.symm, fun hx => ?_⟩
  have hsame : st.down k = st := Stamp.down_of_plain (hfirst.mp hx) k
  rw [hst'.id, hst.id, hsame, path_scan, path_scan]

/-- Two functions of one name; the second one is told apart by its line. -/
def overloadedSource : Text := "library L\x7bfunction f()\x7bg();\x7dfunction f()\x7b\x7d\x7d".toList

theorem extract_equivariant_overloads :
    let lib := solidity.extract "a.sol".toList overloadedSource
    let moved := solidity.extract "a.sol".toList (below 2 overloadedSource)
    Digest.NoCollision ((solidity.scan "a.sol".toList overloadedSource).keys ++
        (solidity.scan "a.sol".toList (below 2 overloadedSource)).keys) ∧
      lib.definitions.map (fun x => (x.name, x.startLine)) =
        [("L".toList, 0), ("f".toList, 0), ("f".toList, 0)] ∧
      lib.Below 2 none moved ∧
      ∀ x x', Twins lib.definitions moved.definitions x x' →
        IsFirstAlike (solidity.scan "a.sol".toList overloadedSource).definitions x → x'.id = x.id := by
  intro lib moved
  have hkeys : Digest.NoCollision ((solidity.scan "a.sol".toList overloadedSource).keys ++
      (solidity.scan "a.sol".toList (below 2 overloadedSource)).keys) := by
    decide +kernel
  have hlines : lib.definitions.map (fun x => (x.name, x.startLine)) =
      [("L".toList, 0), ("f".toList, 0), ("f".toList, 0)] := by
    decide +kernel
  have hmoved := extract_equivariant solidity "a.sol".toList overloadedSource 2 hkeys
  exact ⟨hkeys, hlines, hmoved.1, fun x x' hx => (hmoved.2 x x' hx).2⟩

end Language

end CodeAtlas
