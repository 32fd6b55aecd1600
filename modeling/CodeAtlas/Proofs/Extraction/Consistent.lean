import CodeAtlas.Proofs.Bracket.Matching
import CodeAtlas.Proofs.Comment.Alignment
import CodeAtlas.Proofs.Extraction.Calls
import CodeAtlas.Proofs.Extraction.Lookups
import CodeAtlas.Proofs.Extraction.Members

set_option autoImplicit false

/-! # What is extracted refers to itself

Calls, parents and owners are recorded by identities and names. Whatever the text is, these are the
identities and names of definitions that are recorded too, or of the file. A scan keeps this with every
step (`Scan.Consistent.step`), and the bodies that calls are attributed to lie within the text.

No text makes a scanner fail (`Language.extract_consistent`). The bodies of containers need not have
anything in them (`Language.exists_empty_container`).
-/

namespace CodeAtlas

namespace Scan

/-- What is on record refers to definitions on record. -/
structure Consistent (s : Scan) : Prop where
  scope_lt : ∀ r ∈ s.scopes, r.first < r.last
  container : ∀ r ∈ s.containers, r.definition ∈ s.definitions ∧
    r.definition.label.isContainer = true ∧ r.definition.start ≤ r.first
  owner : ∀ x ∈ s.definitions, ∀ o, x.owner = some o → ∃ y ∈ s.definitions,
    y.id = o ∧ y.label.isContainer = true ∧ y.start < x.start
  heritage : ∀ h ∈ s.heritage, h.parent ≠ h.className ∧
    ∃ x ∈ s.definitions, x.id = h.classId ∧ x.name = h.className
  imports : ∀ i ∈ s.imports, i ≠ [] ∧ Text.trim i = i
  imports_nodup : s.imports.Nodup

theorem consistent_start (path code outline : Text) :
    Consistent { path := path, code := code, outline := outline } := by
  constructor <;> simp

namespace Consistent

variable {s : Scan}

theorem addImport (h : s.Consistent) (path : Text) : (s.addImport path).Consistent := by
  simp only [Scan.addImport]
  split
  · exact h
  · next hnew =>
    rw [Bool.or_eq_true, not_or, List.isEmpty_iff, List.contains_iff_mem] at hnew
    refine { h with imports := fun i hi => ?_, imports_nodup := ?_ }
    · rcases List.mem_append.mp hi with hi | hi
      · exact h.imports i hi
      · rw [List.mem_singleton.mp hi]
        exact ⟨hnew.1, Text.trim_trim path⟩
    · refine List.nodup_append.mpr ⟨h.imports_nodup, List.nodup_singleton _, fun i hi j hj heq => ?_⟩
      rw [heq, List.mem_singleton.mp hj] at hi
      exact hnew.2 hi

/-- The owner of a new definition is a container, and these are on record. -/
theorem owner_definitionOf (h : s.Consistent) (d : Sighting) {o : Text}
    (ho : (s.definitionOf d).owner = some o) : ∃ y ∈ s.definitions,
      y.id = o ∧ y.label.isContainer = true ∧ y.start < (s.definitionOf d).start := by
  obtain ⟨c, hc, rfl⟩ := Option.map_eq_some_iff.mp ho
  obtain ⟨hmem, hcontains, -⟩ := ownerOf_eq_some hc
  obtain ⟨hdefinition, hlabel, hstart⟩ := h.container c hmem
  exact ⟨c.definition, hdefinition, rfl, hlabel, hstart.trans_lt (Region.contains_iff.mp hcontains).1⟩

theorem define (h : s.Consistent) (d : Sighting) : (s.define d).1.Consistent := by
  by_cases hseen : (d.label, d.name, d.start) ∈ s.seen
  · rwa [define_of_seen hseen]
  · rw [define_of_not_seen hseen]
    refine { h with
      container := fun r hr => ?_
      owner := fun x hx o ho => ?_
      heritage := fun e he => ?_ }
    · obtain ⟨hmem, hrest⟩ := h.container r hr
      exact ⟨List.mem_append_left _ hmem, hrest⟩
    · have howner : ∃ y ∈ s.definitions, y.id = o ∧ y.label.isContainer = true ∧ y.start < x.start := by
        rcases List.mem_append.mp hx with hx | hx
        · exact h.owner x hx o ho
        · obtain rfl := List.mem_singleton.mp hx
          exact h.owner_definitionOf d ho
      obtain ⟨y, hy, hrest⟩ := howner
      exact ⟨y, List.mem_append_left _ hy, hrest⟩
    · obtain ⟨hne, x, hx, hrest⟩ := h.heritage e he
      exact ⟨hne, x, List.mem_append_left _ hx, hrest⟩

theorem addContainer (h : s.Consistent) {x : Definition} (hx : x ∈ s.definitions) {e : Extent}
    (hlabel : x.label.isContainer = true) (hstart : ∀ i ∈ e.first, x.start ≤ i) :
    (s.addContainer (some x) e).Consistent := by
  unfold Scan.addContainer
  split
  · next y i hy hi =>
    obtain rfl := Option.some_inj.mp hy
    refine { h with container := fun r hr => ?_ }
    rcases List.mem_append.mp hr with hr | hr
    · exact h.container r hr
    · obtain rfl := List.mem_singleton.mp hr
      exact ⟨hx, hlabel, hstart i hi⟩
  · exact h

theorem addScope (h : s.Consistent) (x : Option Definition) (e : Extent) :
    (s.addScope x e).Consistent := by
  unfold Scan.addScope
  split
  · split
    · next hlt =>
      refine { h with scope_lt := fun r hr => ?_ }
      rcases List.mem_append.mp hr with hr | hr
      · exact h.scope_lt r hr
      · rw [List.mem_singleton.mp hr]
        exact hlt
    · exact h
  · exact h

theorem addHeritage (h : s.Consistent) {x : Definition} (hx : x ∈ s.definitions) (clauses : List Text)
    (kind : HeritageKind) : (s.addHeritage (some x) clauses kind).Consistent := by
  refine { h with heritage := fun e he => ?_ }
  rcases List.mem_append.mp he with he | he
  · exact h.heritage e he
  · obtain ⟨clause, -, hclause⟩ := List.mem_filterMap.mp he
    split at hclause
    · rw [Option.ite_none_left_eq_some, Option.some_inj] at hclause
      obtain ⟨hne, rfl⟩ := hclause
      exact ⟨by simpa using hne, x, hx, rfl, rfl⟩
    · simp at hclause

/-- **Every step keeps the record consistent.** -/
theorem step {Body : Text → Extent → Prop} {s t : Scan} (hstep : Step Body s t) (h : s.Consistent) :
    t.Consistent := by
  cases hstep with
  | addImport path => exact h.addImport path
  | define hd => exact h.define _
  | addContainer hx e hlabel hstart => exact h.addContainer hx hlabel hstart
  | addScope hx he => exact h.addScope _ _
  | addHeritage hx clauses kind => exact h.addHeritage hx clauses kind

end Consistent

end Scan

/-! ## Bodies lie within the text -/

theorem Extent.IsBlock.bounds {t : Text} {i n : Nat} (h : Extent.IsBlock t ⟨some i, n⟩) :
    i ≤ n ∧ n < t.length ∧ (i = n → n + 1 = t.length) := by
  obtain ⟨hbrace, rfl⟩ := h.ends
  have hlt : i < t.length := (List.getElem?_eq_some_iff.mp hbrace).1
  rw [Bracket.braceEnd, Bracket.blockEnd_eq hbrace]
  cases hclosed : Bracket.closing? '\x7b' '\x7d' 1 (i + 1) (t.drop (i + 1)) with
  | none =>
      rw [Option.getD_none]
      omega
  | some e =>
      -- What closes the block stands behind its brace.
      have hbounds := Bracket.closing?_bounds hclosed
      rw [List.length_drop] at hbounds
      rw [Option.getD_some]
      omega

/-- A body that is not empty ends in the text. -/
theorem Extent.IsScriptBody.lt_length {t : Text} {i n : Nat} (h : Extent.IsScriptBody t ⟨some i, n⟩)
    (hlt : i < n) : n < t.length := by
  rcases h with hblock | hexpression
  · exact hblock.bounds.2.1
  · obtain ⟨-, rfl⟩ := hexpression.ends
    have hle := Bracket.expressionEnd_le_length t (i + 1)
    omega

/-! ## Calls -/

/-- A call has a name that is not excluded. It belongs to a definition of another name, or to no
body. -/
theorem Scan.of_mem_calls {s : Scan} {exclusions : List Text} {topLevel : Option Text} {c : Call}
    (h : c ∈ s.calls exclusions topLevel) :
    c.name ∉ exclusions ∧
      ((∃ r ∈ s.scopes, r.definition.id = c.source ∧ r.definition.name ≠ c.name) ∨
        topLevel = some c.source) := by
  obtain ⟨m, -, hm⟩ := List.mem_filterMap.mp h
  simp only [callAt, Option.ite_none_left_eq_some, Bool.or_eq_true, not_or,
    List.contains_iff_mem] at hm
  obtain ⟨⟨-, hname⟩, houtcome⟩ := hm
  split at houtcome
  · next r hr =>
    rw [Option.ite_none_left_eq_some, Option.some_inj, beq_iff_eq] at houtcome
    obtain ⟨hne, rfl⟩ := houtcome
    have hmem := List.mem_of_mem_filter (Region.innermost_eq_some hr).1
    exact ⟨hname, Or.inl ⟨r, hmem, rfl, Ne.symm hne⟩⟩
  · obtain ⟨id, hid, rfl⟩ := Option.map_eq_some_iff.mp houtcome
    exact ⟨hname, Or.inr hid⟩

/-! ## Both scanners -/

/-- What is extracted from a file in a language refers to what is extracted, or to the file. -/
structure Extraction.Consistent (l : Language) (path : Text) (e : Extraction) : Prop where
  call_name : ∀ c ∈ e.calls, c.name ∉ l.callExclusions
  call_source : ∀ c ∈ e.calls, (∃ d ∈ e.definitions, d.id = c.source ∧ d.name ≠ c.name) ∨
    (l ≠ .solidity ∧ c.source = Identity.ofFile path)
  heritage : ∀ h ∈ e.heritage, h.parent ≠ h.className ∧
    ∃ d ∈ e.definitions, d.id = h.classId ∧ d.name = h.className
  owner : ∀ d ∈ e.definitions, ∀ o, d.owner = some o → ∃ d' ∈ e.definitions,
    d'.id = o ∧ d'.label.isContainer = true ∧ d'.start < d.start
  imports : ∀ i ∈ e.imports, i ≠ [] ∧ Text.trim i = i
  imports_nodup : e.imports.Nodup
  sorted : e.definitions.Pairwise (·.start ≤ ·.start)

namespace Language

theorem consistent_scan (l : Language) (path source : Text) : (l.scan path source).Consistent :=
  (l.run_scan path source).invariant Scan.Consistent.step (Scan.consistent_start _ _ _)

theorem eq_of_topLevel {l : Language} {path id : Text} (h : l.topLevel path = some id) :
    l ≠ .solidity ∧ id = Identity.ofFile path := by
  cases l with
  | solidity => simp [topLevel] at h
  | javascript | typescript => exact ⟨by decide, (Option.some_inj.mp h).symm⟩

theorem lt_length_of_body {l : Language} {t : Text} {i n : Nat} (h : l.Body t ⟨some i, n⟩)
    (hlt : i < n) : n < t.length := by
  cases l with
  | solidity => exact Extent.IsBlock.bounds h |>.2.1
  | javascript | typescript => exact Extent.IsScriptBody.lt_length h hlt

/-- The text without comments and literals is as long as the text. -/
theorem length_outline (l : Language) (source : Text) :
    (l.commentStyle.outline source).length = source.length :=
  ((l.commentStyle.blanked_code source).trans (l.commentStyle.blanked_outline source)).length_eq

theorem mem_extract_iff (l : Language) (path source : Text) {d : Definition} :
    d ∈ (l.extract path source).definitions ↔ d ∈ (l.scan path source).definitions :=
  (l.definitions_extract_perm path source).mem_iff

theorem consistent_extract (l : Language) (path source : Text) :
    (l.extract path source).Consistent l path := by
  have hscan := l.consistent_scan path source
  have hscoped := l.scoped_scan path source
  have hmem := @mem_extract_iff l path source
  have hcalls : (l.extract path source).calls =
      (l.scan path source).calls l.callExclusions (l.topLevel path) := by
    rw [extract_eq]
    rfl
  constructor
  · intro c hc
    rw [hcalls] at hc
    exact (Scan.of_mem_calls hc).1
  · intro c hc
    rw [hcalls] at hc
    rcases (Scan.of_mem_calls hc).2 with ⟨r, hr, hid, hne⟩ | htop
    · exact Or.inl ⟨r.definition, hmem.mpr (hscoped.definition_mem r hr), hid, hne⟩
    · exact Or.inr (eq_of_topLevel htop)
  · intro h hh
    rw [extract_eq] at hh
    obtain ⟨hne, d, hd, hrest⟩ := hscan.heritage h hh
    exact ⟨hne, d, hmem.mpr hd, hrest⟩
  · intro d hd o ho
    obtain ⟨d', hd', hrest⟩ := hscan.owner d (hmem.mp hd) o ho
    exact ⟨d', hmem.mpr hd', hrest⟩
  · rw [extract_eq]
    exact hscan.imports
  · rw [extract_eq]
    exact hscan.imports_nodup
  · rw [extract_eq]
    exact pairwise_sortBy_start _

/-- **No text makes a scanner fail, and what is extracted refers to itself.** Whatever the text is, there
is a result if the path can be encoded. A body that calls are attributed to is that of an extracted
definition, lies within the text and is not empty. A container lies within the text too; it starts
before it ends, unless its brace is the last character. Calls, parents and owners refer to extracted
definitions, and calls in no body to the file; owners start before what they own. If the digest takes no
two of the keys to one value, no call has the name of any definition it refers to. -/
theorem extract_consistent (l : Language) (encodes : Text → Bool) (path source : Text) :
    l.extract? encodes path source = (if encodes path then some (l.extract path source) else none) ∧
    (∀ r ∈ (l.scan path source).scopes, r.definition ∈ (l.extract path source).definitions ∧
      r.first < r.last ∧ r.last < source.length) ∧
    (∀ r ∈ (l.scan path source).containers, r.definition ∈ (l.extract path source).definitions ∧
      r.first ≤ r.last ∧ r.last < source.length ∧ (r.first = r.last → r.last + 1 = source.length)) ∧
    (l.extract path source).Consistent l path ∧
    (Digest.NoCollision (l.scan path source).keys → ∀ c ∈ (l.extract path source).calls,
      ∀ d ∈ (l.extract path source).definitions, d.id = c.source → d.name ≠ c.name) := by
  have hscan := l.consistent_scan path source
  have hscoped := l.scoped_scan path source
  have hconsistent := l.consistent_extract path source
  refine ⟨l.extract?_eq encodes path source, fun r hr => ?_, fun r hr => ?_, hconsistent, ?_⟩
  · have hlt := hscan.scope_lt r hr
    refine ⟨(mem_extract_iff l path source).mpr (hscoped.definition_mem r hr), hlt, ?_⟩
    rw [← l.length_outline source]
    exact lt_length_of_body (hscoped.body r hr) hlt
  · have hblock := (l.extended_scan path source).block r hr
    rw [← l.length_outline source]
    exact ⟨(mem_extract_iff l path source).mpr (hscan.container r hr).1, hblock.bounds⟩
  · intro hkeys c hc d hd hid
    have hkeyed := l.keyed_scan path source
    have hperm := l.definitions_extract_perm path source
    have hdistinct := (hperm.map (·.id)).nodup_iff.mpr (hkeyed.distinct hkeys)
    rcases hconsistent.call_source c hc with ⟨d', hd', hid', hne⟩ | ⟨-, hfile⟩
    · rwa [List.inj_on_of_nodup_map hdistinct hd hd' (hid.trans hid'.symm)]
    · -- No definition has the identity of the file.
      obtain ⟨hlabel, q, hid', -⟩ := exists_key_of_mem hd
      exact absurd (hid'.symm.trans (hid.trans hfile)) (Identity.ofDefinition_ne_ofFile hlabel _ _ _ _)

/-- **A container can be empty**, if its brace is the last character. -/
theorem exists_empty_container :
    ∃ r ∈ (solidity.scan "a.sol".toList "contract A \x7b".toList).containers, ¬r.first < r.last := by
  decide +kernel

/-- A class that breaks off in a method, within the parentheses of a call. -/
def truncatedSource : Text :=
  "import \" b\"\nclass A extends A,B\x7b#f()\x7bf(g(".toList

theorem extract_consistent_truncated :
    let e := typescript.extract "a.ts".toList truncatedSource
    let s := typescript.scan "a.ts".toList truncatedSource
    typescript.extract? (fun _ => true) "a.ts".toList truncatedSource = some e ∧
    (∀ r ∈ s.scopes, r.definition ∈ e.definitions ∧ r.first < r.last ∧
      r.last < truncatedSource.length) ∧
    (∀ r ∈ s.containers, r.definition ∈ e.definitions ∧ r.first ≤ r.last ∧
      r.last < truncatedSource.length ∧ (r.first = r.last → r.last + 1 = truncatedSource.length)) ∧
    e.Consistent .typescript "a.ts".toList ∧
    (∀ c ∈ e.calls, ∀ d ∈ e.definitions, d.id = c.source → d.name ≠ c.name) ∧
    e.imports = ["b".toList] ∧ e.heritage.map (·.parent) = ["B".toList] ∧
    e.calls.map (·.name) = ["g".toList] ∧
    s.scopes.map (fun r => (r.definition.name, r.last)) =
      [("f".toList, truncatedSource.length - 1)] := by
  intro e s
  obtain ⟨htotal, hscopes, hcontainers, hconsistent, hnames⟩ :=
    extract_consistent typescript (fun _ => true) "a.ts".toList truncatedSource
  exact ⟨htotal, hscopes, hcontainers, hconsistent, hnames (by decide +kernel), by decide +kernel⟩

end Language

end CodeAtlas
