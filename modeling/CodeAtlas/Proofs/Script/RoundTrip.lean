import CodeAtlas.Proofs.Script.Matches

set_option autoImplicit false

/-! # Extracting a printed script gives back its functions

The sites of a file say where its functions are (`FunctionSite.stands`), and so which bodies and lines
the scanner computes at their heads. The invariant of the scan is `Recorded`: what is known once some of
the functions were passed. Each match adds one of them (`Recorded.exists_addFunction`), so after all
passes they are recorded and nothing else (`exists_recorded_scan`). The calls are read off the recorded
bodies (`Recorded.hasBodies`).

The round trip holds for files in which no called name hides a function (`extract_printFunctions`).
Without that it fails (`extract_hidden`).
-/

namespace CodeAtlas.Script

open Text (Stands)

/-! ## Sites -/

theorem count_printBody (f : FunctionDecl) :
    (f.printBody form).count '\n' = f.calls.length + 1 := by
  have hgap : form.gap.count '\n' = 1 := by decide
  have hmarks : (form.indent ++ form.finish).count '\n' = 1 := by decide
  rw [f.count_printBody, hgap, hmarks, Nat.mul_one, Nat.add_comm]

theorem pairwise_functionSites (fs : List FunctionDecl) : (functionSites fs).Pairwise
    fun q q' => q.start + (q.item.print form).length ≤ q'.start :=
  Site.pairwise_ofList _ _ _ _

theorem FunctionSite.stands {fs : List FunctionDecl} {q : FunctionSite} (h : q ∈ functionSites fs) :
    Stands (printSource fs) (q.item.print form) q.start q.line := by
  have hall : Stands (printSource fs) (printSource fs) 0 0 := by
    simpa using Text.stands_append [] (printSource fs) []
  exact Site.stands_of_mem hall h

/-! ## Views -/

/-- A file has no comments and no literals. -/
theorem not_isQuote_of_mem (fs : List FunctionDecl) :
    ∀ c ∈ printSource fs, ¬ CommentStyle.IsQuote c ∧ c ≠ '/' :=
  (Text.MadeOf.flatMap fun f _ => f.madeOf_print form).not_isQuote (by decide)

theorem code_printSource (fs : List FunctionDecl) :
    CommentStyle.script.code (printSource fs) = printSource fs :=
  CommentStyle.code_of_plain true (not_isQuote_of_mem fs)

theorem outline_printSource (fs : List FunctionDecl) :
    CommentStyle.script.outline (printSource fs) = printSource fs :=
  CommentStyle.outline_of_plain true (not_isQuote_of_mem fs)

/-! ## What is recorded -/

/-- The body of a function, which its calls are attributed to. -/
def FunctionSite.region (id : Nat → Text) (q : FunctionSite) : Region :=
  q.body form (q.definition id)

/-- What the scan sees at the head of a function. -/
def FunctionSite.sighting (q : FunctionSite) : Sighting where
  label := .function
  name := q.item.name.text
  start := q.start
  finish := some (q.bodyEnd form)
  isExported := false
  nameAt := some (q.start + 9 : Nat)

/-- The match at the head of a function is recorded as its definition, with its body. -/
theorem addFunction_eq {s : Scan} {id : Nat → Text} {q : FunctionSite} {m : Match}
    (hstands : Stands s.outline (q.item.print form) q.start q.line) (hm : q.IsMatch m)
    (hnew : (q.sighting.label, q.sighting.name, q.sighting.start) ∉ s.seen)
    (hdefinition : s.definitionOf q.sighting = q.definition id) :
    addFunction s m = { (s.define q.sighting).1 with scopes := s.scopes ++ [q.region id] } := by
  have hparen : Bracket.parenEnd s.outline (m.stop - 1) + 1 =
      q.start + q.item.name.text.length + 11 := by
    rw [hm.stop_eq]
    exact congrArg (· + 1) (Site.parenEnd_eq hstands)
  have hsighting : Sighting.mk .function (m.group 2) m.start (some (q.bodyEnd form)) (m.hasGroup 1)
      (some (m.groupStart 2)) = q.sighting := by
    rw [hm.name_eq, hm.start_eq, hm.nameAt_eq, hm.unexported]
    rfl
  unfold addFunction
  simp only [hparen, Site.bodyAfter_eq hstands, hsighting, Scan.define_of_not_seen hnew,
    hdefinition, Scan.addScope, if_pos (q.lt_bodyStart form).2.1]
  rfl

/-- What is known of a text once the functions `qs` were passed. -/
structure Recorded (path t : Text) (id : Nat → Text) (qs : List FunctionSite) (s : Scan) : Prop where
  path_eq : s.path = path
  outline_eq : s.outline = t
  imports_eq : s.imports = []
  definitions_eq : s.definitions = qs.map (·.definition id)
  heritage_eq : s.heritage = []
  containers_eq : s.containers = []
  scopes_eq : s.scopes = qs.map (·.region id)
  mem_seen : ∀ x ∈ s.seen, ∃ q ∈ qs, x = (.function, q.item.name.text, (q.start : Int))
  mem_nameOffsets : ∀ i : Int, i ∈ s.nameOffsets ↔ ∃ q ∈ qs, i = (q.start + 9 : Nat)

namespace Recorded

variable {path t : Text} {id : Nat → Text} {qs : List FunctionSite} {s : Scan}

theorem start (path t : Text) (id : Nat → Text) :
    Recorded path t id [] { path := path, code := t, outline := t } := by
  constructor <;> simp

/-- Only the identities of what is recorded matter. -/
theorem congr (h : Recorded path t id qs s) {id' : Nat → Text}
    (hqs : ∀ q ∈ qs, id' q.start = id q.start) : Recorded path t id' qs s := by
  have hfunction : ∀ q ∈ qs, q.definition id' = q.definition id := by
    intro q hq
    simp only [FunctionSite.definition, hqs q hq]
  refine { h with definitions_eq := ?_, scopes_eq := ?_ }
  · rw [h.definitions_eq, List.map_congr_left hfunction]
  · rw [h.scopes_eq]
    refine (List.map_congr_left fun q hq => ?_).symm
    simp only [FunctionSite.region, hfunction q hq]

/-- There is nothing that could own a function. -/
theorem ownerOf_eq_none (h : Recorded path t id qs s) (index : Int) : s.ownerOf index = none := by
  rw [Scan.ownerOf, h.containers_eq]
  rfl

theorem definitionOf_eq (h : Recorded path t id qs s) {q : FunctionSite}
    (hstands : Stands t (q.item.print form) q.start q.line) {id' : Nat → Text}
    (hid : id' q.start = (s.definitionOf q.sighting).id) :
    s.definitionOf q.sighting = q.definition id' := by
  rw [← h.outline_eq] at hstands
  have hfirst : s.lineOf q.sighting.start = q.line := hstands.lineOf_eq
  have hlast : s.lineOf (q.sighting.finish.getD q.sighting.start) =
      q.line + q.item.calls.length + 1 := by
    rw [Nat.add_assoc, ← count_printBody]
    exact Site.lineOf_bodyEnd hstands
  unfold FunctionSite.definition
  rw [hid, Scan.definitionOf, hfirst, hlast, h.ownerOf_eq_none]
  rfl

/-- **One more function.** -/
theorem exists_addFunction (h : Recorded path t id qs s) {q : FunctionSite}
    (hstands : Stands t (q.item.print form) q.start q.line)
    (hbefore : ∀ q' ∈ qs, q'.start + (q'.item.print form).length ≤ q.start) {m : Match}
    (hm : q.IsMatch m) : ∃ id', Recorded path t id' (qs ++ [q]) (addFunction s m) := by
  have hstart : ∀ q' ∈ qs, q'.start ≠ q.start := by
    intro q' hq'
    have hle := hbefore q' hq'
    have hbody := q'.lt_bodyStart form
    omega
  have hnew : (q.sighting.label, q.sighting.name, q.sighting.start) ∉ s.seen := by
    intro hseen
    obtain ⟨q', hq', heq⟩ := h.mem_seen _ hseen
    simp only [FunctionSite.sighting, Prod.mk.injEq, Nat.cast_inj] at heq
    exact hstart q' hq' heq.2.2.symm
  set id' := Function.update id q.start (s.definitionOf q.sighting).id
  have hdefinition : s.definitionOf q.sighting = q.definition id' :=
    h.definitionOf_eq hstands (Function.update_self _ _ _)
  have h : Recorded path t id' qs s :=
    h.congr fun q' hq' => Function.update_of_ne (hstart q' hq') _ _
  rw [← h.outline_eq] at hstands
  rw [addFunction_eq hstands hm hnew hdefinition, Scan.define_of_not_seen hnew, hdefinition]
  refine ⟨id', h.path_eq, h.outline_eq, h.imports_eq, ?_, h.heritage_eq, h.containers_eq, ?_, ?_, ?_⟩
  · simp [h.definitions_eq]
  · simp [h.scopes_eq]
  · intro x hx
    rcases List.mem_cons.mp hx with rfl | hx
    · exact ⟨q, by simp, rfl⟩
    · obtain ⟨q', hq', hx⟩ := h.mem_seen x hx
      exact ⟨q', by simp [hq'], hx⟩
  · intro i
    simp [h.mem_nameOffsets, FunctionSite.sighting, or_comm]

end Recorded

/-- **The scan of a printed file** records its functions, and nothing else. -/
theorem exists_recorded_scan (path : Text) {fs : List FunctionDecl}
    (hfs : ∀ f ∈ fs, ∀ g ∈ f.calls, hidesFunction g.text = false) :
    ∃ id, Recorded path (printSource fs) id (functionSites fs)
      (scan path (printSource fs) (printSource fs)) := by
  have himport := findAll_printSource_eq_nil headedBy_importDeclaration (by decide) fs
  have hreExport := findAll_printSource_eq_nil headedBy_reExport (by decide) fs
  have hrequire := findAll_printSource_eq_nil
    (headedBy_loadCall (w := "require".toList) (by decide)) (by decide) fs
  have hload := findAll_printSource_eq_nil
    (headedBy_loadCall (w := "import".toList) (by decide)) (by decide) fs
  have hmodule := findAll_printSource_eq_nil headedBy_moduleHead (by decide) fs
  have hclass := findAll_printSource_eq_nil headedBy_classHead (by decide) fs
  have hinterface := findAll_printSource_eq_nil headedBy_interfaceHead (by decide) fs
  have henum := findAll_printSource_eq_nil headedBy_enumHead (by decide) fs
  have hvariable := findAll_printSource_eq_nil headedBy_variableFunction (by decide) fs
  have hfunctions := foldl_of_forall₂
    (P := fun qs s => ∃ id, Recorded path (printSource fs) id qs s) (forall₂_functionHead hfs)
    (pairwise_functionSites fs)
    (fun _ _ _ _ hq _ hbefore hm ⟨_, h⟩ => h.exists_addFunction (FunctionSite.stands hq) hbefore hm)
    ⟨fun _ => [], Recorded.start path (printSource fs) _⟩
  unfold scan
  simp only [importForms, List.foldl_cons, List.foldl_nil, himport, hreExport, hrequire, hload, hmodule,
    hclass, hinterface, henum, hvariable]
  exact hfunctions

/-! ## Calls -/

namespace Recorded

variable {path : Text} {fs : List FunctionDecl} {id : Nat → Text} {s : Scan}
  (h : Recorded path (printSource fs) id (functionSites fs) s)
include h

/-- The calls can be read off the recorded bodies. -/
theorem hasBodies :
    s.HasBodies form (fun q => q) (FunctionSite.definition id) (functionSites fs) where
  scopes_eq := h.scopes_eq
  name_eq _ _ := rfl
  apart := (pairwise_functionSites fs).imp fun {q q'} hle => by
    have hbody := q.lt_bodyStart form
    have hbody' := q'.lt_bodyStart form
    omega
  mem_nameOffsets q hq := (h.mem_nameOffsets _).mpr ⟨q, hq, rfl⟩
  notMem_nameOffsets q hq i hfirst hlast := by
    -- The names of functions stand in front of all bodies, so no call is taken for one.
    rw [h.mem_nameOffsets]
    rintro ⟨q', hq', heq⟩
    have hbody := q.lt_bodyStart form
    have hbody' := q'.lt_bodyStart form
    rcases eq_or_rel_of_pairwise (pairwise_functionSites fs) hq hq' with rfl | hle | hle
    · omega
    · omega
    · omega

/-- **The calls of a printed file** are those of its functions, in order. -/
theorem calls_eq (topLevel : Option Text) : s.calls (Language.callExclusions .javascript) topLevel =
    (functionSites fs).flatMap fun q => q.item.callsFrom (id q.start) := by
  have hfound := forall₂_callSite fs
  rw [← h.outline_eq] at hfound
  exact h.hasBodies.calls_eq hfound topLevel

end Recorded

/-! ## The round trip -/

/-- The definitions of a file come in text order. -/
theorem pairwise_definitions (id : Nat → Text) (fs : List FunctionDecl) :
    ((functionSites fs).map (·.definition id)).Pairwise fun a b => a.start < b.start := by
  refine List.pairwise_map.mpr ((pairwise_functionSites fs).imp fun {q q'} hle => ?_)
  have hbody := q.lt_bodyStart form
  show (q.start : Int) < q'.start
  omega

/-- **A printed script is extracted as it was written**, provided that no called name starts with the
keyword of functions and goes on like a name. There is one function for each that was printed, in order,
on its lines and without an owner, the calls are those that were printed, each attributed to its
function, and there is nothing else. The identities are distinct if no two of the keys that were
generated have one digest. -/
theorem extract_printFunctions (l : Language) (hl : l ≠ .solidity) (path : Text)
    (fs : List FunctionDecl) (hfs : ∀ f ∈ fs, ∀ g ∈ f.calls, hidesFunction g.text = false) :
    ∃ id : Nat → Text, extract l path (printSource fs) = described l path id fs ∧
      (Digest.NoCollision (l.scan path (printSource fs)).keys →
        ((described l path id fs).definitions.map (·.id)).Nodup) := by
  obtain ⟨id, h⟩ := exists_recorded_scan path hfs
  have hexclusions : Language.callExclusions l = Language.callExclusions .javascript := by
    cases l with
    | solidity => exact absurd rfl hl
    | javascript => rfl
    | typescript => rfl
  have hextract : extract l path (printSource fs) = described l path id fs := by
    rw [extract, code_printSource, outline_printSource, Scan.result, hexclusions, h.calls_eq,
      h.definitions_eq, sortBy_start_eq (List.Perm.refl _) (pairwise_definitions id fs), h.path_eq,
      h.imports_eq, h.heritage_eq]
    rfl
  have hsame : l.extract path (printSource fs) = described l path id fs := by
    cases l with
    | solidity => exact absurd rfl hl
    | javascript => exact hextract
    | typescript => exact hextract
  refine ⟨id, hextract, fun hkeys => ?_⟩
  have hperm := l.definitions_extract_perm path (printSource fs)
  rw [hsame] at hperm
  exact (hperm.map _).nodup_iff.mpr ((l.keyed_scan path _).distinct hkeys)

/-- Two functions of one name, one of which calls itself, and a called name that goes on with a digit
after the keyword. -/
def similarFunctions : List FunctionDecl :=
  let classy : Name := ⟨"classy".toList, by decide, by decide, by decide⟩
  let function1 : Name := ⟨"function1".toList, by decide, by decide, by decide⟩
  [⟨classy, [function1, classy]⟩, ⟨function1, []⟩, ⟨classy, [function1]⟩]

theorem extract_printFunctions_similar :
    (∀ f ∈ similarFunctions, ∀ g ∈ f.calls, hidesFunction g.text = false) ∧
      Digest.NoCollision (Language.typescript.scan "a.ts".toList (printSource similarFunctions)).keys ∧
      ∃ id : Nat → Text,
        extract .typescript "a.ts".toList (printSource similarFunctions) =
          described .typescript "a.ts".toList id similarFunctions ∧
        ((described .typescript "a.ts".toList id similarFunctions).definitions.map (·.id)).Nodup := by
  have hfs : ∀ f ∈ similarFunctions, ∀ g ∈ f.calls, hidesFunction g.text = false := by
    decide
  have hkeys : Digest.NoCollision
      (Language.typescript.scan "a.ts".toList (printSource similarFunctions)).keys := by
    decide +kernel
  obtain ⟨id, hextract, hdistinct⟩ :=
    extract_printFunctions .typescript (by decide) "a.ts".toList similarFunctions hfs
  exact ⟨hfs, hkeys, id, hextract, hdistinct hkeys⟩

/-- A function that calls a name that hides another one. -/
def hiddenFunction : List FunctionDecl :=
  [⟨⟨"f".toList, by decide, by decide, by decide⟩,
    [⟨"functionfoo".toList, by decide, by decide, by decide⟩]⟩]

/-- The call reads as the declaration of a function `foo`. -/
theorem extract_hidden :
    ¬ ∃ id : Nat → Text, extract .javascript "a.js".toList (printSource hiddenFunction) =
      described .javascript "a.js".toList id hiddenFunction := by
  rintro ⟨id, hextract⟩
  have hnames : (extract .javascript "a.js".toList (printSource hiddenFunction)).definitions.map
      (·.name) = ["f".toList, "foo".toList] := by
    decide +kernel
  rw [hextract] at hnames
  exact absurd hnames (by simp [described, hiddenFunction, functionSites, Site.ofList])

end CodeAtlas.Script
