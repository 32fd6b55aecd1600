import CodeAtlas.Extraction.File
import CodeAtlas.Proofs.Identity
import CodeAtlas.Proofs.Pattern.Fits
import Mathlib.Logic.Relation
import Mathlib.Tactic

set_option autoImplicit false

/-! # A scan as a run of steps

The passes over a file are some twenty functions, one for each construct of a language, but each of
them does to the record of the scan only what the five operations of `Scan` do. `Scan.Step` lists
these operations with what the passes guarantee of their arguments: a definition has a name made of
name characters and is no file, only definitions that were recorded get bodies and parents, and a
container is of a kind that can own and opens behind its start.
`Scan.Run` is a sequence of steps.

Both scanners are runs (`Solidity.run_scan`, `Script.run_scan`), so an invariant of a scan is proved
by looking at five steps, not at twenty passes (`Scan.Run.invariant`). The scanners differ in the
bodies that calls are attributed to: in Solidity these are blocks in braces, in scripts also
expressions after an arrow. A run is therefore taken over a predicate on bodies.
-/

namespace CodeAtlas

/-! ## Bodies -/

namespace Extent

/-- A body in braces, from a brace to the one that closes it. -/
def IsBlock (outline : Text) (e : Extent) : Prop :=
  ∀ i, e.first = some i → outline[i]? = some '\x7b' ∧ e.last = Bracket.braceEnd outline i

/-- A body that is an expression and opens right before it, not at a brace. -/
def IsExpression (outline : Text) (e : Extent) : Prop :=
  ∀ i, e.first = some i →
    outline[i]? ≠ some '\x7b' ∧ e.last = Bracket.expressionEnd outline (i + 1)

/-- A body of a function in a script. -/
def IsScriptBody (outline : Text) (e : Extent) : Prop :=
  e.IsBlock outline ∨ e.IsExpression outline

theorem isBlock_of_first_eq_none {outline : Text} {e : Extent} (h : e.first = none) :
    e.IsBlock outline := by
  intro i hi
  rw [h] at hi
  contradiction

end Extent

theorem bodyMark?_eq_some {i j : Nat} {t : Text} {c : Char} (h : bodyMark? i t = some (c, j)) :
    (c = '\x7b' ∨ c = ';') ∧ ∃ n, j = i + n ∧ t[n]? = some c := by
  induction t generalizing i with
  | nil => simp [bodyMark?] at h
  | cons d t ih =>
      by_cases hd : (d == '\x7b' || d == ';') = true
      · rw [bodyMark?, if_pos hd, Option.some_inj, Prod.mk.injEq] at h
        obtain ⟨rfl, rfl⟩ := h
        exact ⟨by simpa using hd, 0, rfl, rfl⟩
      · rw [bodyMark?, if_neg hd] at h
        obtain ⟨hc, n, rfl, hn⟩ := ih h
        exact ⟨hc, n + 1, by omega, by simpa using hn⟩

/-- The body found after a head is a block. -/
theorem bodyAfter_isBlock (outline : Text) (index : Nat) :
    (bodyAfter outline index).IsBlock outline := by
  unfold bodyAfter
  split
  · exact Extent.isBlock_of_first_eq_none rfl
  · next c j hmark =>
    obtain ⟨hc, n, rfl, hn⟩ := bodyMark?_eq_some hmark
    rw [List.getElem?_drop] at hn
    split
    · exact Extent.isBlock_of_first_eq_none rfl
    · -- The mark is no semicolon, so it is a brace.
      next hsemi =>
      intro i hi
      obtain rfl := Option.some_inj.mp hi
      obtain rfl | rfl := hc
      · exact ⟨hn, rfl⟩
      · simp at hsemi

/-! ## Regions -/

namespace Region

theorem innermost_eq_none_iff {rs : List Region} : innermost rs = none ↔ rs = [] := by
  cases rs with
  | nil => simp [innermost]
  | cons r rs =>
      simp only [innermost, reduceCtorEq, iff_false]
      split
      · simp
      · split <;> simp

/-- The innermost region is one of the given and none of them opens after it. -/
theorem innermost_eq_some {rs : List Region} {r : Region} (h : innermost rs = some r) :
    r ∈ rs ∧ ∀ r' ∈ rs, r'.first ≤ r.first := by
  induction rs generalizing r with
  | nil => simp [innermost] at h
  | cons a rs ih =>
      rw [innermost] at h
      split at h
      · next hnone =>
        obtain rfl := Option.some_inj.mp h
        rw [innermost_eq_none_iff.mp hnone]
        simp
      · next b hb =>
        -- The later of the head and of the innermost of the others.
        obtain ⟨hmem, hlatest⟩ := ih hb
        split at h
        · next hlt =>
          obtain rfl := Option.some_inj.mp h
          exact ⟨List.mem_cons_of_mem a hmem, List.forall_mem_cons.mpr ⟨by omega, hlatest⟩⟩
        · next hle =>
          obtain rfl := Option.some_inj.mp h
          refine ⟨List.mem_cons_self, List.forall_mem_cons.mpr ⟨Nat.le_refl _, fun r' hr' => ?_⟩⟩
          have := hlatest r' hr'
          omega

end Region

/-! ## Definitions -/

/-- What every pass knows of a definition. -/
structure Sighting.IsNamed (d : Sighting) : Prop where
  label_ne_file : d.label ≠ .file
  isName : IsName d.name

namespace Scan

/-- The definition that a sighting is recorded as. -/
def definitionOf (s : Scan) (d : Sighting) : Definition :=
  { id := (s.freshId d ((s.ownerOf d.start).map (·.definition.name))).1
    label := d.label
    name := d.name
    startLine := s.lineOf d.start
    endLine := s.lineOf (d.finish.getD d.start)
    isExported := d.isExported
    start := d.start
    owner := (s.ownerOf d.start).map (·.definition.id) }

theorem define_of_seen {s : Scan} {d : Sighting} (h : (d.label, d.name, d.start) ∈ s.seen) :
    s.define d = (s, none) := by
  unfold define
  rw [if_pos (by simpa using h)]

theorem define_of_not_seen {s : Scan} {d : Sighting} (h : (d.label, d.name, d.start) ∉ s.seen) :
    s.define d =
      ({ s with
          seen := (d.label, d.name, d.start) :: s.seen
          nameOffsets := d.nameAt.toList ++ s.nameOffsets
          keys := (s.freshId d ((s.ownerOf d.start).map (·.definition.name))).2 ++ s.keys
          ids := (s.definitionOf d).id :: s.ids
          definitions := s.definitions ++ [s.definitionOf d] }, some (s.definitionOf d)) := by
  unfold define
  rw [if_neg (by simpa using h)]
  rfl

theorem mem_definitions_of_define {s : Scan} {d : Sighting} {x : Definition}
    (h : x ∈ (s.define d).2) : x ∈ (s.define d).1.definitions := by
  by_cases hseen : (d.label, d.name, d.start) ∈ s.seen
  · rw [define_of_seen hseen] at h
    simp at h
  · rw [define_of_not_seen hseen] at h ⊢
    obtain rfl := Option.some_inj.mp h
    simp

theorem eq_definitionOf_of_define {s : Scan} {d : Sighting} {x : Definition}
    (h : x ∈ (s.define d).2) : x = s.definitionOf d := by
  by_cases hseen : (d.label, d.name, d.start) ∈ s.seen
  · rw [define_of_seen hseen] at h
    simp at h
  · rw [define_of_not_seen hseen] at h
    exact (Option.some_inj.mp h).symm

/-! ## What an operation leaves alone -/

@[simp] theorem define_outline (s : Scan) (d : Sighting) : (s.define d).1.outline = s.outline := by
  unfold define
  split <;> rfl

@[simp] theorem addContainer_definitions (s : Scan) (x : Option Definition) (e : Extent) :
    (s.addContainer x e).definitions = s.definitions := by
  unfold addContainer
  split <;> rfl

@[simp] theorem addHeritage_definitions (s : Scan) (x : Option Definition) (clauses : List Text)
    (kind : HeritageKind) : (s.addHeritage x clauses kind).definitions = s.definitions := by
  unfold addHeritage
  split <;> rfl

/-! ## Steps and runs -/

/-- One operation on the record of a scan. -/
inductive Step (Body : Text → Extent → Prop) : Scan → Scan → Prop where
  | addImport (s : Scan) (path : Text) : Step Body s (s.addImport path)
  | define (s : Scan) {d : Sighting} (hd : d.IsNamed) : Step Body s (s.define d).1
  | addContainer (s : Scan) {x : Definition} (hx : x ∈ s.definitions) (e : Extent)
      (hlabel : x.label.isContainer = true) (hstart : ∀ i ∈ e.first, x.start ≤ i) :
      Step Body s (s.addContainer (some x) e)
  | addScope (s : Scan) {x : Definition} (hx : x ∈ s.definitions) {e : Extent}
      (he : Body s.outline e) : Step Body s (s.addScope (some x) e)
  | addHeritage (s : Scan) {x : Definition} (hx : x ∈ s.definitions) (clauses : List Text)
      (kind : HeritageKind) : Step Body s (s.addHeritage (some x) clauses kind)

/-- No operation changes the path. -/
theorem Step.path_eq {Body : Text → Extent → Prop} {s t : Scan} (h : Step Body s t) :
    t.path = s.path := by
  cases h with
  | addImport path =>
      simp only [Scan.addImport]
      split <;> rfl
  | define hd =>
      unfold Scan.define
      split <;> rfl
  | addContainer hx e =>
      unfold Scan.addContainer
      split <;> rfl
  | addScope hx he =>
      unfold Scan.addScope
      split
      · split <;> rfl
      · rfl
  | addHeritage hx clauses kind => rfl

/-- Any number of operations. -/
def Run (Body : Text → Extent → Prop) : Scan → Scan → Prop := Relation.ReflTransGen (Step Body)

namespace Run

variable {Body : Text → Extent → Prop} {s t u : Scan}

theorem refl (s : Scan) : Run Body s s := Relation.ReflTransGen.refl

theorem single (h : Step Body s t) : Run Body s t := Relation.ReflTransGen.single h

theorem trans (hst : Run Body s t) (htu : Run Body t u) : Run Body s u :=
  Relation.ReflTransGen.trans hst htu

/-- What every step keeps, a run keeps. -/
theorem invariant {P : Scan → Prop} (hstep : ∀ {s t : Scan}, Step Body s t → P s → P t)
    (h : Run Body s t) (hs : P s) : P t := by
  induction h with
  | refl => exact hs
  | tail _ hlast ih => exact hstep hlast ih

/-- A pass takes one match after another. -/
theorem foldl {α : Type} {f : Scan → α → Scan} {l : List α} (hst : Run Body s t)
    (h : ∀ a ∈ l, ∀ u, Run Body u (f u a)) : Run Body s (l.foldl f t) := by
  induction l generalizing t with
  | nil => exact hst
  | cons a l ih =>
      have hhead : Run Body t (f t a) := h a List.mem_cons_self t
      exact ih (hst.trans hhead) fun b hb => h b (List.mem_cons_of_mem a hb)

theorem define {d : Sighting} (hd : d.IsNamed) : Run Body s (s.define d).1 :=
  single (.define s hd)

theorem addContainer {x : Option Definition} (hx : ∀ y ∈ x, y ∈ s.definitions) {e : Extent}
    (hlabel : ∀ y ∈ x, y.label.isContainer = true) (hstart : ∀ y ∈ x, ∀ i ∈ e.first, y.start ≤ i) :
    Run Body s (s.addContainer x e) := by
  cases x with
  | none => exact refl s
  | some y => exact single (.addContainer s (hx y rfl) e (hlabel y rfl) (hstart y rfl))

theorem addScope {x : Option Definition} (hx : ∀ y ∈ x, y ∈ s.definitions) {e : Extent}
    (he : Body s.outline e) : Run Body s (s.addScope x e) := by
  cases x with
  | none => exact refl s
  | some y => exact single (.addScope s (hx y rfl) he)

theorem addHeritage {x : Option Definition} (hx : ∀ y ∈ x, y ∈ s.definitions)
    (clauses : List Text) (kind : HeritageKind) : Run Body s (s.addHeritage x clauses kind) := by
  cases x with
  | none => exact refl s
  | some y => exact single (.addHeritage s (hx y rfl) clauses kind)

theorem define_addContainer {d : Sighting} (hd : d.IsNamed) {e : Extent}
    (hlabel : d.label.isContainer = true) (hstart : ∀ i ∈ e.first, d.start ≤ i) :
    Run Body s ((s.define d).1.addContainer (s.define d).2 e) := by
  refine (define hd).trans (addContainer (fun _ hy => mem_definitions_of_define hy) ?_ ?_)
  · intro y hy
    rw [eq_definitionOf_of_define hy]
    exact hlabel
  · intro y hy
    rw [eq_definitionOf_of_define hy]
    exact hstart

theorem define_addScope {d : Sighting} (hd : d.IsNamed) {e : Extent} (he : Body s.outline e) :
    Run Body s ((s.define d).1.addScope (s.define d).2 e) := by
  have he' : Body (s.define d).1.outline e := by rwa [define_outline]
  exact (define hd).trans (addScope (fun _ hy => mem_definitions_of_define hy) he')

end Run

end Scan

end CodeAtlas
