import CodeAtlas.Proofs.Bracket.Clauses
import CodeAtlas.Proofs.Extraction.Step
import CodeAtlas.Proofs.Printed.Functions

set_option autoImplicit false

/-! # The parents of a definition

A parent is named by identifiers joined by dots, and the last of them counts, whatever comes after the
name (`parentName?_text`). A list of clauses from which names are read gives a definition the heritage
`Definition.inherits`, its own name left out (`heritageOf_eq`).

Parents are recorded with the class they belong to. `Scan.KeepsClasses` says of what the other passes do
that no class and no parent is recorded by it.
-/

namespace CodeAtlas

open Pattern

/-! ## Dotted names -/

/-- Identifiers joined by dots, none of them one of the excluded words. -/
structure DottedName (excluded : List Text) where
  components : List Text
  ne_nil : components ≠ []
  isIdentifier : ∀ t ∈ components, Text.IsIdentifier t
  notExcluded : ∀ t ∈ components, t ∉ excluded

namespace DottedName

variable {excluded : List Text}

def text (n : DottedName excluded) : Text := ['.'].intercalate n.components

/-- The last component. -/
def last (n : DottedName excluded) : Text := n.components.getLast n.ne_nil

theorem isWord_or_eq_of_mem (n : DottedName excluded) {c : Char} (hc : c ∈ n.text) :
    Text.isWord c = true ∨ c = '.' := by
  rcases Text.of_mem_intercalate hc with hdot | ⟨t, ht, hc⟩
  · exact Or.inr (List.mem_singleton.mp hdot)
  · exact Or.inl ((n.isIdentifier t ht).isWord_of_mem hc)

theorem isBlank_eq_false (n : DottedName excluded) : ∀ c ∈ n.text, Text.isBlank c = false := by
  intro c hc
  rcases n.isWord_or_eq_of_mem hc with hword | rfl
  · by_contra hblank
    rw [isWord_eq_false_of_isBlank (by simpa using hblank)] at hword
    contradiction
  · decide

theorem isInert (n : DottedName excluded) : ∀ c ∈ n.text, Bracket.IsInert c := by
  intro c hc
  rcases n.isWord_or_eq_of_mem hc with hword | rfl
  · exact Bracket.isInert_of_isWord hword
  · exact ⟨by decide, by decide⟩

/-- There is nothing to drop from a name. -/
theorem strips (n : DottedName excluded) : Bracket.Strips n.text n.text :=
  Bracket.strips_of_notMem (fun h => absurd (n.isInert _ h).2 (by decide)) fun h => by
    rcases n.isWord_or_eq_of_mem h with hword | hdot
    · exact absurd hword (by decide)
    · exact absurd hdot (by decide)

theorem exists_cons (n : DottedName excluded) : ∃ c w, n.text = c :: w := by
  obtain ⟨t, ts, hts⟩ := List.exists_cons_of_ne_nil n.ne_nil
  obtain ⟨c, w, hcw, -⟩ := (n.isIdentifier t (hts ▸ List.mem_cons_self)).exists_cons
  rw [text, hts, Text.intercalate_cons, hcw]
  exact ⟨c, _, rfl⟩

/-- The words of a dotted name are its components. -/
theorem lacks (n : DottedName excluded) (hnil : [] ∉ excluded) : Text.Lacks excluded n.text :=
  Text.lacks_join (by decide) hnil fun t ht =>
    Text.lacks_word (fun _ hc => (n.isIdentifier t ht).isWord_of_mem hc) (n.notExcluded t ht)

end DottedName

/-! ## Reading a name -/

section Names

variable {before r : Text} {groups : List (Nat × Cursor × Cursor)}

theorem chooses_identifier {t : Text} (ht : Text.IsIdentifier t)
    (hr : r.head?.any isNamePart = false) :
    Pattern.identifier.Chooses ⟨⟨before, t ++ r⟩, groups⟩ ⟨⟨t.reverse ++ before, r⟩, groups⟩ := by
  obtain ⟨c, w, rfl, hc, -⟩ := ht.exists_cons
  have hstart : isNameStart c = true := by
    rw [isNameStart, hc]
    rfl
  have hw : ∀ d ∈ w, isNamePart d = true := fun d hd => by
    simp [isNamePart, ht.isWord_of_mem (List.mem_cons_of_mem c hd)]
  rw [List.reverse_cons, List.append_assoc]
  exact (chooses_one hstart).seq (chooses_many hw hr)

/-- A component with the dot before it is taken as long as there is one. -/
theorem repeats_components {ts : List Text} (hts : ∀ t ∈ ts, Text.IsIdentifier t)
    (hr : r.head?.any (fun c => isNamePart c || c == '.') = false) :
    Repeats (.seq (char '.') Pattern.identifier)
      ⟨⟨before, ts.flatMap ('.' :: ·) ++ r⟩, groups⟩
      ⟨⟨(ts.flatMap ('.' :: ·)).reverse ++ before, r⟩, groups⟩ := by
  induction ts generalizing before with
  | nil =>
      refine .done fun t ht => ?_
      cases ht with
      | seq hdot _ =>
          have hreads := (fits_char hdot).1
          simp only [List.flatMap_nil, List.nil_append] at hreads
          rw [hreads] at hr
          exact absurd hr (by simp)
  | cons t ts ih =>
      obtain ⟨ht, hts⟩ := List.forall_mem_cons.mp hts
      -- After the component comes the next dot, or what ends the name.
      have hnext : (ts.flatMap ('.' :: ·) ++ r).head?.any isNamePart = false := by
        cases ts with
        | nil =>
            rw [Bool.eq_false_iff, ne_eq, Option.any_eq_true] at hr ⊢
            exact fun ⟨c, hc, hpart⟩ => hr ⟨c, hc, by simp [hpart]⟩
        | cons u us => rfl
      have hone : (Pattern.seq (char '.') Pattern.identifier).Chooses
          ⟨⟨before, '.' :: (t ++ (ts.flatMap ('.' :: ·) ++ r))⟩, groups⟩
          ⟨⟨t.reverse ++ '.' :: before, ts.flatMap ('.' :: ·) ++ r⟩, groups⟩ :=
        (chooses_char '.').seq (chooses_identifier ht hnext)
      have hsplit : (t :: ts).flatMap ('.' :: ·) ++ r = '.' :: (t ++ (ts.flatMap ('.' :: ·) ++ r)) := by
        simp
      rw [hsplit]
      refine .more hone ?_ ?_
      · simp only [List.length_cons, List.length_append]
        omega
      · rw [List.flatMap_cons, List.reverse_append, List.reverse_cons, List.append_assoc,
          List.append_assoc, List.singleton_append]
        exact ih hts

theorem chooses_dottedName {excluded : List Text} (n : DottedName excluded)
    (hr : r.head?.any (fun c => isNamePart c || c == '.') = false) :
    dottedName.Chooses ⟨⟨before, n.text ++ r⟩, groups⟩ ⟨⟨n.text.reverse ++ before, r⟩, groups⟩ := by
  obtain ⟨t, ts, hts⟩ := List.exists_cons_of_ne_nil n.ne_nil
  have hidentifiers := n.isIdentifier
  rw [hts] at hidentifiers
  obtain ⟨ht, hrest⟩ := List.forall_mem_cons.mp hidentifiers
  have hnext : (ts.flatMap ('.' :: ·) ++ r).head?.any isNamePart = false := by
    cases ts with
    | nil =>
        rw [Bool.eq_false_iff, ne_eq, Option.any_eq_true] at hr ⊢
        exact fun ⟨c, hc, hpart⟩ => hr ⟨c, hc, by simp [hpart]⟩
    | cons u us => rfl
  have hall : dottedName.Chooses ⟨⟨before, t ++ (ts.flatMap ('.' :: ·) ++ r)⟩, groups⟩
      ⟨⟨(ts.flatMap ('.' :: ·)).reverse ++ (t.reverse ++ before), r⟩, groups⟩ :=
    (chooses_identifier ht hnext).seq (repeats_components hrest hr).chooses
  rw [DottedName.text, hts, Text.intercalate_cons]
  simpa using hall

/-- **The last component counts**, and what comes after the name does not. -/
theorem parentName?_text {excluded : List Text} (n : DottedName excluded)
    (hr : r.head?.any (fun c => isNamePart c || c == '.') = false)
    (htrim : Text.trim (n.text ++ r) = n.text ++ r) : parentName? (n.text ++ r) = some n.last := by
  have hchooses : dottedName.Chooses ⟨⟨[], n.text ++ r⟩, []⟩ ⟨⟨n.text.reverse ++ [], r⟩, []⟩ :=
    chooses_dottedName n hr
  have hreads : (Cursor.start (n.text ++ r)).Reads n.text ⟨n.text.reverse ++ [], r⟩ := ⟨rfl, rfl⟩
  have hpieces : n.text.splitOn '.' = n.components :=
    List.splitOn_intercalate '.' (fun t ht => (n.isIdentifier t ht).notMem (by decide)) n.ne_nil
  have hmatch : dottedName.matchAt? (Cursor.start (n.text ++ r)) =
      some ⟨Cursor.start (n.text ++ r), ⟨n.text.reverse ++ [], r⟩, []⟩ := hchooses.matchAt?
  rw [parentName?, htrim, hmatch, Option.map_some, hreads.between_eq, hpieces,
    List.getLast?_eq_getLast_of_ne_nil n.ne_nil]
  rfl

end Names

/-! ## Heritage -/

/-- The heritage that parents of these names give to a definition: it is not its own parent. -/
def Definition.inherits (d : Definition) (names : List Text) (kind : HeritageKind) : List Heritage :=
  (names.filter (· ≠ d.name)).map fun parent => ⟨d.id, d.name, parent, kind⟩

namespace Scan

theorem heritageOf_eq {clauses names : List Text}
    (h : List.Forall₂ (fun clause name => parentName? clause = some name) clauses names)
    (d : Definition) (kind : HeritageKind) : heritageOf d clauses kind = d.inherits names kind := by
  induction h with
  | nil => rfl
  | @cons clause name clauses names hname _ ih =>
      unfold heritageOf Definition.inherits at ih ⊢
      rw [List.filterMap_cons, hname, ih]
      by_cases heq : name = d.name
      · simp [heq]
      · simp [heq]

/-! ## What a run keeps -/

/-- What an operation finds on record stays there, and parents are added at the end. -/
theorem Step.grows {Body : Text → Extent → Prop} {s t : Scan} (h : Step Body s t) :
    s.definitions ⊆ t.definitions ∧ s.heritage <+: t.heritage := by
  cases h with
  | addImport path =>
      simp only [Scan.addImport]
      split <;> exact ⟨List.Subset.refl _, List.prefix_refl _⟩
  | @define d hd =>
      by_cases hseen : (d.label, d.name, d.start) ∈ s.seen
      · rw [define_of_seen hseen]
        exact ⟨List.Subset.refl _, List.prefix_refl _⟩
      · rw [define_of_not_seen hseen]
        exact ⟨List.subset_append_left _ _, List.prefix_refl _⟩
  | addContainer hx e =>
      unfold Scan.addContainer
      split <;> exact ⟨List.Subset.refl _, List.prefix_refl _⟩
  | addScope hx he =>
      unfold Scan.addScope
      split
      · split <;> exact ⟨List.Subset.refl _, List.prefix_refl _⟩
      · exact ⟨List.Subset.refl _, List.prefix_refl _⟩
  | addHeritage hx clauses kind => exact ⟨List.Subset.refl _, List.prefix_append _ _⟩

theorem Run.grows {Body : Text → Extent → Prop} {s t : Scan} (h : Run Body s t) :
    s.definitions ⊆ t.definitions ∧ s.heritage <+: t.heritage := by
  refine h.invariant (P := fun u => s.definitions ⊆ u.definitions ∧ s.heritage <+: u.heritage)
    (fun hstep hs => ?_) ⟨List.Subset.refl _, List.prefix_refl _⟩
  exact ⟨List.Subset.trans hs.1 hstep.grows.1, hs.2.trans hstep.grows.2⟩

/-! ## What leaves classes and parents alone -/

/-- No class is recorded and no parent. -/
structure KeepsClasses (s t : Scan) : Prop where
  outline_eq : t.outline = s.outline
  heritage_eq : t.heritage = s.heritage
  definitions_subset : s.definitions ⊆ t.definitions
  mem_seen : ∀ x ∈ t.seen, x ∈ s.seen ∨ x.1 ≠ .classType

namespace KeepsClasses

variable {s t u : Scan}

theorem refl (s : Scan) : KeepsClasses s s := ⟨rfl, rfl, List.Subset.refl _, fun _ => Or.inl⟩

theorem trans (hst : KeepsClasses s t) (htu : KeepsClasses t u) : KeepsClasses s u where
  outline_eq := htu.outline_eq.trans hst.outline_eq
  heritage_eq := htu.heritage_eq.trans hst.heritage_eq
  definitions_subset := List.Subset.trans hst.definitions_subset htu.definitions_subset
  mem_seen := by
    intro x hx
    rcases htu.mem_seen x hx with hx | hx
    · exact hst.mem_seen x hx
    · exact Or.inr hx

theorem foldl {α : Type} {f : Scan → α → Scan} {l : List α} (h : ∀ a ∈ l, ∀ u, KeepsClasses u (f u a))
    (s : Scan) : KeepsClasses s (l.foldl f s) := by
  induction l generalizing s with
  | nil => exact refl s
  | cons a l ih =>
      have hrest := ih (fun b hb => h b (List.mem_cons_of_mem a hb)) (f s a)
      exact (h a List.mem_cons_self s).trans hrest

theorem addImport (s : Scan) (path : Text) : KeepsClasses s (s.addImport path) := by
  simp only [Scan.addImport]
  split
  · exact refl s
  · exact ⟨rfl, rfl, List.Subset.refl _, fun _ => Or.inl⟩

theorem define (s : Scan) {d : Sighting} (hd : d.label ≠ .classType) :
    KeepsClasses s (s.define d).1 := by
  by_cases hseen : (d.label, d.name, d.start) ∈ s.seen
  · rw [define_of_seen hseen]
    exact refl s
  · rw [define_of_not_seen hseen]
    refine ⟨rfl, rfl, List.subset_append_left _ _, fun x hx => ?_⟩
    rcases List.mem_cons.mp hx with rfl | hx
    · exact Or.inr hd
    · exact Or.inl hx

theorem addContainer (s : Scan) (x : Option Definition) (e : Extent) :
    KeepsClasses s (s.addContainer x e) := by
  unfold Scan.addContainer
  split
  · exact ⟨rfl, rfl, List.Subset.refl _, fun _ => Or.inl⟩
  · exact refl s

theorem addScope (s : Scan) (x : Option Definition) (e : Extent) :
    KeepsClasses s (s.addScope x e) := by
  unfold Scan.addScope
  split
  · split
    · exact ⟨rfl, rfl, List.Subset.refl _, fun _ => Or.inl⟩
    · exact refl s
  · exact refl s

theorem define_addScope (s : Scan) {d : Sighting} (hd : d.label ≠ .classType) (e : Extent) :
    KeepsClasses s ((s.define d).1.addScope (s.define d).2 e) :=
  (define s hd).trans (addScope _ _ e)

end KeepsClasses

end Scan

end CodeAtlas
