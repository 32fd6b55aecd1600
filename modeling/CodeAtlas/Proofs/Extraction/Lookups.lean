import CodeAtlas.Proofs.Extraction.Passes
import CodeAtlas.Proofs.Pattern.Words
import CodeAtlas.Proofs.Text.Trim

set_option autoImplicit false

/-! # Lookups that do not fail

At two places a scanner looks something up that need not be there. The label of a container is looked
up by its kind in a table, and the name of a member, with the signs before it taken off, is looked for
in the text that it was taken from. A scanner that is written like this gives up when a lookup fails.

The scanners here are that: `Solidity.scan?` and `Script.scan?` have no result if one lookup fails. They
always have one, which is that of the scanners without lookups, because the patterns let only those
texts through for which the lookups succeed. What can still fail an extraction is its path, if the path
cannot be encoded (`Language.extract?_eq`).
-/

namespace CodeAtlas

/-- A pass of steps that do not fail does not fail. -/
theorem foldlM_eq_some_foldl {α β : Type} {f? : β → α → Option β} {f : β → α → β} {l : List α}
    (h : ∀ a ∈ l, ∀ b, f? b a = some (f b a)) (b : β) : l.foldlM f? b = some (l.foldl f b) := by
  induction l generalizing b with
  | nil => rfl
  | cons a l ih =>
      rw [List.foldlM_cons, h a List.mem_cons_self, Option.bind_eq_bind, Option.bind_some, ih]
      · rfl
      · exact fun a' ha' => h a' (List.mem_cons_of_mem a ha')

/-! ## Containers -/

namespace Solidity

open Pattern

/-- The labels of containers by kind. -/
def containerLabels : List (Text × Label) :=
  [("contract".toList, .classType), ("abstract contract".toList, .classType),
    ("interface".toList, .interfaceType), ("library".toList, .moduleUnit)]

/-- The label of a kind, whose words may be apart by any white space. -/
def containerLabel? (kind : Text) : Option Label :=
  containerLabels.lookup ([' '].intercalate (Text.fields kind))

/-- Record a container under a given label. -/
def addContainerAs (label : Label) (s : Scan) (m : Match) : Scan :=
  let extent := containerExtent s.outline m.stop
  let (s, d) := s.define
    { label := label, name := m.group 2, start := m.start
      finish := some extent.last, nameAt := some (m.groupStart 2) }
  let s := s.addContainer d extent
  match heritageClause.search? (m.group 3) with
  | some h => s.addHeritage d (Bracket.splitTopLevel [','] (h.group 1)) .extendsType
  | none => s

/-- Record a container, if its kind has a label. -/
def addContainer? (s : Scan) (m : Match) : Option Scan :=
  if (s.outline.drop m.stop).head? == some ';' then some s
  else (containerLabel? (m.group 1)).map fun label => addContainerAs label s m

/-- All passes over a file. -/
def scan? (path code outline : Text) : Option Scan := do
  let s : Scan := { path := path, code := code, outline := outline }
  let s := (importStatement.findAll code).foldl (fun s m => s.addImport (m.group 1)) s
  let s ← (container.findAll outline).foldlM addContainer? s
  let s := (structOrEnum.findAll outline).foldl addStructOrEnum s
  let s := (eventOrError.findAll outline).foldl addEventOrError s
  let s := (modifier.findAll outline).foldl addModifier s
  let s := (function.findAll outline).foldl addFunction s
  let s := (constructor.findAll outline).foldl addConstructor s
  return (special.findAll outline).foldl addSpecial s

/-- The kinds of containers that the pattern lets through. -/
theorem kind_of_makes {m : Match} (h : container.Makes m) :
    (∃ c gap, Text.isBlank c = true ∧ (∀ x ∈ gap, Text.isBlank x = true) ∧
      m.group 1 = "abstract".toList ++ c :: (gap ++ "contract".toList)) ∨
    m.group 1 = "contract".toList ∨ m.group 1 = "interface".toList ∨ m.group 1 = "library".toList := by
  obtain ⟨q, hq, u, v, hfits, hreads⟩ := h.took_group (n := 1) rfl
  obtain rfl := List.mem_singleton.mp hq
  have hgroup : ∀ {w : Text}, u.cursor.Reads w v.cursor → m.group 1 = w := by
    intro w hw
    rw [← hreads.between_eq, hw.between_eq]
  cases hfits with
  | altLeft habstract =>
      simp only [fits_all_cons] at habstract
      obtain ⟨t₁, h₁, t₂, h₂, t₃, h₃, hend⟩ := habstract
      cases hend
      cases h₂ with
      | @seq _ _ _ t _ hone hmany =>
          obtain ⟨c, hc, hreadc⟩ := fits_one hone
          obtain ⟨gap, hgap, hreadgap⟩ := fits_many hmany
          refine Or.inl ⟨c, gap, hc, hgap, hgroup ?_⟩
          exact (fits_lit h₁).trans ((hreadc.trans hreadgap).trans (fits_lit h₃))
  | altRight hrest =>
      cases hrest with
      | altLeft hword => exact Or.inr (Or.inl (hgroup (fits_lit hword)))
      | altRight hrest =>
          cases hrest with
          | altLeft hword => exact Or.inr (Or.inr (Or.inl (hgroup (fits_lit hword))))
          | altRight hword => exact Or.inr (Or.inr (Or.inr (hgroup (fits_lit hword))))

/-- **Every kind that the pattern lets through has a label.** -/
theorem containerLabel?_eq_some {m : Match} (h : container.Makes m) :
    containerLabel? (m.group 1) = some (containerLabel (m.group 1)) := by
  rcases kind_of_makes h with ⟨c, gap, hc, hgap, hkind⟩ | hkind | hkind | hkind
  · -- Any white space may stand between the two words; the table has them with one space.
    have hword : ∀ x ∈ "abstract".toList, Text.isBlank x = false := by simp [Text.isBlank]
    have hfields : Text.fields (m.group 1) = ["abstract".toList, "contract".toList] := by
      rw [hkind, Text.fields_append_cons (by decide) hword hc, Text.fields_append_blank hgap]
      rfl
    have hlabel : containerLabel (m.group 1) = .classType := by
      rw [hkind]
      rfl
    rw [containerLabel?, hfields, hlabel]
    decide
  · rw [hkind]
    decide
  · rw [hkind]
    decide
  · rw [hkind]
    decide

theorem addContainer?_eq_some {m : Match} (h : container.Makes m) (s : Scan) :
    addContainer? s m = some (addContainer s m) := by
  unfold addContainer? addContainer
  split
  · rfl
  · rw [containerLabel?_eq_some h]
    rfl

theorem scan?_eq_some (path code outline : Text) :
    scan? path code outline = some (scan path code outline) := by
  unfold scan?
  simp only [foldlM_eq_some_foldl fun m hm => addContainer?_eq_some (makes_of_mem_findAll hm)]
  rfl

end Solidity

/-! ## Members -/

namespace Script

open Pattern

/-- The name of a method without the star, the white space and the hash before it. -/
def methodName (raw : Text) : Text :=
  (Text.trim (raw.dropWhile (· == '*'))).dropWhile (· == '#')

/-- The name of a field without the hash before it. -/
def fieldName (raw : Text) : Text := raw.dropWhile (· == '#')

/-- Record a method of the class whose body opens at `first` under a given name. -/
def addMethodAs (first : Nat) (s : Scan) (m : Match) (name : Text) (nameAt : Nat) : Scan :=
  if Language.nonMethods.contains name || Bracket.depthBetween s.outline (first + 1) nameAt != 0
  then s
  else
    let body := bodyAfter s.outline (Bracket.parenEnd s.outline (m.stop - 1) + 1)
    let (s, d) := s.define
      { label := if name == "constructor".toList then .constructor else .method
        name := name, start := nameAt, finish := some body.last
        isExported := isPublicMember (m.group 1) (m.group 2), nameAt := some nameAt }
    s.addScope d body

/-- Record a field that holds an arrow function under a given name. -/
def addFieldArrowAs (first : Nat) (s : Scan) (m : Match) (name : Text) (nameAt : Nat) : Scan :=
  if Bracket.depthBetween s.outline (first + 1) nameAt != 0 then s
  else match arrowBody? s.outline (m.groupStart 3) with
    | none => s
    | some body =>
      let (s, d) := s.define
        { label := .method, name := name, start := nameAt, finish := some body.last
          isExported := isPublicMember (m.group 1) (m.group 2), nameAt := some nameAt }
      s.addScope d body

/-- Record a method, if its name is found in the text it was taken from. -/
def addMethod? (first : Nat) (s : Scan) (m : Match) : Option Scan :=
  (Text.find? (methodName (m.group 2)) (m.group 2)).map fun j =>
    addMethodAs first s m (methodName (m.group 2)) (m.groupStart 2 + j)

/-- Record a field, if its name is found in the text it was taken from. -/
def addFieldArrow? (first : Nat) (s : Scan) (m : Match) : Option Scan :=
  (Text.find? (fieldName (m.group 2)) (m.group 2)).map fun j =>
    addFieldArrowAs first s m (fieldName (m.group 2)) (m.groupStart 2 + j)

/-- Record the members of a class body. -/
def addMembers? (s : Scan) (first last : Nat) : Option Scan := do
  let s ← (methodHead.findAllIn s.outline (first + 1) last).foldlM (addMethod? first) s
  (fieldArrow.findAllIn s.outline (first + 1) last).foldlM (addFieldArrow? first) s

/-- Record a class, its parents and its members. -/
def addClass? (s : Scan) (m : Match) : Option Scan :=
  let name := m.group 2
  if name == "extends".toList || name == "implements".toList then some s
  else
    let first := m.stop - 1
    let last := Bracket.braceEnd s.outline first
    let (s, d) := s.define
      { label := .classType, name := name, start := m.start, finish := some last
        isExported := m.hasGroup 1, nameAt := some (m.groupStart 2) }
    let s := s.addContainer d ⟨some first, last⟩
    let clauses := Bracket.stripGenerics (m.group 3)
    let s := addImplements (addExtends s d clauses) d clauses
    if d.isSome then addMembers? s first last else some s

/-- All passes over a file. -/
def scan? (path code outline : Text) : Option Scan := do
  let s : Scan := { path := path, code := code, outline := outline }
  let s := importForms.foldl
    (fun s p => (p.findAll code).foldl (fun s m => s.addImport (m.group 1)) s) s
  let s := (moduleHead.findAll outline).foldl addModule s
  let s ← (classHead.findAll outline).foldlM addClass? s
  let s := (interfaceHead.findAll outline).foldl addInterface s
  let s := (enumHead.findAll outline).foldl addEnum s
  let s := (functionHead.findAll outline).foldl addFunction s
  return (variableFunction.findAll outline).foldl addVariableFunction s

/-! ### Names with signs before them -/

/-- A text of signs, none of which can start a name, and a name. -/
structure SignedName (raw signs name : Text) : Prop where
  eq_append : raw = signs ++ name
  signs_eq_false : ∀ c ∈ signs, isNameStart c = false
  exists_cons : ∃ c rest, name = c :: rest ∧ isNameStart c = true

namespace SignedName

variable {raw signs name : Text}

theorem dropWhile_eq (h : SignedName raw signs name) :
    (raw.dropWhile fun c => !isNameStart c) = name := by
  obtain ⟨c, rest, hname, hc⟩ := h.exists_cons
  rw [h.eq_append]
  refine Text.dropWhile_append (fun x hx => by simp [h.signs_eq_false x hx]) fun x hx => ?_
  rw [hname, List.head?_cons] at hx
  rw [← Option.some_inj.mp hx, hc]
  rfl

/-- The name is found where it stands. -/
theorem find?_eq (h : SignedName raw signs name) : Text.find? name raw = some signs.length := by
  obtain ⟨c, rest, rfl, hc⟩ := h.exists_cons
  rw [h.eq_append]
  refine Text.find?_append (fun hmem => ?_) rest
  rw [h.signs_eq_false c hmem] at hc
  contradiction

theorem length_sub (h : SignedName raw signs name) : raw.length - name.length = signs.length := by
  rw [h.eq_append, List.length_append]
  omega

end SignedName

section Signs

variable {star gap hash name : Text}

/-- Taking off the star, the white space and the hash, one after another, leaves the name. -/
theorem methodName_eq (hstar : ∀ x ∈ star, x = '*') (hgap : ∀ x ∈ gap, isGap x = true)
    (hhash : ∀ x ∈ hash, x = '#') (hname : ∀ x ∈ name, isNamePart x = true) :
    methodName (star ++ (gap ++ (hash ++ name))) = name := by
  have hne : ∀ {d : Char}, isNamePart d = false → ∀ x ∈ name, x ≠ d := by
    rintro d hd x hx rfl
    rw [hname x hx] at hd
    contradiction
  have hdropStar : (star ++ (gap ++ (hash ++ name))).dropWhile (· == '*') = gap ++ (hash ++ name) := by
    refine Text.dropWhile_append (fun x hx => by simp [hstar x hx]) fun x hx => ?_
    rcases List.mem_append.mp (List.mem_of_mem_head? hx) with hx | hx
    · exact beq_false_of_ne fun heq => absurd (hgap x hx) (by rw [heq]; decide)
    · rcases List.mem_append.mp hx with hx | hx
      · rw [hhash x hx]
        decide
      · exact beq_false_of_ne (hne (by decide) x hx)
  have htrim : Text.trim (gap ++ (hash ++ name)) = hash ++ name := by
    have hblank : ∀ x ∈ gap, Text.isBlank x = true := by
      intro x hx
      rcases eq_of_isGap (hgap x hx) with rfl | rfl <;> decide
    have hkept : ∀ x ∈ hash ++ name, Text.isBlank x = false := by
      intro x hx
      rcases List.mem_append.mp hx with hx | hx
      · rw [hhash x hx]
        decide
      · refine Bool.eq_false_iff.mpr fun hx' => ?_
        have := isNamePart_eq_false_of_isBlank hx'
        rw [hname x hx] at this
        contradiction
    simpa using Text.trim_append (d := []) hblank hkept (by simp)
  rw [methodName, hdropStar, htrim]
  refine Text.dropWhile_append (fun x hx => by simp [hhash x hx]) fun x hx => ?_
  exact beq_false_of_ne (hne (by decide) x (List.mem_of_mem_head? hx))

end Signs

theorem signedName_methodName {m : Match} (h : methodHead.Makes m) :
    ∃ signs, SignedName (m.group 2) signs (methodName (m.group 2)) := by
  obtain ⟨star, gap, hash, c, rest, heq, hstar, hgap, hhash, hc, hrest⟩ :=
    exists_group_methodHead_eq h
  have hpart : ∀ x ∈ c :: rest, isNamePart x = true :=
    List.forall_mem_cons.mpr ⟨isNamePart_of_isNameStart hc, hrest⟩
  have hname : methodName (m.group 2) = c :: rest := by
    rw [heq, methodName_eq hstar hgap hhash hpart]
  refine ⟨star ++ (gap ++ hash), ?_, isNameStart_eq_false_of_mem_signs hstar hgap hhash,
    c, rest, hname, hc⟩
  rw [hname, heq, List.append_assoc, List.append_assoc]

theorem signedName_fieldName {m : Match} (h : fieldArrow.Makes m) :
    ∃ signs, SignedName (m.group 2) signs (fieldName (m.group 2)) := by
  obtain ⟨hash, c, rest, heq, hhash, hc, -⟩ := exists_group_fieldArrow_eq h
  have hname : fieldName (m.group 2) = c :: rest := by
    rw [heq]
    refine Text.dropWhile_append (fun x hx => by simp [hhash x hx]) fun x hx => ?_
    obtain rfl := Option.some_inj.mp hx
    exact beq_false_of_ne fun hsign => absurd hc (by rw [hsign]; decide)
  refine ⟨hash, by rw [hname, heq], fun x hx => ?_, c, rest, hname, hc⟩
  rw [hhash x hx]
  decide

/-! ### The scan -/

theorem addMethod?_eq_some {m : Match} (h : methodHead.Makes m) (first : Nat) (s : Scan) :
    addMethod? first s m = some (addMethod first s m) := by
  obtain ⟨signs, hname⟩ := signedName_methodName h
  -- Without a lookup the name's position comes from the lengths alone.
  have hlength := hname.length_sub
  rw [← hname.dropWhile_eq] at hlength
  rw [addMethod?, hname.find?_eq, Option.map_some, ← hlength, ← hname.dropWhile_eq]
  rfl

theorem addFieldArrow?_eq_some {m : Match} (h : fieldArrow.Makes m) (first : Nat) (s : Scan) :
    addFieldArrow? first s m = some (addFieldArrow first s m) := by
  obtain ⟨signs, hname⟩ := signedName_fieldName h
  have hlength := hname.length_sub
  rw [← hname.dropWhile_eq] at hlength
  rw [addFieldArrow?, hname.find?_eq, Option.map_some, ← hlength, ← hname.dropWhile_eq]
  rfl

theorem addMembers?_eq_some (s : Scan) (first last : Nat) :
    addMembers? s first last = some (addMembers s first last) := by
  unfold addMembers?
  rw [foldlM_eq_some_foldl fun m hm => addMethod?_eq_some (makes_of_mem_findAllIn hm) first,
    Option.bind_eq_bind, Option.bind_some,
    foldlM_eq_some_foldl fun m hm => addFieldArrow?_eq_some (makes_of_mem_findAllIn hm) first]
  rfl

theorem addClass?_eq_some (s : Scan) (m : Match) : addClass? s m = some (addClass s m) := by
  simp only [addClass?, addClass, addMembers?_eq_some]
  split
  · rfl
  · split
    · rfl
    · rfl

theorem scan?_eq_some (path code outline : Text) :
    scan? path code outline = some (scan path code outline) := by
  unfold scan?
  simp only [foldlM_eq_some_foldl fun m _ s => addClass?_eq_some s m]
  rfl

end Script

/-! ## Both scanners -/

namespace Language

/-- The record of a file when all passes are done, if no lookup failed. -/
def scan? (l : Language) (path source : Text) : Option Scan :=
  match l with
  | solidity => Solidity.scan? path (l.commentStyle.code source) (l.commentStyle.outline source)
  | javascript | typescript =>
    Script.scan? path (l.commentStyle.code source) (l.commentStyle.outline source)

/-- What is extracted from a file, if nothing failed. Identities are digests of bytes, so before all else
the path has to be encoded, and not every path can be. -/
def extract? (l : Language) (encodes : Text → Bool) (path source : Text) : Option Extraction :=
  if encodes path then
    (l.scan? path source).map fun s => s.result (some l) (s.calls l.callExclusions (l.topLevel path))
  else none

/-- **Only the path can be at fault**: no lookup fails, whatever the text is. -/
theorem extract?_eq (l : Language) (encodes : Text → Bool) (path source : Text) :
    l.extract? encodes path source = if encodes path then some (l.extract path source) else none := by
  have hscan : l.scan? path source = some (l.scan path source) := by
    cases l with
    | solidity => exact Solidity.scan?_eq_some path _ _
    | javascript => exact Script.scan?_eq_some path _ _
    | typescript => exact Script.scan?_eq_some path _ _
  rw [extract?, hscan, Option.map_some, extract_eq]

end Language

end CodeAtlas
