import CodeAtlas.Proofs.Extraction.Step

set_option autoImplicit false

/-! # The passes are runs

Each function that records a match is a run of at most a few steps, whatever the record it starts
from. What has to be shown of it is that the name it records is a name, which is read off the pattern
(`Pattern.Makes.isName_group`), and, where it records a body for calls, what kind of body that is.
-/

namespace CodeAtlas

/-! ## Names from patterns -/

theorem isNameChar_of_isWord {c : Char} (h : Text.isWord c = true) : isNameChar c = true := by
  simp [isNameChar, isNamePart, h]

theorem isNameChar_of_isNameStart {c : Char} (h : isNameStart c = true) : isNameChar c = true := by
  simp only [isNameStart, Bool.or_eq_true, beq_iff_eq] at h
  rcases h with (h | rfl) | rfl
  · exact isNameChar_of_isWord (Text.isWord_of_isAsciiLetter h)
  · decide
  · decide

namespace Pattern

/-- The pattern takes characters of names only. -/
def TakesName (p : Pattern) : Prop := ∀ c, p.mayTake c = true → isNameChar c = true

theorem takesName_seq {a b : Pattern} (ha : a.TakesName) (hb : b.TakesName) :
    (Pattern.seq a b).TakesName := by
  intro c hc
  rw [mayTake, Bool.or_eq_true] at hc
  exact hc.elim (ha c) (hb c)

theorem takesName_alt {a b : Pattern} (ha : a.TakesName) (hb : b.TakesName) :
    (Pattern.alt a b).TakesName := by
  intro c hc
  rw [mayTake, Bool.or_eq_true] at hc
  exact hc.elim (ha c) (hb c)

theorem takesName_identifier : identifier.TakesName := by
  refine takesName_seq (fun c hc => isNameChar_of_isNameStart hc) fun c hc => ?_
  have hpart : isNamePart c = true := hc
  simp [isNameChar, hpart]

theorem takesName_dottedName : dottedName.TakesName := by
  refine takesName_seq takesName_identifier fun c hc => ?_
  have hdot : (Pattern.char '.').TakesName := by
    intro c hc
    have hc : c = '.' := by simpa [char, mayTake] using hc
    subst hc
    decide
  exact takesName_seq hdot takesName_identifier c hc

/-- The characters of a word are the only ones that its pattern takes. -/
theorem takesName_lit {t : Text} (ht : IsName t) : (lit t).TakesName := by
  induction t with
  | nil => intro c hc; simp [lit, all, mayTake] at hc
  | cons d t ih =>
      have hd : (Pattern.char d).TakesName := by
        intro c hc
        have hc : c = d := by simpa [char, mayTake] using hc
        exact ht c (hc ▸ List.mem_cons_self)
      cases t with
      | nil => exact hd
      | cons e t => exact takesName_seq hd (ih fun c hc => ht c (List.mem_cons_of_mem d hc))

/-- A group is a name if the one part remembered under its number takes characters of names. -/
theorem Makes.isName_group {p q : Pattern} {m : Match} {n : Nat} (h : p.Makes m)
    (hq : q.TakesName) (hp : p.groupBodies n = [q]) : IsName (m.group n) := by
  intro c hc
  obtain ⟨q', hq', htake⟩ := h.mayTake_of_mem_group hc
  rw [hp, List.mem_singleton] at hq'
  subst hq'
  exact hq c htake

end Pattern

/-- A block opens behind the start of its head. -/
theorem Match.start_le_of_mem {m : Match} (h : m.start < m.stop) {i : Nat}
    (hi : i ∈ some (m.stop - 1)) : (m.start : Int) ≤ i := by
  obtain rfl := Option.some_inj.mp hi
  omega

/-! ## Solidity -/

namespace Solidity

open Pattern Scan

theorem takesName_identifier : Solidity.identifier.TakesName := by
  refine takesName_seq (fun c hc => ?_) fun c hc => isNameChar_of_isWord hc
  have hc : Text.isAsciiLetter c = true ∨ c = '_' := by simpa [mayTake] using hc
  rcases hc with hc | rfl
  · exact isNameChar_of_isWord (Text.isWord_of_isAsciiLetter hc)
  · decide

theorem containerLabel_ne_file (kind : Text) : containerLabel kind ≠ .file := by
  unfold containerLabel
  split_ifs <;> decide

theorem isContainer_containerLabel (kind : Text) : (containerLabel kind).isContainer = true := by
  unfold containerLabel
  split_ifs <;> rfl

theorem le_of_mem_containerExtent {outline : Text} {index i : Nat}
    (h : i ∈ (containerExtent outline index).first) : index ≤ i := by
  unfold containerExtent at h
  split at h
  · exact (Option.some_inj.mp h).le
  · simp at h

theorem run_addContainer {m : Match} (h : container.Makes m) (s : Scan) :
    Run Extent.IsBlock s (addContainer s m) := by
  unfold addContainer
  split
  · -- A forward declaration is passed over.
    exact Run.refl s
  · set d : Sighting :=
      { label := containerLabel (m.group 1), name := m.group 2, start := m.start
        finish := some (containerExtent s.outline m.stop).last, nameAt := some (m.groupStart 2) }
    have hnamed : d.IsNamed := ⟨containerLabel_ne_file _, h.isName_group takesName_identifier rfl⟩
    have hbody : Run Extent.IsBlock s
        ((s.define d).1.addContainer (s.define d).2 (containerExtent s.outline m.stop)) := by
      refine Run.define_addContainer hnamed (isContainer_containerLabel _) fun i hi => ?_
      exact Int.ofNat_le.mpr (h.start_le_stop.trans (le_of_mem_containerExtent hi))
    cases hsearch : heritageClause.search? (m.group 3) with
    | none => exact hbody
    | some found =>
        refine hbody.trans (Run.addHeritage (fun y hy => ?_) _ _)
        rw [addContainer_definitions]
        exact mem_definitions_of_define hy

theorem run_addStructOrEnum {m : Match} (h : structOrEnum.Makes m) (s : Scan) :
    Run Extent.IsBlock s (addStructOrEnum s m) := by
  have hname : IsName (m.group 2) := h.isName_group takesName_identifier rfl
  simp only [addStructOrEnum]
  split
  · exact Run.define_addContainer ⟨by simp, hname⟩ rfl
      fun _ => Match.start_le_of_mem (h.start_lt_stop rfl)
  · exact Run.define ⟨by simp, hname⟩

theorem run_addEventOrError {m : Match} (h : eventOrError.Makes m) (s : Scan) :
    Run Extent.IsBlock s (addEventOrError s m) :=
  Run.define ⟨by simp, h.isName_group takesName_identifier rfl⟩

/-- Everything that can be called is recorded with the block after its head. -/
theorem run_addCallable {label : Label} {name : Text} (hlabel : label ≠ .file) (hname : IsName name)
    (s : Scan) (start headEnd : Nat) (tail : Text) (nameAt : Nat) :
    Run Extent.IsBlock s (addCallable s label name start headEnd tail nameAt) :=
  Run.define_addScope ⟨hlabel, hname⟩ (bodyAfter_isBlock s.outline headEnd)

theorem run_addModifier {m : Match} (h : modifier.Makes m) (s : Scan) :
    Run Extent.IsBlock s (addModifier s m) :=
  run_addCallable (by decide) (h.isName_group takesName_identifier rfl) s _ _ _ _

theorem run_addFunction {m : Match} (h : function.Makes m) (s : Scan) :
    Run Extent.IsBlock s (addFunction s m) := by
  refine run_addCallable ?_ (h.isName_group takesName_identifier rfl) s _ _ _ _
  split_ifs <;> decide

theorem run_addConstructor (s : Scan) (m : Match) : Run Extent.IsBlock s (addConstructor s m) :=
  run_addCallable (by decide) (by decide) s _ _ _ _

theorem run_addSpecial {m : Match} (h : special.Makes m) (s : Scan) :
    Run Extent.IsBlock s (addSpecial s m) := by
  unfold addSpecial
  split
  · have hwords : (any [lit "fallback".toList, lit "receive".toList]).TakesName :=
      takesName_alt (takesName_lit (by decide)) (takesName_lit (by decide))
    exact run_addCallable (by decide) (h.isName_group hwords rfl) s _ _ _ _
  · exact Run.refl s

/-- **Scanning a Solidity file is a run**, and its bodies are blocks. -/
theorem run_scan (path code outline : Text) :
    Run Extent.IsBlock { path := path, code := code, outline := outline }
      (scan path code outline) := by
  unfold scan
  refine Run.foldl ?_ fun m hm => run_addSpecial (makes_of_mem_findAll hm)
  refine Run.foldl ?_ fun m _ s => run_addConstructor s m
  refine Run.foldl ?_ fun m hm => run_addFunction (makes_of_mem_findAll hm)
  refine Run.foldl ?_ fun m hm => run_addModifier (makes_of_mem_findAll hm)
  refine Run.foldl ?_ fun m hm => run_addEventOrError (makes_of_mem_findAll hm)
  refine Run.foldl ?_ fun m hm => run_addStructOrEnum (makes_of_mem_findAll hm)
  refine Run.foldl ?_ fun m hm => run_addContainer (makes_of_mem_findAll hm)
  exact Run.foldl (Run.refl _) fun m _ s => Run.single (.addImport s (m.group 1))

end Solidity

/-! ## Bodies of arrow functions -/

namespace Script

open Pattern Scan

/-- The arrow is the last thing before the position that is found after it. -/
theorem arrowEnd?_eq_some {outline : Text} {head next index : Nat}
    (h : arrowEnd? outline head next = some index) :
    0 < index ∧ outline[index - 1]? = some '>' := by
  simp only [arrowEnd?] at h
  split at h
  · obtain ⟨m, hm, rfl⟩ := Option.map_eq_some_iff.mp h
    obtain ⟨hfirst, u, hfits, hlast, -⟩ := makes_of_matchAt? hm
    obtain ⟨w, hw, -⟩ := hfits.reads
    -- The pattern ends in the two characters of the arrow.
    have harrow : lit "=>".toList = all [char '=', char '>'] := rfl
    simp only [arrowAfterParameters, fits_all_cons, harrow] at hfits
    obtain ⟨t₁, -, t₂, -, t₃, -, t₄, ⟨t₅, -, t₆, hhead, hdone⟩, hend⟩ := hfits
    cases hdone
    cases hend
    have hbefore := (fits_char hhead).2
    have htext : u.cursor.before.reverse ++ u.cursor.rest = outline := by
      rw [hw.text_eq, hfirst]
      simp [Cursor.window]
    show 0 < m.last.before.length ∧ outline[m.last.before.length - 1]? = some '>'
    rw [hlast, ← htext, hbefore]
    simp
  · obtain ⟨j, hj, rfl⟩ := Option.map_eq_some_iff.mp h
    refine ⟨by omega, ?_⟩
    obtain ⟨rest, hrest⟩ := Text.find?_eq_some hj
    have hget : (outline.drop head).drop j = '=' :: '>' :: rest := hrest.symm
    rw [List.drop_drop] at hget
    have hchar : (outline.drop (head + j))[1]? = some '>' := by rw [hget]; rfl
    rw [List.getElem?_drop] at hchar
    exact hchar

/-- An arrow function has a block or an expression for a body. -/
theorem arrowBody_isScriptBody {outline : Text} {index : Nat} (hpos : 0 < index)
    (harrow : outline[index - 1]? = some '>') : (arrowBody outline index).IsScriptBody outline := by
  set gap := (outline.drop index).takeWhile Text.isBlank with hgap
  set first := index + gap.length with hfirst
  simp only [arrowBody]
  split
  · next hbrace =>
    refine Or.inl fun i hi => ?_
    obtain rfl := Option.some_inj.mp hi
    rw [beq_iff_eq, List.head?_drop] at hbrace
    exact ⟨hbrace, rfl⟩
  · refine Or.inr fun i hi => ?_
    obtain rfl : first - 1 = i := Option.some_inj.mp hi
    have hsucc : first - 1 + 1 = first := by omega
    refine ⟨?_, by rw [hsucc]⟩
    -- Before the expression stands white space or, without any, the arrow.
    rcases List.eq_nil_or_concat gap with hnil | ⟨init, c, hlast⟩
    · have : first - 1 = index - 1 := by simp [hfirst, hnil]
      rw [this, harrow]
      decide
    · have hget : (outline.drop index)[init.length]? = some c := by
        obtain ⟨rest, hrest⟩ := List.takeWhile_prefix (l := outline.drop index) Text.isBlank
        rw [← hrest, ← hgap, hlast]
        simp
      have hplace : first - 1 = index + init.length := by
        rw [hfirst, hlast, List.concat_eq_append, List.length_append]
        simp
      have hblank : Text.isBlank c = true := by
        have hall := List.all_takeWhile (l := outline.drop index) (p := Text.isBlank)
        rw [← hgap, hlast] at hall
        simpa using (List.all_eq_true.mp hall) c (by simp)
      rw [hplace, ← List.getElem?_drop, hget]
      intro hc
      rw [Option.some_inj.mp hc] at hblank
      exact absurd hblank (by decide)

theorem arrowBody?_isScriptBody {outline : Text} {head : Nat} {e : Extent}
    (h : arrowBody? outline head = some e) : e.IsScriptBody outline := by
  obtain ⟨index, hindex, rfl⟩ := Option.map_eq_some_iff.mp h
  obtain ⟨hpos, harrow⟩ := arrowEnd?_eq_some hindex
  exact arrowBody_isScriptBody hpos harrow

theorem variableBody?_isScriptBody {outline : Text} {m : Match} {e : Extent}
    (h : variableBody? outline m = some e) : e.IsScriptBody outline := by
  simp only [variableBody?] at h
  split at h
  · rw [Option.ite_none_right_eq_some, Option.some_inj] at h
    obtain ⟨-, rfl⟩ := h
    exact Or.inl (bodyAfter_isBlock outline _)
  · exact arrowBody?_isScriptBody h

/-! ## Names of members -/

/-- A name with signs before it: dropping what cannot start a name leaves a name. -/
def Signed (w : Text) : Prop :=
  ∃ signs name, w = signs ++ name ∧ (∀ c ∈ signs, isNameStart c = false) ∧ IsName name

theorem Signed.isName_dropWhile {w : Text} (h : Signed w) :
    IsName (w.dropWhile fun c => !isNameStart c) := by
  obtain ⟨signs, name, rfl, hsigns, hname⟩ := h
  rw [List.dropWhile_append_of_pos fun c hc => by simp [hsigns c hc]]
  exact fun c hc => hname c ((List.dropWhile_sublist _).subset hc)

/-- Reading a name: the text starts like a name and goes on like one. -/
theorem reads_identifier {u v : MatchState} (h : Pattern.identifier.Fits u v) :
    ∃ c rest, isNameStart c = true ∧ (∀ x ∈ rest, isNamePart x = true) ∧
      u.cursor.Reads (c :: rest) v.cursor := by
  cases h with
  | seq hone hmany =>
      obtain ⟨c, hc, hreadc⟩ := fits_one hone
      obtain ⟨rest, hrest, hread⟩ := fits_many hmany
      exact ⟨c, rest, hc, hrest, hreadc.trans hread⟩

/-- What a sign that may be left out reads. -/
theorem reads_opt_char {c : Char} {u v : MatchState} (h : (opt (char c)).Fits u v) :
    ∃ w, (∀ x ∈ w, x = c) ∧ u.cursor.Reads w v.cursor := by
  obtain ⟨w, hw, htake⟩ := h.reads
  refine ⟨w, fun x hx => ?_, hw⟩
  simpa [opt, char, mayTake] using htake x hx

/-- **The name of a method** stands behind a star, a gap and a hash, each of which may be missing. -/
theorem exists_group_methodHead_eq {m : Match} (h : methodHead.Makes m) :
    ∃ star gap hash c rest, m.group 2 = star ++ (gap ++ (hash ++ c :: rest)) ∧
      (∀ x ∈ star, x = '*') ∧ (∀ x ∈ gap, isGap x = true) ∧ (∀ x ∈ hash, x = '#') ∧
      isNameStart c = true ∧ ∀ x ∈ rest, isNamePart x = true := by
  obtain ⟨q, hq, u, v, hfits, hreads⟩ := h.took_group (n := 2) rfl
  obtain rfl := List.mem_singleton.mp hq
  simp only [fits_all_cons] at hfits
  obtain ⟨t₁, h₁, t₂, h₂, t₃, h₃, t₄, h₄, hend⟩ := hfits
  cases hend
  obtain ⟨star, hstar, hread₁⟩ := reads_opt_char h₁
  obtain ⟨gap, hgap, hread₂⟩ := fits_many h₂
  obtain ⟨hash, hhash, hread₃⟩ := reads_opt_char h₃
  obtain ⟨c, rest, hc, hrest, hread₄⟩ := reads_identifier h₄
  refine ⟨star, gap, hash, c, rest, ?_, hstar, hgap, hhash, hc, hrest⟩
  rw [← hreads.between_eq, (hread₁.trans (hread₂.trans (hread₃.trans hread₄))).between_eq]

/-- **The name of a field** stands behind a hash, which may be missing. -/
theorem exists_group_fieldArrow_eq {m : Match} (h : fieldArrow.Makes m) :
    ∃ hash c rest, m.group 2 = hash ++ c :: rest ∧ (∀ x ∈ hash, x = '#') ∧
      isNameStart c = true ∧ ∀ x ∈ rest, isNamePart x = true := by
  obtain ⟨q, hq, u, v, hfits, hreads⟩ := h.took_group (n := 2) rfl
  obtain rfl := List.mem_singleton.mp hq
  cases hfits with
  | seq hsign hname =>
      obtain ⟨hash, hhash, hread₁⟩ := reads_opt_char hsign
      obtain ⟨c, rest, hc, hrest, hread₂⟩ := reads_identifier hname
      refine ⟨hash, c, rest, ?_, hhash, hc, hrest⟩
      rw [← hreads.between_eq, (hread₁.trans hread₂).between_eq]

theorem eq_of_isGap {c : Char} (h : isGap c = true) : c = ' ' ∨ c = '\t' := by
  simpa [isGap] using h

/-- No sign can start a name. -/
theorem isNameStart_eq_false_of_mem_signs {star gap hash : Text} (hstar : ∀ x ∈ star, x = '*')
    (hgap : ∀ x ∈ gap, isGap x = true) (hhash : ∀ x ∈ hash, x = '#') :
    ∀ x ∈ star ++ (gap ++ hash), isNameStart x = false := by
  intro x hx
  rw [List.mem_append, List.mem_append] at hx
  rcases hx with hx | hx | hx
  · rw [hstar x hx]
    decide
  · rcases eq_of_isGap (hgap x hx) with rfl | rfl <;> decide
  · rw [hhash x hx]
    decide

theorem isName_cons {c : Char} {rest : Text} (hc : isNameStart c = true)
    (hrest : ∀ x ∈ rest, isNamePart x = true) : IsName (c :: rest) := by
  refine List.forall_mem_cons.mpr ⟨isNameChar_of_isNameStart hc, fun x hx => ?_⟩
  rw [isNameChar, hrest x hx, Bool.true_or]

theorem signed_group_methodHead {m : Match} (h : methodHead.Makes m) : Signed (m.group 2) := by
  obtain ⟨star, gap, hash, c, rest, heq, hstar, hgap, hhash, hc, hrest⟩ :=
    exists_group_methodHead_eq h
  refine ⟨star ++ (gap ++ hash), c :: rest, ?_, isNameStart_eq_false_of_mem_signs hstar hgap hhash,
    isName_cons hc hrest⟩
  rw [heq, List.append_assoc, List.append_assoc]

theorem signed_group_fieldArrow {m : Match} (h : fieldArrow.Makes m) : Signed (m.group 2) := by
  obtain ⟨hash, c, rest, heq, hhash, hc, hrest⟩ := exists_group_fieldArrow_eq h
  refine ⟨hash, c :: rest, heq, fun x hx => ?_, isName_cons hc hrest⟩
  rw [hhash x hx]
  decide

/-! ## Scripts -/

theorem run_addModule {m : Match} (h : moduleHead.Makes m) (s : Scan) :
    Run Extent.IsScriptBody s (addModule s m) :=
  Run.define_addContainer ⟨by simp, h.isName_group takesName_dottedName rfl⟩ rfl
    fun _ => Match.start_le_of_mem (h.start_lt_stop rfl)

theorem run_addExtends {s : Scan} {x : Option Definition} (hx : ∀ y ∈ x, y ∈ s.definitions)
    (clauses : Text) : Run Extent.IsScriptBody s (addExtends s x clauses) := by
  unfold addExtends
  split
  · exact Run.addHeritage hx _ _
  · exact Run.refl s

theorem run_addImplements {s : Scan} {x : Option Definition} (hx : ∀ y ∈ x, y ∈ s.definitions)
    (clauses : Text) : Run Extent.IsScriptBody s (addImplements s x clauses) := by
  unfold addImplements
  split
  · exact Run.addHeritage hx _ _
  · exact Run.refl s

theorem addExtends_definitions (s : Scan) (x : Option Definition) (clauses : Text) :
    (addExtends s x clauses).definitions = s.definitions := by
  unfold addExtends
  split
  · exact addHeritage_definitions s x _ _
  · rfl

theorem run_addMethod {m : Match} (h : methodHead.Makes m) (first : Nat) (s : Scan) :
    Run Extent.IsScriptBody s (addMethod first s m) := by
  simp only [addMethod]
  split
  · exact Run.refl s
  · refine Run.define_addScope ⟨?_, (signed_group_methodHead h).isName_dropWhile⟩
      (Or.inl (bodyAfter_isBlock s.outline _))
    split_ifs <;> simp

theorem run_addFieldArrow {m : Match} (h : fieldArrow.Makes m) (first : Nat) (s : Scan) :
    Run Extent.IsScriptBody s (addFieldArrow first s m) := by
  simp only [addFieldArrow]
  split
  · exact Run.refl s
  · split
    · exact Run.refl s
    · next body hbody =>
      exact Run.define_addScope ⟨by simp, (signed_group_fieldArrow h).isName_dropWhile⟩
        (arrowBody?_isScriptBody hbody)

theorem run_addMembers (s : Scan) (first last : Nat) :
    Run Extent.IsScriptBody s (addMembers s first last) := by
  refine Run.foldl ?_ fun m hm => run_addFieldArrow (makes_of_mem_findAllIn hm) first
  exact Run.foldl (Run.refl s) fun m hm => run_addMethod (makes_of_mem_findAllIn hm) first

theorem run_addClass {m : Match} (h : classHead.Makes m) (s : Scan) :
    Run Extent.IsScriptBody s (addClass s m) := by
  simp only [addClass]
  split
  · exact Run.refl s
  · set d : Sighting :=
      { label := .classType, name := m.group 2, start := m.start
        finish := some (Bracket.braceEnd s.outline (m.stop - 1))
        isExported := m.hasGroup 1, nameAt := some (m.groupStart 2) }
    set s₁ := (s.define d).1.addContainer (s.define d).2
      ⟨some (m.stop - 1), Bracket.braceEnd s.outline (m.stop - 1)⟩ with hs₁
    have hbody : Run Extent.IsScriptBody s s₁ :=
      Run.define_addContainer ⟨by simp [d], h.isName_group takesName_identifier rfl⟩ rfl
        fun _ => Match.start_le_of_mem (h.start_lt_stop rfl)
    -- The class is on record from here on, so parents may be added to it.
    have hx : ∀ y ∈ (s.define d).2, y ∈ s₁.definitions := by
      intro y hy
      rw [hs₁, addContainer_definitions]
      exact mem_definitions_of_define hy
    set clauses := Bracket.stripGenerics (m.group 3)
    have hx' : ∀ y ∈ (s.define d).2, y ∈ (addExtends s₁ (s.define d).2 clauses).definitions := by
      intro y hy
      rw [addExtends_definitions]
      exact hx y hy
    have hparents :=
      hbody.trans ((run_addExtends hx clauses).trans (run_addImplements hx' clauses))
    split
    · exact hparents.trans (run_addMembers _ _ _)
    · exact hparents

theorem run_addInterface {m : Match} (h : interfaceHead.Makes m) (s : Scan) :
    Run Extent.IsScriptBody s (addInterface s m) := by
  have hname : IsName (m.group 2) := h.isName_group takesName_identifier rfl
  refine (Run.define ⟨by simp, hname⟩).trans (run_addExtends (fun y hy => ?_) _)
  exact mem_definitions_of_define hy

theorem run_addEnum {m : Match} (h : enumHead.Makes m) (s : Scan) :
    Run Extent.IsScriptBody s (addEnum s m) :=
  Run.define ⟨by simp, h.isName_group takesName_identifier rfl⟩

theorem run_addFunction {m : Match} (h : functionHead.Makes m) (s : Scan) :
    Run Extent.IsScriptBody s (addFunction s m) :=
  Run.define_addScope ⟨by simp, h.isName_group takesName_identifier rfl⟩
    (Or.inl (bodyAfter_isBlock s.outline _))

theorem run_addVariableFunction {m : Match} (h : variableFunction.Makes m) (s : Scan) :
    Run Extent.IsScriptBody s (addVariableFunction s m) := by
  unfold addVariableFunction
  split
  · exact Run.refl s
  · next body hbody =>
    exact Run.define_addScope ⟨by simp, h.isName_group takesName_identifier rfl⟩
      (variableBody?_isScriptBody hbody)

/-- **Scanning a script is a run**, and its bodies are blocks and expressions. -/
theorem run_scan (path code outline : Text) :
    Run Extent.IsScriptBody { path := path, code := code, outline := outline }
      (scan path code outline) := by
  unfold scan
  refine Run.foldl ?_ fun m hm => run_addVariableFunction (makes_of_mem_findAll hm)
  refine Run.foldl ?_ fun m hm => run_addFunction (makes_of_mem_findAll hm)
  refine Run.foldl ?_ fun m hm => run_addEnum (makes_of_mem_findAll hm)
  refine Run.foldl ?_ fun m hm => run_addInterface (makes_of_mem_findAll hm)
  refine Run.foldl ?_ fun m hm => run_addClass (makes_of_mem_findAll hm)
  refine Run.foldl ?_ fun m hm => run_addModule (makes_of_mem_findAll hm)
  refine Run.foldl (Run.refl _) fun p _ s => ?_
  exact Run.foldl (Run.refl s) fun m _ s => Run.single (.addImport s (m.group 1))

end Script

/-! ## Both scanners -/

namespace Language

/-- How comments and literals look in a language. -/
def commentStyle : Language → CommentStyle
  | solidity => .cFamily
  | javascript | typescript => .script

/-- The record of a file when all passes are done. -/
def scan (l : Language) (path source : Text) : Scan :=
  match l with
  | solidity => Solidity.scan path (l.commentStyle.code source) (l.commentStyle.outline source)
  | javascript | typescript =>
    Script.scan path (l.commentStyle.code source) (l.commentStyle.outline source)

/-- What calls outside of all bodies belong to. -/
def topLevel (l : Language) (path : Text) : Option Text :=
  match l with
  | solidity => none
  | javascript | typescript => some (Identity.ofFile path)

/-- The bodies that calls are attributed to. -/
def Body : Language → Text → Extent → Prop
  | solidity => Extent.IsBlock
  | javascript | typescript => Extent.IsScriptBody

theorem extract_eq (l : Language) (path source : Text) :
    l.extract path source = (l.scan path source).result (some l)
      ((l.scan path source).calls l.callExclusions (l.topLevel path)) := by
  cases l <;> rfl

theorem run_scan (l : Language) (path source : Text) :
    Scan.Run l.Body
      { path := path, code := l.commentStyle.code source
        outline := l.commentStyle.outline source } (l.scan path source) := by
  cases l with
  | solidity => exact Solidity.run_scan path _ _
  | javascript => exact Script.run_scan path _ _
  | typescript => exact Script.run_scan path _ _

theorem path_scan (l : Language) (path source : Text) : (l.scan path source).path = path :=
  (l.run_scan path source).invariant (P := fun s => s.path = path)
    (fun hstep hs => hstep.path_eq.trans hs) rfl

end Language

end CodeAtlas
