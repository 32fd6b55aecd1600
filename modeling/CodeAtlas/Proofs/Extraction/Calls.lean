import CodeAtlas.Proofs.Bracket.Nesting
import CodeAtlas.Proofs.Extraction.Passes

set_option autoImplicit false

/-! # Calls belong to the innermost body

A call is attributed to the body that opens last among those that hold its site. This body is the
innermost one, that is, it lies within all the others, because bodies do not cross: one that opens
within another ends within it (`Language.last_le_of_body`). Bodies are of two kinds, blocks and
expressions. Two of one kind never cross; a block and an expression do not on a text with properly
nested brackets, which is why scripts, and only scripts, need that assumption.

`Scan.Attributed` says what becomes of a site, without reference to the order in which bodies were
recorded or to how the innermost one is found.
-/

namespace CodeAtlas

/-! ## Bodies do not cross -/

namespace Extent

theorem IsBlock.ends {t : Text} {i m : Nat} (h : IsBlock t ⟨some i, m⟩) :
    t[i]? = some '\x7b' ∧ m = Bracket.braceEnd t i := h i rfl

theorem IsExpression.ends {t : Text} {i m : Nat} (h : IsExpression t ⟨some i, m⟩) :
    t[i]? ≠ some '\x7b' ∧ m = Bracket.expressionEnd t (i + 1) := h i rfl

/-- A block that opens within a block ends within it. -/
theorem IsBlock.last_le {t : Text} {i j m n : Nat} (hi : IsBlock t ⟨some i, m⟩)
    (hj : IsBlock t ⟨some j, n⟩) (hij : i ≤ j) (hjm : j < m) : n ≤ m := by
  obtain ⟨hopen, rfl⟩ := hi.ends
  obtain ⟨hopen', rfl⟩ := hj.ends
  rcases Nat.eq_or_lt_of_le hij with rfl | hlt
  · exact Nat.le_refl _
  · have hne : '\x7b' ≠ '\x7d' := by decide
    rcases Bracket.blockEnd_lt_or_le hne hopen hopen' hlt with hclosed | hle
    · exact absurd hclosed (Nat.lt_asymm hjm)
    · exact hle

/-- An expression that opens within an expression ends within it. -/
theorem IsExpression.last_le {t : Text} {i j m n : Nat} (hi : IsExpression t ⟨some i, m⟩)
    (hj : IsExpression t ⟨some j, n⟩) (hij : i ≤ j) (hjm : j < m) : n ≤ m := by
  obtain ⟨-, rfl⟩ := hi.ends
  obtain ⟨-, rfl⟩ := hj.ends
  -- The expression starts one position after it opens, still within the text.
  have hlength := Bracket.expressionEnd_le_length t (i + 1)
  exact Bracket.expressionEnd_mono (by omega) (by omega) (by omega)

/-- A body of a script that opens within another ends within it, if all brackets are nested. -/
theorem IsScriptBody.last_le {t : Text} (ht : Bracket.Nested t) {i j m n : Nat}
    (hi : IsScriptBody t ⟨some i, m⟩) (hj : IsScriptBody t ⟨some j, n⟩) (hij : i ≤ j)
    (hjm : j < m) : n ≤ m := by
  rcases hi with hi | hi <;> rcases hj with hj | hj
  · exact hi.last_le hj hij hjm
  · -- An expression in a block.
    obtain ⟨hopen, rfl⟩ := hi.ends
    obtain ⟨-, rfl⟩ := hj.ends
    exact ht.expressionEnd_le_braceEnd hopen (by omega) (by omega)
  · -- A block in an expression. It opens at a brace, so it does not open where the other does.
    obtain ⟨hopen, rfl⟩ := hi.ends
    obtain ⟨hopen', rfl⟩ := hj.ends
    have hne : i ≠ j := by
      rintro rfl
      exact hopen hopen'
    exact ht.braceEnd_le_expressionEnd hopen' (by omega) (by omega)
  · exact hi.last_le hj hij hjm

end Extent

/-- **Bodies do not cross.** In Solidity this holds of every text, in scripts of those whose brackets
are nested. -/
theorem Language.last_le_of_body {l : Language} {t : Text} (ht : l ≠ .solidity → Bracket.Nested t)
    {i j m n : Nat} (hi : l.Body t ⟨some i, m⟩) (hj : l.Body t ⟨some j, n⟩) (hij : i ≤ j)
    (hjm : j < m) : n ≤ m := by
  cases l with
  | solidity => exact Extent.IsBlock.last_le hi hj hij hjm
  | javascript => exact Extent.IsScriptBody.last_le (ht (by decide)) hi hj hij hjm
  | typescript => exact Extent.IsScriptBody.last_le (ht (by decide)) hi hj hij hjm

/-! ## The bodies on record -/

/-- The region lies within the other. -/
def Region.Within (r r' : Region) : Prop := r'.first ≤ r.first ∧ r.last ≤ r'.last

namespace Scan

/-- What is true of the bodies that calls are attributed to, at every point of a scan of a text. -/
structure Scoped (Body : Text → Extent → Prop) (outline : Text) (s : Scan) : Prop where
  outline_eq : s.outline = outline
  definition_mem : ∀ r ∈ s.scopes, r.definition ∈ s.definitions
  body : ∀ r ∈ s.scopes, Body outline ⟨some r.first, r.last⟩

/-- Every step keeps the bodies in order. -/
theorem Scoped.step {Body : Text → Extent → Prop} {outline : Text} {s t : Scan}
    (hstep : Step Body s t) (h : s.Scoped Body outline) : t.Scoped Body outline := by
  cases hstep with
  | addImport path =>
      simp only [Scan.addImport]
      split
      · exact h
      · exact { h with }
  | @define d hd =>
      by_cases hseen : (d.label, d.name, d.start) ∈ s.seen
      · rwa [define_of_seen hseen]
      · rw [define_of_not_seen hseen]
        exact { h with definition_mem := fun r hr => List.mem_append_left _ (h.definition_mem r hr) }
  | addContainer hx e =>
      unfold Scan.addContainer
      split
      · exact { h with }
      · exact h
  | @addScope x hx e he =>
      unfold Scan.addScope
      split
      · next y i hy hi =>
        obtain rfl := Option.some_inj.mp hy
        split
        · refine { h with definition_mem := fun r hr => ?_, body := fun r hr => ?_ }
          · rcases List.mem_append.mp hr with hr | hr
            · exact h.definition_mem r hr
            · obtain rfl := List.mem_singleton.mp hr
              exact hx
          · rcases List.mem_append.mp hr with hr | hr
            · exact h.body r hr
            · obtain rfl := List.mem_singleton.mp hr
              rw [h.outline_eq] at he
              rwa [← hi]
        · exact h
      · exact h
  | addHeritage hx clauses kind => exact { h with }

/-! ## Sites -/

/-- A site is no call if a definition has its name there, or if its name is an excluded word. -/
def isCallSite (s : Scan) (exclusions : List Text) (m : Match) : Bool :=
  !(s.nameOffsets.contains (m.groupStart 1 : Int) || exclusions.contains (m.group 1))

/-- **What becomes of a call site.** If bodies hold it, then it belongs to the definition of one that
lies within all of them, and it is dropped if this is what it calls. A site outside of all bodies
belongs to `topLevel`, and is dropped if there is none. -/
inductive Attributed (s : Scan) (topLevel : Option Text) (m : Match) : Option Call → Prop where
  | inside {r : Region} (hr : r ∈ s.scopes) (hdefinition : r.definition ∈ s.definitions)
      (hsite : r.contains (m.groupStart 1) = true)
      (hinner : ∀ r' ∈ s.scopes, r'.contains (m.groupStart 1) = true → r.Within r') :
      Attributed s topLevel m
        (if m.group 1 = r.definition.name then none else some ⟨m.group 1, r.definition.id⟩)
  | outside (hsite : ∀ r ∈ s.scopes, r.contains (m.groupStart 1) = false) :
      Attributed s topLevel m (topLevel.map fun id => ⟨m.group 1, id⟩)

/-- What the scan makes of a call site. -/
def outcome (s : Scan) (topLevel : Option Text) (m : Match) : Option Call :=
  match Region.innermost (s.scopes.filter (·.contains (m.groupStart 1))) with
  | some r => if m.group 1 == r.definition.name then none else some ⟨m.group 1, r.definition.id⟩
  | none => topLevel.map fun id => ⟨m.group 1, id⟩

theorem callAt_eq (s : Scan) (exclusions : List Text) (topLevel : Option Text) (m : Match) :
    s.callAt exclusions topLevel m
      = if s.isCallSite exclusions m then s.outcome topLevel m else none := by
  cases hother : s.nameOffsets.contains (m.groupStart 1 : Int) || exclusions.contains (m.group 1) with
  | true =>
      have hsite : s.isCallSite exclusions m = false := by rw [isCallSite, hother, Bool.not_true]
      rw [hsite, callAt, if_pos hother]
      rfl
  | false =>
      have hsite : s.isCallSite exclusions m = true := by rw [isCallSite, hother, Bool.not_false]
      rw [hsite, callAt, if_neg (by rw [hother]; decide)]
      rfl

theorem calls_eq (s : Scan) (exclusions : List Text) (topLevel : Option Text) :
    s.calls exclusions topLevel
      = (((Pattern.callSite.findAll s.outline).filter (s.isCallSite exclusions)).map
          (s.outcome topLevel)).reduceOption := by
  have hcallAt : s.callAt exclusions topLevel
      = fun m => if s.isCallSite exclusions m then s.outcome topLevel m else none :=
    funext (s.callAt_eq exclusions topLevel)
  show _ = (((Pattern.callSite.findAll s.outline).filter (s.isCallSite exclusions)).map
    (s.outcome topLevel)).filterMap id
  rw [calls, hcallAt, List.filterMap_map, List.filterMap_filter]
  rfl

end Scan

namespace Language

theorem scoped_scan (l : Language) (path source : Text) :
    (l.scan path source).Scoped l.Body (l.commentStyle.outline source) :=
  (l.run_scan path source).invariant Scan.Scoped.step ⟨rfl, by simp, by simp⟩

/-- Of the bodies that hold a position the one that opens last lies within all of them. -/
theorem within_of_contains {l : Language} {path source : Text}
    (h : l ≠ .solidity → Bracket.Nested (l.commentStyle.outline source)) {r r' : Region}
    (hr : r ∈ (l.scan path source).scopes) (hr' : r' ∈ (l.scan path source).scopes) {index : Int}
    (hsite : r.contains index = true) (hsite' : r'.contains index = true)
    (hfirst : r'.first ≤ r.first) : r.Within r' := by
  have hscoped := l.scoped_scan path source
  simp only [Region.contains, Bool.and_eq_true, decide_eq_true_eq] at hsite hsite'
  -- The position lies behind the opening of the one and not behind the end of the other.
  have hopen : r.first < r'.last := by omega
  exact ⟨hfirst, last_le_of_body h (hscoped.body r' hr') (hscoped.body r hr) hfirst hopen⟩

theorem attributed_outcome {l : Language} {path source : Text}
    (h : l ≠ .solidity → Bracket.Nested (l.commentStyle.outline source)) (topLevel : Option Text)
    (m : Match) :
    (l.scan path source).Attributed topLevel m ((l.scan path source).outcome topLevel m) := by
  unfold Scan.outcome
  split
  · next r hr =>
    obtain ⟨hmem, hlatest⟩ := Region.innermost_eq_some hr
    obtain ⟨hscope, hsite⟩ := List.mem_filter.mp hmem
    simp only [beq_iff_eq]
    refine .inside hscope ((l.scoped_scan path source).definition_mem r hscope) hsite ?_
    intro r' hr' hsite'
    have hfirst := hlatest r' (List.mem_filter.mpr ⟨hr', hsite'⟩)
    exact within_of_contains h hscope hr' hsite hsite' hfirst
  · next hnone =>
    refine .outside fun r hr => ?_
    have hempty := Region.innermost_eq_none_iff.mp hnone
    rw [List.filter_eq_nil_iff] at hempty
    exact Bool.eq_false_iff.mpr (hempty r hr)

end Language

/-! ## Sites in text order -/

/-- A call site starts with the name that is called. -/
theorem Pattern.groupStart_callSite {m : Match} (h : callSite.Makes m) :
    m.groupStart 1 = m.start := by
  obtain ⟨t, hfits, -, hgroups⟩ := h
  simp only [callSite, fits_all_cons] at hfits
  obtain ⟨t₁, h₁, t₂, h₂, t₃, h₃, t₄, h₄, hend⟩ := hfits
  cases hend
  -- The name is remembered first, and what follows it remembers nothing.
  have hname : t₂.groups.lookup 1 = some (m.first, t₂.cursor) := by
    cases h₁
    cases h₂
    rfl
  have hblanks : t₃.groups = t₂.groups := by
    cases h₃
    rfl
  have hparen : t.groups = t₃.groups := by
    cases h₄
    rfl
  rw [Match.groupStart, Match.span?, hgroups, hparen, hblanks, hname]
  rfl

theorem Pattern.pairwise_callSite (t : Text) :
    (callSite.findAll t).Pairwise fun m m' => m.groupStart 1 < m'.groupStart 1 := by
  refine (pairwise_findAll callSite t).imp_of_mem fun {m m'} hm hm' hlt => ?_
  rwa [groupStart_callSite (makes_of_mem_findAll hm), groupStart_callSite (makes_of_mem_findAll hm')]

namespace Language

/-- The call sites of a file, in text order. -/
def callSites (l : Language) (path source : Text) : List Match :=
  (Pattern.callSite.findAll (l.commentStyle.outline source)).filter
    ((l.scan path source).isCallSite l.callExclusions)

/-- **Calls belong to the innermost body.** The calls of a file are what becomes of its call sites,
one after another in text order: each belongs to the definition of a body that lies within all bodies
around the site. -/
theorem calls_attributed (l : Language) (path source : Text)
    (h : l ≠ .solidity → Bracket.Nested (l.commentStyle.outline source)) :
    (l.callSites path source).Pairwise (fun m m' => m.groupStart 1 < m'.groupStart 1) ∧
      ∃ outcomes,
        List.Forall₂ ((l.scan path source).Attributed (l.topLevel path)) (l.callSites path source)
          outcomes ∧
        (l.extract path source).calls = outcomes.reduceOption := by
  have hcalls := (l.scan path source).calls_eq l.callExclusions (l.topLevel path)
  rw [(l.scoped_scan path source).outline_eq] at hcalls
  refine ⟨(Pattern.pairwise_callSite _).filter _,
    (l.callSites path source).map ((l.scan path source).outcome (l.topLevel path)), ?_, ?_⟩
  · rw [List.forall₂_map_right_iff, List.forall₂_same]
    exact fun m _ => attributed_outcome h (l.topLevel path) m
  · rw [extract_eq]
    exact hcalls

/-- An arrow function with an expression for a body, in a block that calls itself at its end. -/
def arrowSource : Text := "function f()\x7bconst g=()=>h(f());g();f()\x7df()".toList

theorem calls_attributed_arrow :
    Bracket.Nested (javascript.commentStyle.outline arrowSource) ∧
      (javascript.callSites "a.js".toList arrowSource).Pairwise
        (fun m m' => m.groupStart 1 < m'.groupStart 1) ∧
      ∃ outcomes,
        List.Forall₂ ((javascript.scan "a.js".toList arrowSource).Attributed
          (javascript.topLevel "a.js".toList)) (javascript.callSites "a.js".toList arrowSource)
          outcomes ∧
        (javascript.extract "a.js".toList arrowSource).calls = outcomes.reduceOption := by
  have hnested : Bracket.Nested (javascript.commentStyle.outline arrowSource) := by decide +kernel
  exact ⟨hnested, calls_attributed javascript "a.js".toList arrowSource fun _ => hnested⟩

end Language

end CodeAtlas
