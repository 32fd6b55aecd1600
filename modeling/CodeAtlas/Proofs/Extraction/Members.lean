import CodeAtlas.Proofs.Extraction.Calls
import CodeAtlas.Proofs.Extraction.Order
import CodeAtlas.Proofs.Text.Lines

set_option autoImplicit false

/-! # Members end within their owners

A member starts directly in the block of its owner, but where its body lies is found by reading on
through the whole text. A method that is declared without a body and without a semicolon therefore
takes the next body there is, which may be that of a function behind the class
(`Language.member_beyond_owner`).

Reading beyond the closing brace of the owner is the only way for a member to end behind it. The
*reach* of a member is the brace that opens its body or, without one, its end. If the block around
the start of the member is still open at its reach (`Bracket.StaysOpen`, which looks at braces
alone), the member ends within its owner and no call behind the owner belongs to it
(`Language.keepsWithin_owner`).

`Language.heads` lists where the definitions of a file may start and what body each has. The
invariant of a scan is `Scan.Extended`: definitions and scopes end where a head that starts with them
ends, and an owner is a container that holds the start of what it owns directly.
-/

namespace CodeAtlas

/-! ## Blocks that stay open -/

namespace Bracket

/-- A block that is open at position `i` is still open at position `j`. -/
def StaysOpen (t : Text) (i j : Nat) : Prop :=
  i ≤ j ∧ j < t.length ∧ closing? '\x7b' '\x7d' 1 i ((t.take j).drop i) = none

instance (t : Text) (i j : Nat) : Decidable (StaysOpen t i j) :=
  inferInstanceAs (Decidable (_ ∧ _ ∧ _))

theorem drop_eq_take_drop_append {t : Text} {i j : Nat} (hij : i ≤ j) (hj : j ≤ t.length) :
    t.drop i = (t.take j).drop i ++ t.drop j := by
  have hlength : i ≤ (t.take j).length := by
    rw [List.length_take]
    omega
  rw [← List.drop_append_of_le_length hlength, List.take_append_drop]

theorem depthBetween_eq_balance {t : Text} {i j : Nat} (hi : i ≤ t.length) (hj : j ≤ t.length) :
    depthBetween t i j = balance '\x7b' '\x7d' ((t.take j).drop i) := by
  have hplace : ∀ {n : Nat}, n ≤ t.length → place t.length (n : Int) = n := by
    intro n hn
    simp [place, hn]
  rw [depthBetween, balance, slice, hplace hi, hplace hj]

/-- At a position that stands directly in a block, the rest of the block is read from depth one. -/
theorem braceEnd_eq_of_depthBetween {t : Text} {k i : Nat} (hk : t[k]? = some '\x7b') (hki : k < i)
    (hi : i ≤ braceEnd t k) (hdepth : depthBetween t ((k : Int) + 1) i = 0) :
    braceEnd t k = (closing? '\x7b' '\x7d' 1 i (t.drop i)).getD (t.length - 1) := by
  have hklt : k < t.length := (List.getElem?_eq_some_iff.mp hk).1
  have hilt : i ≤ t.length := by
    have hle : braceEnd t k ≤ t.length - 1 := blockEnd_le_length t k
    omega
  set u := (t.take i).drop (k + 1) with hu
  have hlength : k + 1 + u.length = i := by
    rw [hu, List.length_drop, List.length_take]
    omega
  have hbalance : balance '\x7b' '\x7d' u = 0 := by
    rw [← hdepth, hu, ← depthBetween_eq_balance (by omega) hilt]
    rfl
  have hread : closing? '\x7b' '\x7d' 0 k (t.drop k)
      = (closing? '\x7b' '\x7d' 1 (k + 1) u).or (closing? '\x7b' '\x7d' 1 i (t.drop i)) := by
    rw [closing?_drop_opener hk, drop_eq_take_drop_append (by omega : k + 1 ≤ i) hilt,
      closing?_append (by decide), hbalance, hlength]
    rfl
  unfold braceEnd blockEnd at hi ⊢
  rw [hread] at hi ⊢
  cases hclosed : closing? '\x7b' '\x7d' 1 (k + 1) u with
  | none => rfl
  | some e =>
      -- The block would end before the position.
      have hbounds := closing?_bounds hclosed
      rw [hclosed, Option.some_or, Option.getD_some] at hi
      omega

/-- A block stays open no longer than it lasts. -/
theorem StaysOpen.le_braceEnd {t : Text} {k i j : Nat} (h : StaysOpen t i j)
    (hk : t[k]? = some '\x7b') (hki : k < i) (hi : i ≤ braceEnd t k)
    (hdepth : depthBetween t ((k : Int) + 1) i = 0) : j ≤ braceEnd t k := by
  obtain ⟨hij, hj, hopen⟩ := h
  -- From `i` to `j` nothing closes the block, so its end is looked for from `j` on.
  rw [braceEnd_eq_of_depthBetween hk hki hi hdepth, drop_eq_take_drop_append hij hj.le,
    closing?_append (by decide), hopen, Option.none_or]
  have hlength : i + ((t.take j).drop i).length = j := by
    rw [List.length_drop, List.length_take]
    omega
  rw [hlength]
  cases hclosed : closing? '\x7b' '\x7d' (1 + balance '\x7b' '\x7d' ((t.take j).drop i)) j
      (t.drop j) with
  | none =>
      rw [Option.getD_none]
      omega
  | some e => exact (closing?_bounds hclosed).1

end Bracket

/-! ## Heads -/

namespace Extent

/-- A body that opens at a brace ends where the brace is closed. -/
def Closes (t : Text) (e : Extent) : Prop :=
  ∀ i, e.first = some i → t[i]? = some '\x7b' → e.last = Bracket.braceEnd t i

theorem IsBlock.closes {t : Text} {e : Extent} (h : e.IsBlock t) : e.Closes t :=
  fun i hi _ => (h i hi).2

theorem IsScriptBody.closes {t : Text} {e : Extent} (h : e.IsScriptBody t) : e.Closes t := by
  rcases h with hblock | hexpression
  · exact hblock.closes
  · exact fun i hi hbrace => absurd hbrace (hexpression i hi).1

/-- The brace that opens a body or, where no brace does, the end. -/
def reach (t : Text) (e : Extent) : Nat :=
  match e.first with
  | some i => if t[i]? = some '\x7b' then i else e.last
  | none => e.last

/-- **A body ends within a block that is open at its reach.** -/
theorem Closes.last_le {t : Text} {e : Extent} (h : e.Closes t) {k i : Nat}
    (hk : t[k]? = some '\x7b') (hki : k < i) (hi : i ≤ Bracket.braceEnd t k)
    (hdepth : Bracket.depthBetween t ((k : Int) + 1) i = 0)
    (hopen : Bracket.StaysOpen t i (e.reach t)) : e.last ≤ Bracket.braceEnd t k := by
  have hreach := hopen.le_braceEnd hk hki hi hdepth
  have hlater := hopen.1
  unfold reach at hreach hlater
  split at hreach
  · next j hj =>
    split at hreach
    · next hbrace =>
      -- The body is a block that opens within the other one.
      simp only [hj, if_pos hbrace] at hlater
      rw [h j hj hbrace]
      have hne : '\x7b' ≠ '\x7d' := by decide
      rcases Bracket.blockEnd_lt_or_le hne hk hbrace (by omega) with hclosed | hle
      · exact absurd hclosed (Nat.not_lt.mpr hreach)
      · exact hle
    · exact hreach
  · exact hreach

end Extent

/-- Where a definition may start, and the body it then has. -/
structure Head where
  start : Nat
  extent : Extent

namespace Head

/-- A head that ends in the brace that opens its block. -/
def block (t : Text) (m : Match) : Head :=
  ⟨m.start, ⟨some (m.stop - 1), Bracket.braceEnd t (m.stop - 1)⟩⟩

/-- A head with the body after it. -/
def plain (t : Text) (m : Match) : Head := ⟨m.start, bodyAfter t m.stop⟩

/-- A head that ends in the parenthesis that opens its parameters, with the body after these. -/
def parameters (t : Text) (m : Match) : Head :=
  ⟨m.start, bodyAfter t (Bracket.parenEnd t (m.stop - 1) + 1)⟩

theorem closes_block (t : Text) (m : Match) : (block t m).extent.Closes t := by
  intro i hi _
  obtain rfl := Option.some_inj.mp hi
  rfl

theorem isBlock_block {l : List Pattern} (hl : l.getLast? = some (Pattern.char '\x7b')) {t : Text}
    {m : Match} (h : m ∈ (Pattern.all l).findAll t) : (block t m).extent.IsBlock t := by
  intro i hi
  obtain rfl := Option.some_inj.mp hi
  exact ⟨Pattern.getElem?_of_mem_findAll hl h, rfl⟩

end Head

namespace Solidity

/-- The head of a container. -/
def containerHead (t : Text) (m : Match) : Head := ⟨m.start, containerExtent t m.stop⟩

/-- The head of an event or an error, which has no body and ends at its semicolon. -/
def eventHead (t : Text) (m : Match) : Head :=
  ⟨m.start, none, match Text.find? [';'] (t.drop m.stop) with
    | some j => m.stop + j
    | none => t.length - 1⟩

/-- The heads of a Solidity file, pass by pass. -/
def passHeads (t : Text) : List (List Head) :=
  [(container.findAll t).map (containerHead t),
    (structOrEnum.findAll t).map (Head.block t),
    (eventOrError.findAll t).map (eventHead t),
    (modifier.findAll t).map (Head.plain t),
    (function.findAll t).map (Head.parameters t),
    (constructor.findAll t).map (Head.plain t),
    (special.findAll t).map (Head.plain t)]

theorem containerExtent_isBlock (t : Text) (index : Nat) :
    (containerExtent t index).IsBlock t := by
  unfold containerExtent
  split
  · next hbrace =>
    intro i hi
    obtain rfl := Option.some_inj.mp hi
    rw [beq_iff_eq, List.head?_drop] at hbrace
    exact ⟨hbrace, rfl⟩
  · exact Extent.isBlock_of_first_eq_none rfl

theorem closes_of_mem_passHeads {t : Text} {l : List Head} (hl : l ∈ passHeads t) {g : Head}
    (hg : g ∈ l) : g.extent.Closes t := by
  simp only [passHeads, List.mem_cons, List.not_mem_nil, or_false] at hl
  rcases hl with rfl | rfl | rfl | rfl | rfl | rfl | rfl <;>
    obtain ⟨m, -, rfl⟩ := List.mem_map.mp hg
  · exact (containerExtent_isBlock t m.stop).closes
  · exact Head.closes_block t m
  · exact (Extent.isBlock_of_first_eq_none rfl).closes
  · exact (bodyAfter_isBlock t _).closes
  · exact (bodyAfter_isBlock t _).closes
  · exact (bodyAfter_isBlock t _).closes
  · exact (bodyAfter_isBlock t _).closes

end Solidity

namespace Script

/-- The position of the name of a member, with the signs before it passed over. -/
def memberNameAt (m : Match) : Nat :=
  m.groupStart 2 + ((m.group 2).length - ((m.group 2).dropWhile fun c => !isNameStart c).length)

/-- The head of a method, which starts with its name. -/
def memberHead (t : Text) (m : Match) : Head := ⟨memberNameAt m, (Head.parameters t m).extent⟩

/-- The head of a field, if it holds an arrow function. -/
def fieldHead? (t : Text) (m : Match) : Option Head :=
  (arrowBody? t (m.groupStart 3)).map fun e => ⟨memberNameAt m, e⟩

/-- The head of a variable, if it holds a function. -/
def variableHead? (t : Text) (m : Match) : Option Head :=
  (variableBody? t m).map fun e => ⟨m.start, e⟩

/-- The heads of what may be members of a class. -/
def memberHeads (t : Text) (m : Match) : List Head :=
  let first := m.stop - 1
  let last := Bracket.braceEnd t first
  (methodHead.findAllIn t (first + 1) last).map (memberHead t) ++
    (fieldArrow.findAllIn t (first + 1) last).filterMap (fieldHead? t)

/-- The heads of a script, pass by pass. -/
def passHeads (t : Text) : List (List Head) :=
  [(moduleHead.findAll t).map (Head.block t),
    (classHead.findAll t).map (Head.block t),
    (classHead.findAll t).flatMap (memberHeads t),
    (interfaceHead.findAll t).map (Head.block t),
    (enumHead.findAll t).map (Head.block t),
    (functionHead.findAll t).map (Head.parameters t),
    (variableFunction.findAll t).filterMap (variableHead? t)]

theorem closes_of_mem_memberHeads {t : Text} {m : Match} {g : Head} (h : g ∈ memberHeads t m) :
    g.extent.Closes t := by
  rcases List.mem_append.mp h with h | h
  · obtain ⟨m', -, rfl⟩ := List.mem_map.mp h
    exact (bodyAfter_isBlock t _).closes
  · obtain ⟨m', -, hbody⟩ := List.mem_filterMap.mp h
    obtain ⟨e, he, rfl⟩ := Option.map_eq_some_iff.mp hbody
    exact (arrowBody?_isScriptBody he).closes

theorem closes_of_mem_passHeads {t : Text} {l : List Head} (hl : l ∈ passHeads t) {g : Head}
    (hg : g ∈ l) : g.extent.Closes t := by
  simp only [passHeads, List.mem_cons, List.not_mem_nil, or_false] at hl
  rcases hl with rfl | rfl | rfl | rfl | rfl | rfl | rfl
  · obtain ⟨m, -, rfl⟩ := List.mem_map.mp hg
    exact Head.closes_block t m
  · obtain ⟨m, -, rfl⟩ := List.mem_map.mp hg
    exact Head.closes_block t m
  · obtain ⟨m, -, hmember⟩ := List.mem_flatMap.mp hg
    exact closes_of_mem_memberHeads hmember
  · obtain ⟨m, -, rfl⟩ := List.mem_map.mp hg
    exact Head.closes_block t m
  · obtain ⟨m, -, rfl⟩ := List.mem_map.mp hg
    exact Head.closes_block t m
  · obtain ⟨m, -, rfl⟩ := List.mem_map.mp hg
    exact (bodyAfter_isBlock t _).closes
  · obtain ⟨m, -, hbody⟩ := List.mem_filterMap.mp hg
    obtain ⟨e, he, rfl⟩ := Option.map_eq_some_iff.mp hbody
    exact (variableBody?_isScriptBody he).closes

end Script

/-! ## The invariant -/

/-- The sighting is that of a definition at the head. -/
def Sighting.IsAt (d : Sighting) (g : Head) : Prop :=
  d.start = g.start ∧ d.finish = some (g.extent.last : Int)

namespace Scan

/-- What is true of the ends of definitions and bodies at every point of a scan of a text. -/
structure Extended (t : Text) (heads : List Head) (s : Scan) : Prop where
  outline_eq : s.outline = t
  block : ∀ c ∈ s.containers, Extent.IsBlock t ⟨some c.first, c.last⟩
  container_end : ∀ c ∈ s.containers, c.definition.endLine = Text.lineOf t c.last
  scope_end : ∀ r ∈ s.scopes, ∃ g ∈ heads, (g.start : Int) = r.definition.start ∧
    r.last = g.extent.last
  definition_end : ∀ x ∈ s.definitions, ∃ g ∈ heads, (g.start : Int) = x.start ∧
    x.endLine = Text.lineOf t g.extent.last
  owner : ∀ x ∈ s.definitions, ∀ o, x.owner = some o → ∃ c ∈ s.containers, c.definition.id = o ∧
    c.contains x.start = true ∧ Bracket.depthBetween t (c.first + 1) x.start = 0

namespace Extended

variable {t : Text} {heads : List Head} {s : Scan}

theorem addImport (h : s.Extended t heads) (path : Text) : (s.addImport path).Extended t heads := by
  simp only [Scan.addImport]
  split
  · exact h
  · exact { h with }

theorem addHeritage (h : s.Extended t heads) (x : Option Definition) (clauses : List Text)
    (kind : HeritageKind) : (s.addHeritage x clauses kind).Extended t heads := by
  unfold Scan.addHeritage
  split
  · exact { h with }
  · exact h

theorem define (h : s.Extended t heads) {d : Sighting} {g : Head} (hg : g ∈ heads)
    (hd : d.IsAt g) : (s.define d).1.Extended t heads := by
  by_cases hseen : (d.label, d.name, d.start) ∈ s.seen
  · rwa [define_of_seen hseen]
  · rw [define_of_not_seen hseen]
    refine { h with definition_end := fun x hx => ?_, owner := fun x hx o ho => ?_ }
    · rcases List.mem_append.mp hx with hx | hx
      · exact h.definition_end x hx
      · obtain rfl := List.mem_singleton.mp hx
        refine ⟨g, hg, hd.1.symm, ?_⟩
        simp only [definitionOf, Scan.lineOf, hd.2, Option.getD_some, h.outline_eq]
    · rcases List.mem_append.mp hx with hx | hx
      · exact h.owner x hx o ho
      · -- The owner of a new definition is asked for at its start, as it is recorded.
        obtain rfl := List.mem_singleton.mp hx
        obtain ⟨c, hc, rfl⟩ := Option.map_eq_some_iff.mp ho
        obtain ⟨hmem, hcontains, hdepth⟩ := ownerOf_eq_some hc
        rw [h.outline_eq] at hdepth
        exact ⟨c, hmem, rfl, hcontains, hdepth⟩

theorem addContainer (h : s.Extended t heads) {x : Option Definition} {e : Extent}
    (he : e.IsBlock t) (hx : ∀ y ∈ x, y.endLine = Text.lineOf t e.last) :
    (s.addContainer x e).Extended t heads := by
  unfold Scan.addContainer
  split
  · next y i hi =>
    have hmem : ∀ {c : Region}, c ∈ s.containers ++ [⟨y, i, e.last⟩] →
        c ∈ s.containers ∨ c = ⟨y, i, e.last⟩ := by
      intro c hc
      simpa using hc
    refine { h with block := fun c hc => ?_, container_end := fun c hc => ?_, owner := ?_ }
    · rcases hmem hc with hc | rfl
      · exact h.block c hc
      · rwa [← hi]
    · rcases hmem hc with hc | rfl
      · exact h.container_end c hc
      · exact hx y rfl
    · intro z hz o ho
      obtain ⟨c, hc, hrest⟩ := h.owner z hz o ho
      exact ⟨c, List.mem_append_left _ hc, hrest⟩
  · exact h

theorem addScope (h : s.Extended t heads) {x : Option Definition} {g : Head} (hg : g ∈ heads)
    (hx : ∀ y ∈ x, y.start = g.start) : (s.addScope x g.extent).Extended t heads := by
  unfold Scan.addScope
  split
  · next y i hi =>
    split
    · refine { h with scope_end := fun r hr => ?_ }
      rcases List.mem_append.mp hr with hr | hr
      · exact h.scope_end r hr
      · obtain rfl := List.mem_singleton.mp hr
        exact ⟨g, hg, (hx y rfl).symm, rfl⟩
    · exact h
  · exact h

theorem define_addContainer (h : s.Extended t heads) {d : Sighting} {g : Head} (hg : g ∈ heads)
    (hd : d.IsAt g) (hblock : g.extent.IsBlock t) :
    ((s.define d).1.addContainer (s.define d).2 g.extent).Extended t heads := by
  refine (h.define hg hd).addContainer hblock fun y hy => ?_
  obtain rfl := eq_definitionOf_of_define hy
  simp only [definitionOf, Scan.lineOf, hd.2, Option.getD_some, h.outline_eq]

theorem define_addScope (h : s.Extended t heads) {d : Sighting} {g : Head} (hg : g ∈ heads)
    (hd : d.IsAt g) : ((s.define d).1.addScope (s.define d).2 g.extent).Extended t heads := by
  refine (h.define hg hd).addScope hg fun y hy => ?_
  obtain rfl := eq_definitionOf_of_define hy
  exact hd.1

end Extended

theorem extended_start (path code outline : Text) (heads : List Head) :
    Extended outline heads { path := path, code := code, outline := outline } := by
  constructor <;> simp

end Scan

/-! ## The passes keep it -/

namespace Solidity

open Scan

variable {t : Text} {heads : List Head} {s : Scan} {m : Match}

theorem extended_addContainer (h : s.Extended t heads)
    (hg : containerHead t m ∈ heads) : (addContainer s m).Extended t heads := by
  obtain rfl := h.outline_eq
  unfold addContainer
  split
  · exact h
  · have hbody := h.define_addContainer (d :=
      { label := containerLabel (m.group 1), name := m.group 2, start := m.start
        finish := some (containerExtent s.outline m.stop).last, nameAt := some (m.groupStart 2) })
      hg ⟨rfl, rfl⟩ (containerExtent_isBlock s.outline m.stop)
    cases hsearch : heritageClause.search? (m.group 3) with
    | none => exact hbody
    | some found => exact hbody.addHeritage _ _ _

theorem extended_addStructOrEnum (h : s.Extended t heads) (hm : m ∈ structOrEnum.findAll t)
    (hg : Head.block t m ∈ heads) : (addStructOrEnum s m).Extended t heads := by
  obtain rfl := h.outline_eq
  simp only [addStructOrEnum]
  split
  · exact h.define_addContainer hg ⟨rfl, rfl⟩ (Head.isBlock_block rfl hm)
  · exact h.define hg ⟨rfl, rfl⟩

/-- The end of an event as it is recorded. Without a semicolon it is the last position, and there is one,
since there is a match. -/
theorem eventHead_last_eq (hm : m ∈ eventOrError.findAll t) :
    (match Text.find? [';'] (t.drop m.stop) with
      | some j => (m.stop : Int) + j
      | none => (t.length : Int) - 1) = ((eventHead t m).extent.last : Int) := by
  have hpos : 1 ≤ t.length := by
    cases t with
    | nil => simp [Pattern.findAll, Pattern.scan] at hm
    | cons c rest => simp
  unfold eventHead
  cases Text.find? [';'] (t.drop m.stop) with
  | none => exact (Int.natCast_sub hpos).symm
  | some j => rfl

theorem extended_addEventOrError (h : s.Extended t heads) (hm : m ∈ eventOrError.findAll t)
    (hg : eventHead t m ∈ heads) : (addEventOrError s m).Extended t heads := by
  obtain rfl := h.outline_eq
  exact h.define hg ⟨rfl, congrArg some (eventHead_last_eq hm)⟩

theorem extended_addCallable (h : s.Extended t heads) {start headEnd : Nat}
    (hg : ⟨start, bodyAfter t headEnd⟩ ∈ heads) (label : Label) (name tail : Text) (nameAt : Nat) :
    (addCallable s label name start headEnd tail nameAt).Extended t heads := by
  obtain rfl := h.outline_eq
  exact h.define_addScope hg ⟨rfl, rfl⟩

theorem extended_addModifier (h : s.Extended t heads) (hg : Head.plain t m ∈ heads) :
    (addModifier s m).Extended t heads :=
  extended_addCallable h hg _ _ _ _

theorem extended_addFunction (h : s.Extended t heads) (hg : Head.parameters t m ∈ heads) :
    (addFunction s m).Extended t heads := by
  obtain rfl := h.outline_eq
  exact extended_addCallable h hg _ _ _ _

theorem extended_addConstructor (h : s.Extended t heads) (hg : Head.plain t m ∈ heads) :
    (addConstructor s m).Extended t heads :=
  extended_addCallable h hg _ _ _ _

theorem extended_addSpecial (h : s.Extended t heads) (hg : Head.plain t m ∈ heads) :
    (addSpecial s m).Extended t heads := by
  unfold addSpecial
  split
  · exact extended_addCallable h hg _ _ _ _
  · exact h

theorem extended_scan (path code outline : Text) :
    (scan path code outline).Extended outline (passHeads outline).flatten := by
  unfold scan
  refine List.foldlRecOn _ _ ?_ fun s h m hm => extended_addSpecial h
    (List.mem_flatten_of_mem (by simp [passHeads]) (List.mem_map_of_mem hm))
  refine List.foldlRecOn _ _ ?_ fun s h m hm => extended_addConstructor h
    (List.mem_flatten_of_mem (by simp [passHeads]) (List.mem_map_of_mem hm))
  refine List.foldlRecOn _ _ ?_ fun s h m hm => extended_addFunction h
    (List.mem_flatten_of_mem (by simp [passHeads]) (List.mem_map_of_mem hm))
  refine List.foldlRecOn _ _ ?_ fun s h m hm => extended_addModifier h
    (List.mem_flatten_of_mem (by simp [passHeads]) (List.mem_map_of_mem hm))
  refine List.foldlRecOn _ _ ?_ fun s h m hm => extended_addEventOrError h hm
    (List.mem_flatten_of_mem (by simp [passHeads]) (List.mem_map_of_mem hm))
  refine List.foldlRecOn _ _ ?_ fun s h m hm => extended_addStructOrEnum h hm
    (List.mem_flatten_of_mem (by simp [passHeads]) (List.mem_map_of_mem hm))
  refine List.foldlRecOn _ _ ?_ fun s h m hm => extended_addContainer h
    (List.mem_flatten_of_mem (by simp [passHeads]) (List.mem_map_of_mem hm))
  exact List.foldlRecOn _ _ (extended_start path code outline _) fun s h m _ =>
    h.addImport (m.group 1)

end Solidity

namespace Script

open Scan

variable {t : Text} {heads : List Head} {s : Scan} {m : Match}

theorem extended_addModule (h : s.Extended t heads) (hm : m ∈ moduleHead.findAll t)
    (hg : Head.block t m ∈ heads) : (addModule s m).Extended t heads := by
  obtain rfl := h.outline_eq
  exact h.define_addContainer hg ⟨rfl, rfl⟩ (Head.isBlock_block rfl hm)

theorem extended_addExtends (h : s.Extended t heads) (x : Option Definition) (clauses : Text) :
    (addExtends s x clauses).Extended t heads := by
  unfold addExtends
  split
  · exact h.addHeritage _ _ _
  · exact h

theorem extended_addImplements (h : s.Extended t heads) (x : Option Definition) (clauses : Text) :
    (addImplements s x clauses).Extended t heads := by
  unfold addImplements
  split
  · exact h.addHeritage _ _ _
  · exact h

theorem extended_addMethod (h : s.Extended t heads) (hg : memberHead t m ∈ heads) (first : Nat) :
    (addMethod first s m).Extended t heads := by
  obtain rfl := h.outline_eq
  simp only [addMethod]
  split
  · exact h
  · exact h.define_addScope hg ⟨rfl, rfl⟩

theorem extended_addFieldArrow (h : s.Extended t heads) (hg : ∀ g ∈ fieldHead? t m, g ∈ heads)
    (first : Nat) : (addFieldArrow first s m).Extended t heads := by
  obtain rfl := h.outline_eq
  simp only [addFieldArrow]
  split
  · exact h
  · split
    · exact h
    · next e he =>
      exact h.define_addScope (hg _ (Option.map_eq_some_iff.mpr ⟨e, he, rfl⟩)) ⟨rfl, rfl⟩

theorem extended_addMembers (h : s.Extended t heads) (hmembers : memberHeads t m ⊆ heads) :
    (addMembers s (m.stop - 1) (Bracket.braceEnd t (m.stop - 1))).Extended t heads := by
  simp only [addMembers, h.outline_eq]
  have hmethods := List.foldlRecOn _ _ h fun s h m' hm' =>
    extended_addMethod h (hmembers (List.mem_append_left _ (List.mem_map_of_mem hm'))) (m.stop - 1)
  rw [hmethods.outline_eq]
  refine List.foldlRecOn _ _ hmethods fun s h m' hm' => extended_addFieldArrow h (fun g hg => ?_) _
  exact hmembers (List.mem_append_right _ (List.mem_filterMap.mpr ⟨m', hm', hg⟩))

theorem extended_addClass (h : s.Extended t heads) (hm : m ∈ classHead.findAll t)
    (hg : Head.block t m ∈ heads) (hmembers : memberHeads t m ⊆ heads) :
    (addClass s m).Extended t heads := by
  obtain rfl := h.outline_eq
  simp only [addClass]
  split
  · exact h
  · set d : Sighting :=
      { label := .classType, name := m.group 2, start := m.start
        finish := some (Bracket.braceEnd s.outline (m.stop - 1))
        isExported := m.hasGroup 1, nameAt := some (m.groupStart 2) }
    set clauses := Bracket.stripGenerics (m.group 3)
    have hbody := h.define_addContainer (d := d) hg ⟨rfl, rfl⟩ (Head.isBlock_block rfl hm)
    have hparents := extended_addImplements
      (extended_addExtends hbody (s.define d).2 clauses) (s.define d).2 clauses
    split
    · exact extended_addMembers hparents hmembers
    · exact hparents

theorem extended_addInterface (h : s.Extended t heads) (hg : Head.block t m ∈ heads) :
    (addInterface s m).Extended t heads := by
  obtain rfl := h.outline_eq
  exact extended_addExtends (h.define hg ⟨rfl, rfl⟩) _ _

theorem extended_addEnum (h : s.Extended t heads) (hg : Head.block t m ∈ heads) :
    (addEnum s m).Extended t heads := by
  obtain rfl := h.outline_eq
  exact h.define hg ⟨rfl, rfl⟩

theorem extended_addFunction (h : s.Extended t heads) (hg : Head.parameters t m ∈ heads) :
    (addFunction s m).Extended t heads := by
  obtain rfl := h.outline_eq
  exact h.define_addScope hg ⟨rfl, rfl⟩

theorem extended_addVariableFunction (h : s.Extended t heads)
    (hg : ∀ g ∈ variableHead? t m, g ∈ heads) : (addVariableFunction s m).Extended t heads := by
  obtain rfl := h.outline_eq
  unfold addVariableFunction
  split
  · exact h
  · next e he => exact h.define_addScope (hg _ (Option.map_eq_some_iff.mpr ⟨e, he, rfl⟩)) ⟨rfl, rfl⟩

theorem extended_scan (path code outline : Text) :
    (scan path code outline).Extended outline (passHeads outline).flatten := by
  unfold scan
  refine List.foldlRecOn _ _ ?_ fun s h m hm => extended_addVariableFunction h fun g hg =>
    List.mem_flatten_of_mem (by simp [passHeads]) (List.mem_filterMap.mpr ⟨m, hm, hg⟩)
  refine List.foldlRecOn _ _ ?_ fun s h m hm => extended_addFunction h
    (List.mem_flatten_of_mem (by simp [passHeads]) (List.mem_map_of_mem hm))
  refine List.foldlRecOn _ _ ?_ fun s h m hm => extended_addEnum h
    (List.mem_flatten_of_mem (by simp [passHeads]) (List.mem_map_of_mem hm))
  refine List.foldlRecOn _ _ ?_ fun s h m hm => extended_addInterface h
    (List.mem_flatten_of_mem (by simp [passHeads]) (List.mem_map_of_mem hm))
  refine List.foldlRecOn _ _ ?_ fun s h m hm => extended_addClass h hm
    (List.mem_flatten_of_mem (by simp [passHeads]) (List.mem_map_of_mem hm)) fun g hg =>
      List.mem_flatten_of_mem (by simp [passHeads]) (List.mem_flatMap.mpr ⟨m, hm, hg⟩)
  refine List.foldlRecOn _ _ ?_ fun s h m hm => extended_addModule h hm
    (List.mem_flatten_of_mem (by simp [passHeads]) (List.mem_map_of_mem hm))
  refine List.foldlRecOn _ _ (extended_start path code outline _) fun s h p _ => ?_
  exact List.foldlRecOn _ _ h fun s h m _ => h.addImport (m.group 1)

end Script

/-! ## Members and owners -/

namespace Language

/-- Where the definitions of a file may start, and the bodies they then have. -/
def heads (l : Language) (t : Text) : List Head :=
  match l with
  | solidity => (Solidity.passHeads t).flatten
  | javascript | typescript => (Script.passHeads t).flatten

theorem closes_of_mem_heads {l : Language} {t : Text} {g : Head} (h : g ∈ l.heads t) :
    g.extent.Closes t := by
  cases l with
  | solidity =>
      obtain ⟨pass, hpass, hg⟩ := List.mem_flatten.mp h
      exact Solidity.closes_of_mem_passHeads hpass hg
  | javascript | typescript =>
      obtain ⟨pass, hpass, hg⟩ := List.mem_flatten.mp h
      exact Script.closes_of_mem_passHeads hpass hg

theorem extended_scan (l : Language) (path source : Text) :
    (l.scan path source).Extended (l.commentStyle.outline source)
      (l.heads (l.commentStyle.outline source)) := by
  cases l with
  | solidity => exact Solidity.extended_scan path _ _
  | javascript => exact Script.extended_scan path _ _
  | typescript => exact Script.extended_scan path _ _

end Language

namespace Scan

/-- The call at a site belongs to the definition. -/
def CalledFrom (s : Scan) (x : Definition) (m : Match) : Prop :=
  ∃ r, Region.innermost (s.scopes.filter (·.contains (m.groupStart 1))) = some r ∧ r.definition = x

/-- The definition keeps within the block of a container: it starts there, ends no later, and no call
behind the closing brace belongs to it. -/
structure KeepsWithin (s : Scan) (x : Definition) (c : Region) : Prop where
  block : Extent.IsBlock s.outline ⟨some c.first, c.last⟩
  start : c.contains x.start = true
  endLine_le : x.endLine ≤ c.definition.endLine
  call_le : ∀ m, s.CalledFrom x m → m.groupStart 1 ≤ c.last

end Scan

namespace Language

/-- **A member keeps within its owner** if the block around its start is still open at its reach. -/
theorem keepsWithin_owner (l : Language) (path source : Text) {x : Definition}
    (hx : x ∈ (l.extract path source).definitions) {o : Text} (ho : x.owner = some o)
    (hopen : ∀ g ∈ l.heads (l.commentStyle.outline source), (g.start : Int) = x.start →
      Bracket.StaysOpen (l.commentStyle.outline source) g.start
        (g.extent.reach (l.commentStyle.outline source))) :
    ∃ c ∈ (l.scan path source).containers,
      c.definition ∈ (l.extract path source).definitions ∧ c.definition.id = o ∧
      (l.scan path source).KeepsWithin x c := by
  set s := l.scan path source
  set t := l.commentStyle.outline source
  have hextended : s.Extended t (l.heads t) := l.extended_scan path source
  have hperm := l.definitions_extract_perm path source
  have hx := hperm.mem_iff.mp hx
  obtain ⟨c, hc, hid, hstart, hdepth⟩ := hextended.owner x hx o ho
  have hblock := hextended.block c hc
  obtain ⟨hbrace, hlast⟩ := hblock.ends
  -- Whatever head the member has, it ends within the block of the owner.
  have hwithin : ∀ g ∈ l.heads t, (g.start : Int) = x.start → g.extent.last ≤ c.last := by
    intro g hg hgx
    rw [← hgx] at hstart hdepth
    obtain ⟨hafter, hbefore⟩ := Region.contains_iff.mp hstart
    rw [hlast]
    exact (closes_of_mem_heads hg).last_le hbrace (by omega) (by omega) hdepth (hopen g hg hgx)
  refine ⟨c, hc, hperm.mem_iff.mpr ((l.keyed_scan path source).container_mem c hc), hid, ?_⟩
  refine ⟨by rwa [hextended.outline_eq], hstart, ?_, ?_⟩
  · obtain ⟨g, hg, hgx, hend⟩ := hextended.definition_end x hx
    rw [hend, hextended.container_end c hc]
    exact_mod_cast t.lineOf_mono (Int.ofNat_le.mpr (hwithin g hg hgx))
  · -- A body may have been recorded for another head at the same start; that one is within as well.
    rintro m ⟨r, hr, rfl⟩
    obtain ⟨hmem, hsite⟩ := List.mem_filter.mp (Region.innermost_eq_some hr).1
    obtain ⟨g, hg, hgx, hend⟩ := hextended.scope_end r hmem
    have hle := hwithin g hg hgx
    have hbounds := Region.contains_iff.mp hsite
    omega

/-- A class with a method, whose parameters hold braces, and a field with an arrow function. -/
def memberSource : Text :=
  "class A \x7b\n f(o = \x7b\x7d) \x7b g(o); \x7d\n h = () => g(1)\n\x7d\ng(2);".toList

theorem keepsWithin_owner_arrow :
    ∃ x ∈ (typescript.extract "a.ts".toList memberSource).definitions,
      x.name = "h".toList ∧ ∃ o, x.owner = some o ∧
      (∀ g ∈ typescript.heads (typescript.commentStyle.outline memberSource),
        (g.start : Int) = x.start →
          Bracket.StaysOpen (typescript.commentStyle.outline memberSource) g.start
            (g.extent.reach (typescript.commentStyle.outline memberSource))) ∧
      ∃ c ∈ (typescript.scan "a.ts".toList memberSource).containers,
        c.definition ∈ (typescript.extract "a.ts".toList memberSource).definitions ∧
        c.definition.id = o ∧ (typescript.scan "a.ts".toList memberSource).KeepsWithin x c := by
  obtain ⟨x, hx, hname, howner, hopen⟩ :
      ∃ x ∈ (typescript.extract "a.ts".toList memberSource).definitions,
        x.name = "h".toList ∧ x.owner.isSome = true ∧
        ∀ g ∈ typescript.heads (typescript.commentStyle.outline memberSource),
          (g.start : Int) = x.start →
            Bracket.StaysOpen (typescript.commentStyle.outline memberSource) g.start
              (g.extent.reach (typescript.commentStyle.outline memberSource)) := by
    decide +kernel
  obtain ⟨o, ho⟩ := Option.isSome_iff_exists.mp howner
  exact ⟨x, hx, hname, o, ho, hopen,
    keepsWithin_owner typescript "a.ts".toList memberSource hx ho hopen⟩

/-- A method without a body and without a semicolon, before a function with a body. -/
def bodilessSource : Text :=
  "abstract class A \x7b abstract f(): void \x7d\nfunction g() \x7b h(); \x7d\n".toList

/-- The method takes the body of the function: it ends below its owner, and the call is its own. -/
theorem member_beyond_owner :
    ∃ x ∈ (typescript.extract "a.ts".toList bodilessSource).definitions,
      ∃ y ∈ (typescript.extract "a.ts".toList bodilessSource).definitions,
        x.owner = some y.id ∧ y.endLine < x.endLine ∧
          ⟨"h".toList, x.id⟩ ∈ (typescript.extract "a.ts".toList bodilessSource).calls := by
  decide +kernel

end Language

end CodeAtlas
