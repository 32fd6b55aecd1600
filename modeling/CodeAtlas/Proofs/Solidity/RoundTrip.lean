import CodeAtlas.Proofs.Solidity.Layout
import CodeAtlas.Proofs.Solidity.Parents

set_option autoImplicit false

/-! # Extracting a printed file gives back its contracts

The invariant of the scan is `Recorded`: what is known once some of the contracts and some of the
functions were passed. Each match adds one of them (`Recorded.exists_addContainer`,
`Recorded.exists_addFunction`), so after all passes everything is recorded and nothing else
(`exists_recorded_scan`). What is left is the order of the definitions and the calls, which are read
off the recorded bodies (`Recorded.hasBodies`).
-/

namespace CodeAtlas.Solidity

open Text (Stands)

/-! ## What is recorded -/

/-- The block of a contract, which owns what stands in it. -/
def ContractSite.region (id : Nat → Text) (p : ContractSite) : Region :=
  ⟨p.definition id, p.blockStart, p.blockEnd⟩

/-- The body of a function, which its calls are attributed to. -/
def FunctionSite.region (id : Nat → Text) (q : FunctionSite) : Region :=
  q.body form (q.definition id)

/-- What the scan sees at the head of a contract. -/
def ContractSite.sighting (p : ContractSite) : Sighting where
  label := .classType
  name := p.item.name.text
  start := p.start
  finish := some p.blockEnd
  nameAt := some (p.start + 9 : Nat)

/-- What the scan sees at the head of a function. -/
def FunctionSite.sighting (q : FunctionSite) : Sighting where
  label := .method
  name := q.item.name.text
  start := q.start
  finish := some (q.bodyEnd form)
  nameAt := some (q.start + 9 : Nat)

/-! ## One match -/

section Match

variable {s : Scan} {id : Nat → Text} {m : Match}

/-- The match at the head of a contract is recorded as its class, with its block and its parents. -/
theorem addContainer_eq {p : ContractSite}
    (hstands : Stands s.outline p.item.print p.start p.line) (hm : p.IsMatch m)
    (hnew : (p.sighting.label, p.sighting.name, p.sighting.start) ∉ s.seen)
    (hdefinition : s.definitionOf p.sighting = p.definition id) :
    addContainer s m =
      { (s.define p.sighting).1 with
        containers := s.containers ++ [p.region id], heritage := s.heritage ++ p.heritage id } := by
  have hhead : (s.outline.drop m.stop).head? = some '\x7b' := by
    rw [show m.stop = p.blockStart from hm.stop_eq]
    exact (ContractSite.stands_block hstands).head?_drop
  have hextent : containerExtent s.outline m.stop = ⟨some p.blockStart, p.blockEnd⟩ := by
    rw [containerExtent, hhead, show m.stop = p.blockStart from hm.stop_eq,
      ContractSite.braceEnd_eq hstands]
    rfl
  have hsighting : Sighting.mk (containerLabel (m.group 1)) (m.group 2) m.start (some p.blockEnd) true
      (some (m.groupStart 2)) = p.sighting := by
    rw [hm.kind_eq, hm.name_eq, hm.start_eq, hm.nameAt_eq]
    rfl
  unfold addContainer
  simp only [hhead, hextent, hsighting, hm.tail_eq, Scan.define_of_not_seen hnew, hdefinition]
  exact addHeritage_printTail _ _ _

/-- The match at the head of a function is recorded as its method, with its body. -/
theorem addFunction_eq {q : FunctionSite} {r : Region}
    (hstands : Stands s.outline (q.item.print form) q.start q.line) (hm : q.IsMatch m)
    (howner : s.ownerOf q.start = some r)
    (hnew : (q.sighting.label, q.sighting.name, q.sighting.start) ∉ s.seen)
    (hdefinition : s.definitionOf q.sighting = q.definition id) :
    addFunction s m =
      { (s.define q.sighting).1 with scopes := s.scopes ++ [q.region id] } := by
  have hparen : Bracket.parenEnd s.outline (m.stop - 1) + 1 =
      q.start + q.item.name.text.length + 11 := by
    rw [hm.stop_eq]
    exact congrArg (· + 1) (Site.parenEnd_eq hstands)
  have hexported : isExportedByKeywords form.signature = true := by decide
  have hsighting : Sighting.mk .method (m.group 1) m.start (some (q.bodyEnd form)) true
      (some (m.groupStart 1)) = q.sighting := by
    rw [hm.name_eq, hm.start_eq, hm.nameAt_eq]
    rfl
  unfold addFunction addCallable
  simp only [hparen, Site.bodyAfter_eq hstands, FunctionSite.signature_eq hstands, hexported,
    howner, hm.start_eq, Option.isSome_some, if_true] at hsighting ⊢
  simp only [hsighting, Scan.define_of_not_seen hnew, hdefinition, Scan.addScope,
    if_pos (q.lt_bodyStart form).2.1]
  rfl

end Match

/-! ## The invariant -/

/-- What is known of a text once the contracts `ps` and the functions `qs` were passed. -/
structure Recorded (path t : Text) (id : Nat → Text) (ps : List ContractSite)
    (qs : List FunctionSite) (s : Scan) : Prop where
  path_eq : s.path = path
  outline_eq : s.outline = t
  imports_eq : s.imports = []
  definitions_eq : s.definitions = ps.map (·.definition id) ++ qs.map (·.definition id)
  heritage_eq : s.heritage = ps.flatMap (·.heritage id)
  containers_eq : s.containers = ps.map (·.region id)
  scopes_eq : s.scopes = qs.map (·.region id)
  mem_seen : ∀ x ∈ s.seen, (∃ p ∈ ps, x = (.classType, p.item.name.text, (p.start : Int))) ∨
    ∃ q ∈ qs, x = (.method, q.item.name.text, (q.start : Int))
  mem_nameOffsets : ∀ i : Int, i ∈ s.nameOffsets ↔
    (∃ p ∈ ps, i = (p.start + 9 : Nat)) ∨ ∃ q ∈ qs, i = (q.start + 9 : Nat)

namespace Recorded

variable {path t : Text} {id : Nat → Text} {ps : List ContractSite} {qs : List FunctionSite} {s : Scan}

theorem start (path t : Text) (id : Nat → Text) :
    Recorded path t id [] [] { path := path, code := t, outline := t } := by
  constructor <;> simp

/-- Only the identities of what is recorded matter. -/
theorem congr (h : Recorded path t id ps qs s) {id' : Nat → Text}
    (hps : ∀ p ∈ ps, id' p.start = id p.start)
    (hqs : ∀ q ∈ qs, id' q.start = id q.start ∧ id' q.contractStart = id q.contractStart) :
    Recorded path t id' ps qs s := by
  have hcontract : ∀ p ∈ ps, p.definition id' = p.definition id := by
    intro p hp
    simp only [ContractSite.definition, hps p hp]
  have hfunction : ∀ q ∈ qs, q.definition id' = q.definition id := by
    intro q hq
    simp only [FunctionSite.definition, hqs q hq]
  refine { h with definitions_eq := ?_, heritage_eq := ?_, containers_eq := ?_, scopes_eq := ?_ }
  · rw [h.definitions_eq, List.map_congr_left hcontract, List.map_congr_left hfunction]
  · rw [h.heritage_eq]
    refine (List.flatMap_congr fun p hp => ?_).symm
    simp only [ContractSite.heritage, hps p hp]
  · rw [h.containers_eq]
    refine (List.map_congr_left fun p hp => ?_).symm
    simp only [ContractSite.region, hcontract p hp]
  · rw [h.scopes_eq]
    refine (List.map_congr_left fun q hq => ?_).symm
    simp only [FunctionSite.region, hfunction q hq]

/-! ## Contracts -/

/-- A contract stands in no other. -/
theorem ownerOf_contract (h : Recorded path t id ps qs s) {p : ContractSite}
    (hbefore : ∀ p' ∈ ps, p'.start + p'.item.print.length ≤ p.start) :
    s.ownerOf p.start = none := by
  have hnone : s.containers.filter (·.contains p.start) = [] := by
    rw [h.containers_eq]
    refine List.filter_eq_nil_iff.mpr fun r hr => ?_
    obtain ⟨p', hp', rfl⟩ := List.mem_map.mp hr
    have hle := hbefore p' hp'
    have hblock := p'.lt_blockStart
    rw [Region.contains_iff]
    show ¬ ((p'.blockStart : Int) < p.start ∧ (p.start : Int) ≤ p'.blockEnd)
    omega
  rw [Scan.ownerOf, hnone]
  rfl

theorem definitionOf_contract (h : Recorded path t id ps qs s) {p : ContractSite}
    (hbefore : ∀ p' ∈ ps, p'.start + p'.item.print.length ≤ p.start)
    (hstands : Stands s.outline p.item.print p.start p.line) {id' : Nat → Text}
    (hid : id' p.start = (s.definitionOf p.sighting).id) :
    s.definitionOf p.sighting = p.definition id' := by
  have howner : s.ownerOf p.sighting.start = none := h.ownerOf_contract hbefore
  have hfirst : s.lineOf p.sighting.start = p.line := hstands.lineOf_eq
  have hlast : s.lineOf (p.sighting.finish.getD p.sighting.start) =
      p.line + p.item.functions.length + 1 := ContractSite.lineOf_blockEnd hstands
  unfold ContractSite.definition
  rw [hid, Scan.definitionOf, hfirst, hlast, howner]
  rfl

/-- **One more contract.** -/
theorem exists_addContainer (h : Recorded path t id ps [] s) {p : ContractSite} {m : Match}
    (hstands : Stands t p.item.print p.start p.line)
    (hbefore : ∀ p' ∈ ps, p'.start + p'.item.print.length ≤ p.start) (hm : p.IsMatch m) :
    ∃ id', Recorded path t id' (ps ++ [p]) [] (addContainer s m) := by
  rw [← h.outline_eq] at hstands
  have hne : ∀ p' ∈ ps, p'.start ≠ p.start := by
    intro p' hp'
    have hle := hbefore p' hp'
    have hblock := p'.lt_blockStart
    omega
  have hnew : (p.sighting.label, p.sighting.name, p.sighting.start) ∉ s.seen := by
    intro hseen
    rcases h.mem_seen _ hseen with ⟨p', hp', heq⟩ | ⟨q, hq, -⟩
    · simp only [ContractSite.sighting, Prod.mk.injEq, Nat.cast_inj] at heq
      exact hne p' hp' heq.2.2.symm
    · simp at hq
  -- The identity that is chosen here is from now on that of this position.
  set id' := Function.update id p.start (s.definitionOf p.sighting).id
  have hdefinition : s.definitionOf p.sighting = p.definition id' :=
    h.definitionOf_contract hbefore hstands (Function.update_self _ _ _)
  have h : Recorded path t id' ps [] s :=
    h.congr (fun p' hp' => Function.update_of_ne (hne p' hp') _ _) (by simp)
  rw [addContainer_eq hstands hm hnew hdefinition, Scan.define_of_not_seen hnew, hdefinition]
  refine ⟨id', h.path_eq, h.outline_eq, h.imports_eq, ?_, ?_, ?_, h.scopes_eq, ?_, ?_⟩
  · simp [h.definitions_eq]
  · simp [h.heritage_eq]
  · simp [h.containers_eq]
  · intro x hx
    rcases List.mem_cons.mp hx with rfl | hx
    · exact Or.inl ⟨p, by simp, rfl⟩
    · exact (h.mem_seen x hx).imp_left fun ⟨p', hp', hx⟩ => ⟨p', by simp [hp'], hx⟩
  · intro i
    simp [h.mem_nameOffsets, ContractSite.sighting, or_comm]

/-! ## Functions -/

/-- A function is owned by its contract. -/
theorem ownerOf_function (h : Recorded path t id ps qs s)
    (hps : ps.Pairwise fun p p' => p.start + p.item.print.length ≤ p'.start)
    {p : ContractSite} (hp : p ∈ ps) (hstands : Stands t p.item.print p.start p.line)
    {q : FunctionSite} (hq : q ∈ p.functionSites) : s.ownerOf q.start = some (p.region id) := by
  have hregions : (ps.map (·.region id)).Pairwise fun r r' => r.last ≤ r'.first := by
    refine List.pairwise_map.mpr (hps.imp fun {p p'} hle => ?_)
    have hblock := p.lt_blockStart
    have hblock' := p'.lt_blockStart
    show p.blockEnd ≤ p'.blockStart
    omega
  have hcontains : (p.region id).contains q.start = true := by
    have hbounds := ContractSite.bounds_of_mem hq
    rw [Region.contains_iff]
    show (p.blockStart : Int) < q.start ∧ (q.start : Int) ≤ p.blockEnd
    omega
  have hdepth : Bracket.depthBetween t ((p.region id).first + 1) q.start = 0 :=
    FunctionSite.depthBetween_eq hstands hq
  rw [Scan.ownerOf, h.containers_eq,
    Region.innermost_of_pairwise hregions (List.mem_map_of_mem hp) hcontains, h.outline_eq]
  simp only [hdepth]
  rfl

theorem definitionOf_function {p : ContractSite} {q : FunctionSite}
    (hstands : Stands s.outline (q.item.print form) q.start q.line)
    (howner : s.ownerOf q.start = some (p.region id)) {id' : Nat → Text}
    (hid : id' q.start = (s.definitionOf q.sighting).id) (hcontract : id' q.contractStart = id p.start) :
    s.definitionOf q.sighting = q.definition id' := by
  have howner : s.ownerOf q.sighting.start = some (p.region id) := howner
  have hfirst : s.lineOf q.sighting.start = q.line := hstands.lineOf_eq
  have hlast : s.lineOf (q.sighting.finish.getD q.sighting.start) = q.line :=
    FunctionSite.lineOf_bodyEnd hstands
  unfold FunctionSite.definition
  rw [hid, hcontract, Scan.definitionOf, hfirst, hlast, howner]
  rfl

/-- **One more function.** -/
theorem exists_addFunction (h : Recorded path t id ps qs s)
    (hps : ps.Pairwise fun p p' => p.start + p.item.print.length ≤ p'.start)
    {p : ContractSite} (hp : p ∈ ps) (hstands : Stands t p.item.print p.start p.line)
    {q : FunctionSite} (hq : q ∈ p.functionSites)
    (hbefore : ∀ q' ∈ qs, q'.start + (q'.item.print form).length ≤ q.start ∧
      ∃ p' ∈ ps, q' ∈ p'.functionSites) {m : Match} (hm : q.IsMatch m) :
    ∃ id', Recorded path t id' ps (qs ++ [q]) (addFunction s m) := by
  have howner := h.ownerOf_function hps hp hstands hq
  have hline := FunctionSite.stands hstands hq
  rw [← h.outline_eq] at hline
  -- No contract and no other function starts where this one does.
  have hcontracts : ∀ p' ∈ ps, p'.start ≠ q.start := by
    intro p' hp' heq
    have hbounds := ContractSite.bounds_of_mem hq
    have hblock := p.lt_blockStart
    have hblock' := p'.lt_blockStart
    have hbody := q.lt_bodyStart form
    rcases eq_or_rel_of_pairwise hps hp hp' with rfl | hle | hle
    · omega
    · omega
    · omega
  have hfunctions : ∀ q' ∈ qs, q'.start ≠ q.start := by
    intro q' hq'
    have hle := (hbefore q' hq').1
    have hbody := q'.lt_bodyStart form
    omega
  have hnew : (q.sighting.label, q.sighting.name, q.sighting.start) ∉ s.seen := by
    intro hseen
    rcases h.mem_seen _ hseen with ⟨p', hp', heq⟩ | ⟨q', hq', heq⟩
    · simp [FunctionSite.sighting] at heq
    · simp only [FunctionSite.sighting, Prod.mk.injEq, Nat.cast_inj] at heq
      exact hfunctions q' hq' heq.2.2.symm
  set id' := Function.update id q.start (s.definitionOf q.sighting).id
  have hcontract : id' q.contractStart = id p.start := by
    rw [FunctionSite.contractStart_eq hq]
    exact Function.update_of_ne (hcontracts p hp) _ _
  have hdefinition : s.definitionOf q.sighting = q.definition id' :=
    definitionOf_function hline howner (Function.update_self _ _ _) hcontract
  have h : Recorded path t id' ps qs s := by
    refine h.congr (fun p' hp' => Function.update_of_ne (hcontracts p' hp') _ _) fun q' hq' => ?_
    obtain ⟨-, p', hp', hq''⟩ := hbefore q' hq'
    rw [FunctionSite.contractStart_eq hq'']
    exact ⟨Function.update_of_ne (hfunctions q' hq') _ _, Function.update_of_ne (hcontracts p' hp') _ _⟩
  rw [addFunction_eq hline hm howner hnew hdefinition, Scan.define_of_not_seen hnew, hdefinition]
  refine ⟨id', h.path_eq, h.outline_eq, h.imports_eq, ?_, h.heritage_eq, h.containers_eq, ?_, ?_, ?_⟩
  · simp [h.definitions_eq]
  · simp [h.scopes_eq]
  · intro x hx
    rcases List.mem_cons.mp hx with rfl | hx
    · exact Or.inr ⟨q, by simp, rfl⟩
    · exact (h.mem_seen x hx).imp_right fun ⟨q', hq', hx⟩ => ⟨q', by simp [hq'], hx⟩
  · intro i
    simp [h.mem_nameOffsets, FunctionSite.sighting, or_comm, or_assoc]

end Recorded

/-! ## All passes -/

/-- **The scan of a printed file** records its contracts and its functions, and nothing else. -/
theorem exists_recorded_scan (path : Text) (cs : List ContractDecl) :
    ∃ id, Recorded path (printSource cs) id (contractSites cs) (allFunctionSites cs)
      (scan path (printSource cs) (printSource cs)) := by
  have himport := findAll_printSource_eq_nil headedBy_importStatement (by decide) cs
  have hstruct := findAll_printSource_eq_nil headedBy_structOrEnum (by decide) cs
  have hevent := findAll_printSource_eq_nil headedBy_eventOrError (by decide) cs
  have hmodifier := findAll_printSource_eq_nil headedBy_modifier (by decide) cs
  have hconstructor := findAll_printSource_eq_nil headedBy_constructor (by decide) cs
  have hspecial := findAll_printSource_eq_nil headedBy_special (by decide) cs
  have hcontainers := foldl_of_forall₂
    (P := fun ps s => ∃ id, Recorded path (printSource cs) id ps [] s) (forall₂_container cs)
    (pairwise_contractSites cs)
    (fun _ _ _ _ hp _ hbefore hm ⟨_, h⟩ => h.exists_addContainer (ContractSite.stands hp) hbefore hm)
    ⟨fun _ => [], Recorded.start path (printSource cs) _⟩
  have hfunctions := foldl_of_forall₂
    (P := fun qs s => ∃ id, Recorded path (printSource cs) id (contractSites cs) qs s)
    (forall₂_function cs) (pairwise_allFunctionSites cs)
    (fun qs q _ _ hq hqs hbefore hm ⟨_, h⟩ => by
      obtain ⟨p, hp, hqp⟩ := List.mem_flatMap.mp hq
      exact h.exists_addFunction (pairwise_contractSites cs) hp (ContractSite.stands hp) hqp
        (fun q' hq' => ⟨hbefore q' hq', List.mem_flatMap.mp (hqs hq')⟩) hm)
    hcontainers
  unfold scan
  rw [himport, hstruct, hevent, hmodifier, hconstructor, hspecial]
  exact hfunctions

/-! ## Calls -/

namespace Recorded

variable {path : Text} {cs : List ContractDecl} {id : Nat → Text} {s : Scan}
  (h : Recorded path (printSource cs) id (contractSites cs) (allFunctionSites cs) s)
include h

/-- No name of a definition stands in the body of a function. -/
theorem notMem_nameOffsets {q : FunctionSite} (hq : q ∈ allFunctionSites cs) {i : Nat}
    (hfirst : q.bodyStart form < i) (hlast : i ≤ q.bodyEnd form) : (i : Int) ∉ s.nameOffsets := by
  have hbody := q.lt_bodyStart form
  rw [h.mem_nameOffsets]
  rintro (⟨p', hp', heq⟩ | ⟨q', hq', heq⟩)
  · obtain ⟨p, hp, hq⟩ := List.mem_flatMap.mp hq
    have hbounds := ContractSite.bounds_of_mem hq
    have hblock := p.lt_blockStart
    have hblock' := p'.lt_blockStart
    rcases eq_or_rel_of_pairwise (pairwise_contractSites cs) hp hp' with rfl | hle | hle
    · omega
    · omega
    · omega
  · have hbody' := q'.lt_bodyStart form
    rcases eq_or_rel_of_pairwise (pairwise_allFunctionSites cs) hq hq' with rfl | hle | hle
    · omega
    · omega
    · omega

/-- The calls can be read off the recorded bodies. -/
theorem hasBodies :
    s.HasBodies form FunctionSite.toSite (FunctionSite.definition id) (allFunctionSites cs) where
  scopes_eq := h.scopes_eq
  name_eq _ _ := rfl
  apart := (pairwise_allFunctionSites cs).imp fun {q q'} hle => by
    have hbody := q.lt_bodyStart form
    have hbody' := q'.lt_bodyStart form
    omega
  mem_nameOffsets q hq := (h.mem_nameOffsets _).mpr (Or.inr ⟨q, hq, rfl⟩)
  notMem_nameOffsets _ hq _ hfirst hlast := h.notMem_nameOffsets hq hfirst hlast

/-- **The calls of a printed file** are those of its functions, in order. -/
theorem calls_eq : s.calls (Language.callExclusions .solidity) none =
    (allFunctionSites cs).flatMap fun q => q.item.callsFrom (id q.start) := by
  have hfound := forall₂_callSite cs
  rw [← h.outline_eq] at hfound
  exact h.hasBodies.calls_eq hfound none

end Recorded

/-! ## The round trip -/

/-- **A printed file is extracted as it was written.** There is a class for each contract and an
exported method for each function that its contract owns, in text order and on the lines they were
printed on, the parents and the calls are those that were printed, and there is nothing else. The
identities are distinct if no two of the keys that were generated have one digest. -/
theorem extract_printSource (path : Text) (cs : List ContractDecl) :
    ∃ id : Nat → Text, extract path (printSource cs) = described path id cs ∧
      (Digest.NoCollision (Language.solidity.scan path (printSource cs)).keys →
        ((described path id cs).definitions.map (·.id)).Nodup) := by
  obtain ⟨id, h⟩ := exists_recorded_scan path cs
  have hperm : (scan path (printSource cs) (printSource cs)).definitions.Perm
      (described path id cs).definitions := by
    rw [h.definitions_eq, allFunctionSites, List.map_flatMap]
    exact List.map_append_flatMap_perm _ _ _
  have hextract : extract path (printSource cs) = described path id cs := by
    rw [extract, code_printSource, outline_printSource, Scan.result, h.calls_eq,
      sortBy_start_eq hperm (pairwise_definitions path id cs), h.path_eq, h.imports_eq, h.heritage_eq]
    rfl
  refine ⟨id, hextract, fun hkeys => ?_⟩
  have hsame := Language.solidity.definitions_extract_perm path (printSource cs)
  rw [show Language.solidity.extract path (printSource cs) = described path id cs from hextract] at hsame
  exact (hsame.map _).nodup_iff.mpr ((Language.solidity.keyed_scan path _).distinct hkeys)

/-- Names with keywords in them, an overloaded function, a function that calls itself and a contract
that names itself as its parent. -/
def overloadedContracts : List ContractDecl :=
  let isle : Name := ⟨"isle".toList, by decide, by decide, by decide⟩
  let event1 : Name := ⟨"event1".toList, by decide, by decide, by decide⟩
  [⟨isle, [event1, isle], [⟨event1, [event1, isle]⟩, ⟨event1, []⟩]⟩]

theorem extract_printSource_overloads :
    Digest.NoCollision (Language.solidity.scan "a.sol".toList (printSource overloadedContracts)).keys ∧
      ∃ id : Nat → Text,
        extract "a.sol".toList (printSource overloadedContracts) =
          described "a.sol".toList id overloadedContracts ∧
        ((described "a.sol".toList id overloadedContracts).definitions.map (·.id)).Nodup := by
  have hkeys : Digest.NoCollision
      (Language.solidity.scan "a.sol".toList (printSource overloadedContracts)).keys := by
    decide +kernel
  obtain ⟨id, hextract, hdistinct⟩ := extract_printSource "a.sol".toList overloadedContracts
  exact ⟨hkeys, id, hextract, hdistinct hkeys⟩

end CodeAtlas.Solidity
