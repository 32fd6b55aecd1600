import CodeAtlas.Proofs.Solidity.Matches

set_option autoImplicit false

/-! # Where the parts of a printed file stand

The sites of a file say where its contracts and functions are (`ContractSite.stands`,
`FunctionSite.stands`). From this follows what the scanner computes at the position of a match: the
block of a contract and its lines (`ContractSite.braceEnd_eq`, `ContractSite.lineOf_blockEnd`), and that
between the opening brace of a contract and each of its functions all braces are closed
(`FunctionSite.depthBetween_eq`). The sites come in text order and do not overlap
(`pairwise_contractSites`, `pairwise_allFunctionSites`).
-/

namespace CodeAtlas.Solidity

open Text (Stands)

/-! ## Printed lines -/

theorem length_printFunction (f : FunctionDecl) :
    (printFunction f).length = (f.print form).length + 4 := by
  rw [printFunction, List.length_append, Nat.add_comm]
  rfl

theorem level_printFunctions (fs : List FunctionDecl) :
    Bracket.Level '\x7b' '\x7d' (fs.flatMap printFunction) := by
  have hspaces : Bracket.Level '\x7b' '\x7d' "    ".toList :=
    Bracket.level_of_notMem (by decide) (by decide)
  exact Bracket.Level.flatMap (by decide) fun f _ => hspaces.append (by decide) (f.level_print form)

theorem count_printBody (f : FunctionDecl) : (f.printBody form).count '\n' = 0 := by
  have hgap : form.gap.count '\n' = 0 := by decide
  have hmarks : (form.indent ++ form.finish).count '\n' = 0 := by decide
  rw [f.count_printBody, hgap, hmarks, Nat.mul_zero]

theorem count_printFunctions (fs : List FunctionDecl) :
    (fs.flatMap printFunction).count '\n' = fs.length := by
  have hspaces : "    ".toList.count '\n' = 0 := by decide
  induction fs with
  | nil => rfl
  | cons f fs ih =>
      rw [List.flatMap_cons, List.count_append, printFunction, List.count_append, f.count_print,
        count_printBody, hspaces, ih, List.length_cons]
      omega

theorem count_printHead (c : ContractDecl) : c.printHead.count '\n' = 0 :=
  List.count_eq_zero.mpr ((madeOf_printHead c).notMem (by decide) (by decide))

/-! ## Sites of contracts -/

theorem pairwise_contractSites (cs : List ContractDecl) :
    (contractSites cs).Pairwise fun p p' => p.start + p.item.print.length ≤ p'.start :=
  Site.pairwise_ofList _ _ _ _

namespace ContractSite

variable {t : Text} {p : ContractSite}

theorem stands {cs : List ContractDecl} (h : p ∈ contractSites cs) :
    Stands (printSource cs) p.item.print p.start p.line := by
  have hall : Stands (printSource cs) (printSource cs) 0 0 := by
    simpa using Text.stands_append [] (printSource cs) []
  exact Site.stands_of_mem hall h

theorem length_print (c : ContractDecl) : c.print.length =
    c.printHead.length + (c.functions.flatMap printFunction).length + 4 := by
  simp [ContractDecl.print, ContractDecl.printBlock]
  omega

/-- The name of a contract stands before its block. -/
theorem lt_blockStart (p : ContractSite) : p.start + 9 < p.blockStart ∧ p.blockStart < p.blockEnd ∧
    p.blockEnd < p.start + p.item.print.length := by
  have hhead : p.item.printHead.length = 9 + p.item.name.text.length + p.item.printTail.length := by
    unfold ContractDecl.printHead
    simp only [List.length_append]
    rfl
  have hname := List.length_pos_of_ne_nil p.item.name.ne_nil
  have hlength := length_print p.item
  unfold blockStart blockEnd
  omega

/-- The functions of a contract lie between its braces. -/
theorem bounds_of_mem {q : FunctionSite} (h : q ∈ p.functionSites) :
    p.blockStart < q.start ∧ q.start + (q.item.print form).length ≤ p.blockEnd := by
  obtain ⟨x, hx, rfl⟩ := List.mem_map.mp h
  have hbounds := Site.bounds_of_mem hx
  have hline := length_printFunction x.item
  have hlength := length_print p.item
  show p.blockStart < x.start + 4 ∧ x.start + 4 + (x.item.print form).length ≤ p.blockEnd
  unfold blockStart at hbounds ⊢
  unfold blockEnd
  omega

theorem stands_block (h : Stands t p.item.print p.start p.line) :
    Stands t p.item.printBlock p.blockStart p.line := by
  have hblock : Stands t (p.item.printHead ++ (p.item.printBlock ++ [])) p.start p.line := by
    rwa [List.append_nil]
  have hwithin := hblock.within
  rwa [count_printHead] at hwithin

/-- The block of a contract ends at its closing brace. -/
theorem braceEnd_eq (h : Stands t p.item.print p.start p.line) :
    Bracket.braceEnd t p.blockStart = p.blockEnd := by
  have hlevel : Bracket.Level '\x7b' '\x7d' ('\n' :: p.item.functions.flatMap printFunction) :=
    (Bracket.level_of_notMem (w := ['\n']) (by decide) (by decide)).append (by decide)
      (level_printFunctions p.item.functions)
  have hblock : Stands t
      ('\x7b' :: (('\n' :: p.item.functions.flatMap printFunction) ++ '\x7d' :: ['\n'])) p.blockStart
      p.line :=
    stands_block h
  have hlength := length_print p.item
  rw [hblock.braceEnd_eq hlevel, List.length_cons, blockEnd, blockStart]
  omega

/-- The closing brace is on the line after the last function. -/
theorem lineOf_blockEnd (h : Stands t p.item.print p.start p.line) :
    Text.lineOf t p.blockEnd = p.line + p.item.functions.length + 1 := by
  have hblock := stands_block h
  have hsplit : p.item.printBlock =
      ("\x7b\n".toList ++ p.item.functions.flatMap printFunction) ++ ("\x7d\n".toList ++ []) := by
    rw [List.append_nil]
    rfl
  rw [hsplit] at hblock
  have hline := hblock.within.lineOf_eq
  have hlength := length_print p.item
  have hend : p.blockStart + ("\x7b\n".toList ++ p.item.functions.flatMap printFunction).length =
      p.blockEnd := by
    rw [List.length_append, blockStart, blockEnd]
    have hopen : "\x7b\n".toList.length = 2 := by decide
    omega
  rw [hend, List.count_append, count_printFunctions] at hline
  have hopen : "\x7b\n".toList.count '\n' = 1 := by decide
  rw [hline, hopen]
  omega

end ContractSite

/-! ## Sites of functions -/

namespace FunctionSite

variable {t : Text} {p : ContractSite} {q : FunctionSite}

theorem contractStart_eq (hq : q ∈ p.functionSites) : q.contractStart = p.start := by
  obtain ⟨x, -, rfl⟩ := List.mem_map.mp hq
  rfl

/-- What stands between the opening brace of a contract and one of its functions. -/
theorem exists_gap (h : Stands t p.item.print p.start p.line) (hq : q ∈ p.functionSites) :
    ∃ gap, Stands t (gap ++ (q.item.print form ++ [])) (p.blockStart + 1) p.line ∧
      Bracket.Level '\x7b' '\x7d' gap ∧ q.start = p.blockStart + 1 + gap.length ∧
      q.line = p.line + gap.count '\n' := by
  obtain ⟨x, hx, rfl⟩ := List.mem_map.mp hq
  obtain ⟨fs₁, fs₂, hfs, hstart, hline⟩ := Site.exists_of_mem hx
  refine ⟨"\n".toList ++ fs₁.flatMap printFunction ++ "    ".toList, ?_, ?_, ?_, ?_⟩
  · -- The functions before this one are in the gap, and those after it are what follows.
    have hblock := ContractSite.stands_block h
    have hsplit : p.item.printBlock = ['\x7b'] ++
        (("\n".toList ++ fs₁.flatMap printFunction ++ "    ".toList ++ (x.item.print form ++ [])) ++
          (fs₂.flatMap printFunction ++ "\x7d\n".toList)) := by
      have hopen : "\x7b\n".toList = ['\x7b'] ++ "\n".toList := rfl
      unfold ContractDecl.printBlock
      rw [hfs, List.flatMap_append, List.flatMap_cons, printFunction, hopen, List.append_nil]
      simp only [List.append_assoc]
    rw [hsplit] at hblock
    exact hblock.within
  · have hne : '\x7b' ≠ '\x7d' := by decide
    exact ((Bracket.level_of_notMem (w := "\n".toList) (by decide) (by decide)).append hne
      (level_printFunctions fs₁)).append hne (Bracket.level_of_notMem (by decide) (by decide))
  · simp only [ofLine, Site.behind, List.length_append]
    have hbreak : "\n".toList.length = 1 := by decide
    have hspaces : "    ".toList.length = 4 := by decide
    omega
  · simp only [ofLine, Site.behind, List.count_append, count_printFunctions] at hline ⊢
    have hbreak : "\n".toList.count '\n' = 1 := by decide
    have hspaces : "    ".toList.count '\n' = 0 := by decide
    omega

theorem stands (h : Stands t p.item.print p.start p.line) (hq : q ∈ p.functionSites) :
    Stands t (q.item.print form) q.start q.line := by
  obtain ⟨gap, hstands, -, hstart, hline⟩ := exists_gap h hq
  rw [hstart, hline]
  exact hstands.within

/-- The signature of a function is all up to its body. -/
theorem signature_eq (h : Stands t (q.item.print form) q.start q.line) :
    (t.drop (q.start + q.item.name.text.length + 11)).takeWhile isSignature = form.signature :=
  (Site.stands_signature h).takeWhile_drop (by decide) (by decide)

/-- A function ends on the line it starts on. -/
theorem lineOf_bodyEnd (h : Stands t (q.item.print form) q.start q.line) :
    Text.lineOf t (q.bodyEnd form) = q.line := by
  rw [Site.lineOf_bodyEnd h, count_printBody, Nat.add_zero]

/-- A function stands in its contract directly. -/
theorem depthBetween_eq (h : Stands t p.item.print p.start p.line) (hq : q ∈ p.functionSites) :
    Bracket.depthBetween t (p.blockStart + 1) q.start = 0 := by
  obtain ⟨gap, hstands, hlevel, hstart, -⟩ := exists_gap h hq
  have hdepth := hstands.left.depthBetween_eq
  rw [hlevel.balance_eq_zero, ← hstart] at hdepth
  simpa using hdepth

end FunctionSite

/-! ## Text order -/

theorem pairwise_functionSites (p : ContractSite) :
    p.functionSites.Pairwise fun q q' => q.start + (q.item.print form).length ≤ q'.start := by
  refine List.pairwise_map.mpr ((Site.pairwise_ofList _ _ _ _).imp fun {x y} hle => ?_)
  have hlength := length_printFunction x.item
  show x.start + 4 + (x.item.print form).length ≤ y.start + 4
  omega

theorem pairwise_allFunctionSites (cs : List ContractDecl) : (allFunctionSites cs).Pairwise
    fun q q' => q.start + (q.item.print form).length ≤ q'.start := by
  refine List.pairwise_flatMap.mpr ⟨fun p _ => pairwise_functionSites p, ?_⟩
  refine (pairwise_contractSites cs).imp fun {p p'} hle q hq q' hq' => ?_
  have hbounds := ContractSite.bounds_of_mem hq
  have hbounds' := ContractSite.bounds_of_mem hq'
  have hblock := ContractSite.lt_blockStart p
  have hblock' := ContractSite.lt_blockStart p'
  omega

/-- The definitions of a file come in text order. -/
theorem pairwise_definitions (path : Text) (id : Nat → Text) (cs : List ContractDecl) :
    (described path id cs).definitions.Pairwise fun a b => a.start < b.start := by
  have hstart : ∀ p : ContractSite, ∀ x ∈ p.definition id :: p.functionSites.map (·.definition id),
      (p.start : Int) ≤ x.start ∧ x.start < (p.start + p.item.print.length : Nat) := by
    intro p x hx
    have hblock := p.lt_blockStart
    rcases List.mem_cons.mp hx with rfl | hx
    · show (p.start : Int) ≤ p.start ∧ (p.start : Int) < _
      omega
    · obtain ⟨q, hq, rfl⟩ := List.mem_map.mp hx
      have hbounds := ContractSite.bounds_of_mem hq
      show (p.start : Int) ≤ q.start ∧ (q.start : Int) < _
      omega
  refine List.pairwise_flatMap.mpr ⟨fun p _ => List.pairwise_cons.mpr ⟨fun x hx => ?_, ?_⟩, ?_⟩
  · -- A contract starts before its functions, which stand in its block.
    obtain ⟨q, hq, rfl⟩ := List.mem_map.mp hx
    have hbounds := ContractSite.bounds_of_mem hq
    have hblock := ContractSite.lt_blockStart p
    show (p.start : Int) < q.start
    omega
  · refine List.pairwise_map.mpr ((pairwise_functionSites p).imp fun {q q'} hle => ?_)
    have hbody := q.lt_bodyStart form
    show (q.start : Int) < q'.start
    omega
  · -- What one contract defines lies within it, and the contracts do not overlap.
    refine (pairwise_contractSites cs).imp fun {p p'} hle x hx y hy => ?_
    have hx := hstart p x hx
    have hy := hstart p' y hy
    omega

/-! ## Views -/

theorem madeOf_printSource (cs : List ContractDecl) :
    Text.MadeOf " (),;\n\x7b\x7d".toList (printSource cs) := by
  refine Text.MadeOf.flatMap fun c _ => ?_
  have hhead : Text.MadeOf " (),;\n\x7b\x7d".toList c.printHead := (madeOf_printHead c).mono (by decide)
  have hopen : Text.MadeOf " (),;\n\x7b\x7d".toList "\x7b\n".toList := by decide
  have hspaces : Text.MadeOf " (),;\n\x7b\x7d".toList "    ".toList := by decide
  have hfunctions : Text.MadeOf " (),;\n\x7b\x7d".toList (c.functions.flatMap printFunction) :=
    Text.MadeOf.flatMap fun f _ => hspaces.append ((f.madeOf_print form).mono (by decide))
  exact hhead.append ((hopen.append hfunctions).append (by decide))

theorem code_printSource (cs : List ContractDecl) :
    CommentStyle.cFamily.code (printSource cs) = printSource cs :=
  CommentStyle.code_of_plain false ((madeOf_printSource cs).not_isQuote (by decide))

theorem outline_printSource (cs : List ContractDecl) :
    CommentStyle.cFamily.outline (printSource cs) = printSource cs :=
  CommentStyle.outline_of_plain false ((madeOf_printSource cs).not_isQuote (by decide))

end CodeAtlas.Solidity
