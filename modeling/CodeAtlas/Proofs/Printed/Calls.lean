import CodeAtlas.Proofs.Extraction.Order
import CodeAtlas.Proofs.Printed.Functions

set_option autoImplicit false

/-! # The calls of printed functions

A name with a parenthesis after it is a call site. In a printed function there is one at its own name,
and one at each call in its body (`finds_callSite_print`). The first is no call, as the name of a
definition stands there, and the others are calls of that function, if the bodies are recorded one after
another and no definition has its name in them (`Scan.HasBodies`). So the calls of a scan are those that
were printed (`Scan.HasBodies.calls_eq`).
-/

namespace CodeAtlas

open Pattern Printed

variable {keywords : List Text} {l : Language}

/-! ## Call sites -/

/-- The match at a name with a parenthesis after it. -/
def Site.IsNamedBy (x : Site (Name keywords l)) (m : Match) : Prop :=
  m.group 1 = x.item.text ∧ m.groupStart 1 = x.start

theorem finds_callSite_name (n : Name keywords l) (line : Nat) {u : Text}
    (hu : u.getLast?.any isNamePart = false) (v : Text) :
    callSite.Finds Site.IsNamedBy u (n.text ++ ['(']) v [⟨n, u.length, line⟩] := by
  obtain ⟨d, w, htext, hd, -⟩ := n.exists_cons
  have hstart : isNameStart d = true := by
    rw [isNameStart, hd]
    rfl
  have hw : ∀ e ∈ w, isNamePart e = true := fun e he =>
    n.isNamePart_of_mem (htext ▸ List.mem_cons_of_mem d he)
  have hchooses := chooses_callSite (v := v) hu hstart hw
  rw [← htext] at hchooses
  refine hchooses.finds rfl (by simp) ⟨?_, ?_⟩
  · exact Match.group_eq_of_span rfl ⟨by simp, by simp⟩
  · rw [Match.groupStart_eq_of_span rfl]
    exact List.length_reverse

/-- A text ends apart from a name behind marks, if it does so before them. -/
theorem getLast?_append_any {p : Char → Bool} {u w : Text} (hu : u.getLast?.any p = false)
    (hw : ∀ c ∈ w, p c = false) : (u ++ w).getLast?.any p = false := by
  rw [List.getLast?_append]
  cases hlast : w.getLast? with
  | none => simpa using hu
  | some c => simpa using hw c (List.mem_of_getLast? hlast)

namespace Printed.Form

variable (φ : Form) {c : Char}

theorem isNameStart_of_mark (hc : c ∈ " ;\n".toList) : isNameStart c = false :=
  (by decide : ∀ e ∈ " ;\n".toList, isNameStart e = false) c hc

theorem isNamePart_of_mark (hc : c ∈ " ;\n".toList) : isNamePart c = false :=
  (by decide : ∀ e ∈ " ;\n".toList, isNamePart e = false) c hc

end Printed.Form

theorem finds_callSite_printCall (φ : Form) (g : Name keywords l) (line : Nat) {u : Text}
    (hu : u.getLast?.any isNamePart = false) (v : Text) :
    callSite.Finds Site.IsNamedBy u (g.printCall φ) v [Site.behind φ.indent.length ⟨g, u.length, line⟩] := by
  have hsplit : g.printCall φ = φ.indent ++ ((g.text ++ ['(']) ++ (')' :: φ.finish)) := by
    have hparens : "()".toList = ['('] ++ [')'] := rfl
    rw [Name.printCall, hparens]
    simp only [List.append_assoc, List.cons_append, List.nil_append]
  have hindent := callSite_passes_marks (w := φ.indent)
    (fun c hc => Form.isNameStart_of_mark (φ.mem_indent hc)) u
  have hname := finds_callSite_name g line (u := u ++ φ.indent)
    (getLast?_append_any hu fun c hc => Form.isNamePart_of_mark (φ.mem_indent hc))
  have hmarks := callSite_passes_marks (w := ')' :: φ.finish)
    (List.forall_mem_cons.mpr ⟨rfl, fun c hc => Form.isNameStart_of_mark (φ.mem_finish hc)⟩)
    (u ++ φ.indent ++ (g.text ++ ['('])) v
  have hfinds := (hindent _).finds.append ((hname _).append hmarks.finds)
  rw [← hsplit, List.length_append] at hfinds
  exact hfinds

theorem finds_callSite_calls (φ : Form) (f : Function keywords l) (line : Nat) {u : Text}
    (hu : u.getLast?.any isNamePart = false) (v : Text) :
    callSite.Finds Site.IsNamedBy u (f.printCalls φ) v
      ((Site.ofList (Name.printCall φ) u.length line f.calls).map (·.behind φ.indent.length)) := by
  rw [List.map_eq_flatMap]
  refine Finds.flatMap (P := fun u => u.getLast?.any isNamePart = false) (fun g _ u => ?_)
    (fun g _ line u v hu => finds_callSite_printCall φ g line hu v) line hu v
  -- A call ends with its marks, in front of which its parentheses are closed.
  have hsplit : u ++ g.printCall φ = (u ++ (φ.indent ++ (g.text ++ "()".toList))) ++ φ.finish := by
    simp only [Name.printCall, List.append_assoc]
  rw [hsplit]
  refine getLast?_append_any ?_ fun c hc => Form.isNamePart_of_mark (φ.mem_finish hc)
  have hend : (u ++ (φ.indent ++ (g.text ++ "()".toList))).getLast? = some ')' := by
    simp only [List.getLast?_append]
    rfl
  rw [hend]
  rfl

/-- **The call sites of a printed function** are its own name and its calls. -/
theorem finds_callSite_print (φ : Form) (f : Function keywords l) (line : Nat) (u v : Text) :
    callSite.Finds Site.IsNamedBy u (f.print φ) v (Site.nameSites φ ⟨f, u.length, line⟩) := by
  have hsplit : f.print φ = "function".toList ++ (" ".toList ++ ((f.name.text ++ ['(']) ++
      ((')' :: φ.signature ++ ['\x7b']) ++ (φ.gap ++ (f.printCalls φ ++ "\x7d\n".toList))))) := by
    have hkeyword : "function ".toList = "function".toList ++ " ".toList := rfl
    have hclose : "\x7d\n".toList = ['\x7d'] ++ "\n".toList := rfl
    have hopen : "(".toList = ['('] := rfl
    have hparen : ")".toList = [')'] := rfl
    unfold Function.print Function.printHead Function.printBody
    simp only [hkeyword, hclose, hopen, hparen, List.append_assoc, List.cons_append, List.nil_append]
  obtain ⟨d, w, htext, hd, hblank⟩ := f.name.exists_cons
  set u₁ := u ++ "function".toList with hu₁
  set u₂ := u₁ ++ " ".toList with hu₂
  set u₃ := u₂ ++ (f.name.text ++ ['(']) with hu₃
  set u₄ := u₃ ++ (')' :: φ.signature ++ ['\x7b']) with hu₄
  set u₅ := u₄ ++ φ.gap with hu₅
  -- The keyword has a space and a name after it, and no parenthesis.
  have hkeyword (rest : Text) : callSite.Passes u "function".toList
      (" ".toList ++ ((f.name.text ++ ['(']) ++ rest) ++ v) := by
    refine callSite_passes_name (by decide) rfl ?_ u
    have hparen : d ≠ '(' := by
      rintro rfl
      exact absurd hd (by decide)
    have hdrop : List.dropWhile Text.isBlank (" ".toList ++ ((f.name.text ++ ['(']) ++ rest) ++ v) =
        d :: (w ++ ['('] ++ rest ++ v) := by
      rw [htext]
      show List.dropWhile Text.isBlank (' ' :: d :: (w ++ ['('] ++ rest ++ v)) = _
      rw [List.dropWhile_cons_of_pos (by decide), List.dropWhile_cons_of_neg (by simp [hblank])]
    rw [hdrop]
    simpa using hparen
  have hparen : '(' ∉ ')' :: φ.signature ++ ['\x7b'] := by
    simpa using φ.madeOf_signature.notMem (by decide) (by decide)
  have hspace := callSite_passes_marks (w := " ".toList) (by decide) u₁
  have hname := finds_callSite_name f.name line (u := u₂) (by rw [hu₂, List.getLast?_append]; rfl)
  have hopen := callSite_passes_closed hparen (by decide) (by decide) u₃
  have hgap := callSite_passes_marks (w := φ.gap)
    (fun c hc => Form.isNameStart_of_mark (φ.mem_gap hc)) u₄
  have hlast : u₅.getLast?.any isNamePart = false := by
    refine getLast?_append_any ?_ fun c hc => Form.isNamePart_of_mark (φ.mem_gap hc)
    rw [hu₄, ← List.append_assoc, List.getLast?_concat]
    rfl
  have hcalls := finds_callSite_calls φ f (line + φ.gap.count '\n') hlast ("\x7d\n".toList ++ v)
  have hclose := callSite_passes_marks (w := "\x7d\n".toList) (by decide) (u₅ ++ f.printCalls φ) v
  have hfinds := (hkeyword _).finds.append <| (hspace _).finds.append <| (hname _).append <|
    (hopen _).finds.append <| (hgap _).finds.append <| hcalls.append hclose.finds
  have htwo : u₂.length = u.length + 9 := by simp [hu₂, hu₁]
  have hfive : u₅.length = Site.bodyStart φ ⟨f, u.length, line⟩ + 1 + φ.gap.length := by
    simp [hu₅, hu₄, hu₃, htwo, Site.bodyStart, f.length_printHead]
    omega
  rw [← hsplit, htwo, hfive, List.append_nil] at hfinds
  exact hfinds

/-! ## Calls -/

/-- The calls of a function, read off their sites. -/
theorem callsFrom_eq_filterMap (φ : Form) (q : Site (Function keywords l)) (source : Text) :
    q.item.callsFrom source = (q.callSites φ).filterMap fun x =>
      if x.item.text = q.item.name.text then none else some ⟨x.item.text, source⟩ := by
  rw [Function.callsFrom, ← q.map_item_callSites φ]
  induction q.callSites φ with
  | nil => rfl
  | cons x xs ih =>
      by_cases hown : x.item.text = q.item.name.text
      · simpa [hown] using ih
      · simpa [hown] using ih

/-- The body of a function, which its calls are attributed to. -/
def Site.body (φ : Form) (q : Site (Function keywords l)) (definition : Definition) : Region :=
  ⟨definition, q.bodyStart φ, q.bodyEnd φ⟩

/-- The bodies of some functions are recorded, in order, and no definition has its name in a body. -/
structure Scan.HasBodies {β : Type} (s : Scan) (φ : Form) (site : β → Site (Function keywords l))
    (definition : β → Definition) (qs : List β) : Prop where
  scopes_eq : s.scopes = qs.map fun q => (site q).body φ (definition q)
  name_eq : ∀ q ∈ qs, (definition q).name = (site q).item.name.text
  apart : qs.Pairwise fun q q' => (site q).bodyEnd φ ≤ (site q').bodyStart φ
  mem_nameOffsets : ∀ q ∈ qs, (((site q).start + 9 : Nat) : Int) ∈ s.nameOffsets
  notMem_nameOffsets : ∀ q ∈ qs, ∀ i : Nat, (site q).bodyStart φ < i → i ≤ (site q).bodyEnd φ →
    (i : Int) ∉ s.nameOffsets

namespace Scan.HasBodies

variable {β : Type} {s : Scan} {φ : Form} {site : β → Site (Function keywords l)}
  {definition : β → Definition} {qs : List β} (h : s.HasBodies φ site definition qs)
include h

/-- The name of a function is not called where it is defined. -/
theorem callAt_name {q : β} (hq : q ∈ qs) {line : Nat} {m : Match}
    (hm : Site.IsNamedBy ⟨(site q).item.name, (site q).start + 9, line⟩ m) (exclusions : List Text)
    (topLevel : Option Text) : s.callAt exclusions topLevel m = none := by
  have hoffset : s.nameOffsets.contains (m.groupStart 1 : Int) = true := by
    rw [List.contains_iff_mem, hm.2]
    exact h.mem_nameOffsets q hq
  simp only [Scan.callAt, hoffset, Bool.true_or, if_true]

/-- A call is attributed to the function it stands in, unless it is a call of that function. -/
theorem callAt_call {q : β} (hq : q ∈ qs) {x : Site (Name keywords l)}
    (hx : x ∈ (site q).callSites φ) {m : Match} (hm : x.IsNamedBy m) (topLevel : Option Text) :
    s.callAt l.callExclusions topLevel m =
      if x.item.text = (site q).item.name.text then none
      else some ⟨x.item.text, (definition q).id⟩ := by
  have hbounds := Site.bounds_of_mem_callSites hx
  have hregions : (qs.map fun q => (site q).body φ (definition q)).Pairwise
      fun r r' => r.last ≤ r'.first :=
    List.pairwise_map.mpr h.apart
  have hcontains : ((site q).body φ (definition q)).contains x.start = true := by
    rw [Region.contains_iff]
    show ((site q).bodyStart φ : Int) < x.start ∧ (x.start : Int) ≤ (site q).bodyEnd φ
    omega
  have hoffset : s.nameOffsets.contains (x.start : Int) = false := by
    simpa using h.notMem_nameOffsets q hq x.start hbounds.1 hbounds.2
  have hexcluded : l.callExclusions.contains x.item.text = false := by
    simpa using x.item.notExcluded
  simp only [Scan.callAt, hm.1, hm.2, hoffset, hexcluded, h.scopes_eq,
    Region.innermost_of_pairwise hregions (List.mem_map_of_mem hq) hcontains]
  simp only [Site.body, h.name_eq q hq, Bool.or_self, Bool.false_eq_true, if_false, beq_iff_eq]

/-- **The calls of a scan** are those of the functions, in order. -/
theorem calls_eq
    (hfound : List.Forall₂ Site.IsNamedBy (qs.flatMap fun q => (site q).nameSites φ)
      (callSite.findAll s.outline)) (topLevel : Option Text) :
    s.calls l.callExclusions topLevel =
      qs.flatMap fun q => (site q).item.callsFrom (definition q).id := by
  unfold Scan.calls
  refine filterMap_eq_flatMap_of_forall₂ hfound fun q hq ms hms => ?_
  cases hms with
  | cons hname hcalls =>
    rw [List.filterMap_cons, h.callAt_name hq hname,
      filterMap_of_forall₂ hcalls fun x hx m hm => h.callAt_call hq hx hm topLevel,
      callsFrom_eq_filterMap φ (site q)]

end Scan.HasBodies

end CodeAtlas
