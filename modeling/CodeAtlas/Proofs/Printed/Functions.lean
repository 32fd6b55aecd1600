import CodeAtlas.Proofs.Comment.Reading
import CodeAtlas.Proofs.Printed.Sites
import CodeAtlas.Proofs.Text.Lines

set_option autoImplicit false

/-! # Functions in their printed form

A source file is printed from functions, each with its name and the names it calls:

    function f() { g1(); g2(); }

What stands between the parentheses and the body, where lines are broken and how the calls are set apart
is the form that a language prints its functions in (`Printed.Form`). Whatever the form, what the
scanners compute at the head of a function is told by its site: where its parameters and its body end
(`Site.parenEnd_eq`, `Site.bodyAfter_eq`), on which line (`Site.lineOf_bodyEnd`), and which calls stand in
its body (`Site.bounds_of_mem_callSites`).
-/

namespace CodeAtlas

open Text (Stands)

/-! ## Characters -/

namespace Text

/-- A letter, a digit or the low line. -/
def isAsciiWord (c : Char) : Bool := isAsciiLetter c || isAsciiDigit c || c == '_'

/-- What holds of every character of a text is decided along the text, not over all characters. -/
instance (priority := high) decidableForallMem (t : Text) (p : Char → Prop) [DecidablePred p] :
    Decidable (∀ c ∈ t, p c) :=
  List.decidableBAll p t

/-- Letters, digits and low lines, of which the first is no digit. -/
def IsIdentifier (t : Text) : Prop :=
  t.head?.any (fun c => isAsciiLetter c || c == '_') = true ∧ ∀ c ∈ t, isAsciiWord c = true

instance (t : Text) : Decidable (IsIdentifier t) := inferInstanceAs (Decidable (_ ∧ _))

namespace IsIdentifier

variable {t : Text} (h : IsIdentifier t)
include h

theorem isWord_of_mem {c : Char} (hc : c ∈ t) : isWord c = true := by
  have hword := h.2 c hc
  simp only [isAsciiWord, Bool.or_eq_true, beq_iff_eq] at hword
  rcases hword with (hletter | hdigit) | rfl
  · exact isWord_of_isAsciiLetter hletter
  · have hlt : c.toNat < 0x80 := by
      simp only [isAsciiDigit, Bool.and_eq_true, decide_eq_true_eq] at hdigit
      omega
    simp [isWord, hlt, hdigit]
  · decide

theorem notMem {c : Char} (hc : isWord c = false) : c ∉ t := by
  intro hmem
  rw [h.isWord_of_mem hmem] at hc
  contradiction

theorem exists_cons : ∃ c w, t = c :: w ∧ (isAsciiLetter c || c == '_') = true ∧ isBlank c = false := by
  have hhead := h.1
  cases ht : t with
  | nil => simp [ht] at hhead
  | cons c w =>
      refine ⟨c, w, rfl, by simpa [ht] using hhead, ?_⟩
      by_contra hblank
      have hword := h.isWord_of_mem (c := c) (ht ▸ List.mem_cons_self)
      rw [Pattern.isWord_eq_false_of_isBlank (by simpa using hblank)] at hword
      contradiction

end IsIdentifier

/-- A text is made of word characters and some marks. -/
def MadeOf (marks t : Text) : Prop := ∀ c ∈ t, isWord c = true ∨ c ∈ marks

instance (marks t : Text) : Decidable (MadeOf marks t) :=
  inferInstanceAs (Decidable (∀ c ∈ t, isWord c = true ∨ c ∈ marks))

theorem IsIdentifier.madeOf {t : Text} (h : IsIdentifier t) (marks : Text) : MadeOf marks t :=
  fun _ hc => Or.inl (h.isWord_of_mem hc)

namespace MadeOf

variable {marks t u : Text}

theorem mono {marks' : Text} (h : MadeOf marks t) (hsub : marks ⊆ marks') : MadeOf marks' t :=
  fun c hc => (h c hc).imp_right (hsub ·)

theorem append (ht : MadeOf marks t) (hu : MadeOf marks u) : MadeOf marks (t ++ u) :=
  List.forall_mem_append.mpr ⟨ht, hu⟩

theorem flatMap {α : Type} {l : List α} {f : α → Text} (h : ∀ a ∈ l, MadeOf marks (f a)) :
    MadeOf marks (l.flatMap f) := by
  intro c hc
  obtain ⟨a, ha, hc⟩ := List.mem_flatMap.mp hc
  exact h a ha c hc

theorem intercalate {ts : List Text} (ht : MadeOf marks t) (hts : ∀ u ∈ ts, MadeOf marks u) :
    MadeOf marks (t.intercalate ts) := by
  intro c hc
  rcases of_mem_intercalate hc with hc | ⟨u, hu, hc⟩
  · exact ht c hc
  · exact hts u hu c hc

theorem notMem (h : MadeOf marks t) {c : Char} (hword : isWord c = false) (hmark : c ∉ marks) : c ∉ t := by
  intro hmem
  rcases h c hmem with hc | hc
  · rw [hc] at hword
    contradiction
  · exact hmark hc

/-- Without quotes and slashes there are no comments and no literals. -/
theorem not_isQuote (h : MadeOf marks t) (hmarks : ∀ c ∈ marks, ¬ CommentStyle.IsQuote c ∧ c ≠ '/') :
    ∀ c ∈ t, ¬ CommentStyle.IsQuote c ∧ c ≠ '/' := by
  intro c hc
  rcases h c hc with hword | hmark
  · refine ⟨?_, ?_⟩
    · rintro (rfl | rfl | rfl)
      · exact absurd hword (by decide)
      · exact absurd hword (by decide)
      · exact absurd hword (by decide)
    · rintro rfl
      exact absurd hword (by decide)
  · exact hmarks c hmark

end MadeOf

end Text

/-! ## Functions -/

namespace Printed

/-- An identifier that is none of the keywords and that may be called in the language. -/
structure Name (keywords : List Text) (l : Language) where
  text : Text
  isIdentifier : Text.IsIdentifier text
  notKeyword : text ∉ keywords
  notExcluded : text ∉ l.callExclusions

/-- A function and the names it calls. -/
structure Function (keywords : List Text) (l : Language) where
  name : Name keywords l
  calls : List (Name keywords l)

/-- How functions are printed. -/
structure Form where
  /-- What stands between the parentheses and the body. -/
  signature : Text
  /-- What comes after the opening brace. -/
  gap : Text
  /-- What comes before the name of a call. -/
  indent : Text
  /-- What comes after the parentheses of a call. -/
  finish : Text
  madeOf_signature : Text.MadeOf [' '] signature
  marks : ∀ c ∈ gap ++ indent ++ finish, c ∈ " ;\n".toList

variable {keywords : List Text} {l : Language}

/-- A call as a statement. -/
def Name.printCall (φ : Form) (g : Name keywords l) : Text :=
  φ.indent ++ (g.text ++ ("()".toList ++ φ.finish))

namespace Function

/-- The head up to the opening parenthesis. -/
def printHead (f : Function keywords l) : Text := "function ".toList ++ f.name.text ++ "(".toList

def printCalls (φ : Form) (f : Function keywords l) : Text := f.calls.flatMap (Name.printCall φ)

/-- The body from its opening brace to its closing one. -/
def printBody (φ : Form) (f : Function keywords l) : Text :=
  '\x7b' :: ((φ.gap ++ f.printCalls φ) ++ ['\x7d'])

def print (φ : Form) (f : Function keywords l) : Text :=
  f.printHead ++ (")".toList ++ (φ.signature ++ (f.printBody φ ++ "\n".toList)))

/-- What the function calls, in order; its own name is left out. -/
def callsFrom (f : Function keywords l) (source : Text) : List Call :=
  ((f.calls.map Name.text).filter (· ≠ f.name.text)).map fun called => ⟨called, source⟩

end Function

end Printed

open Printed

/-! ## Where the parts of a function stand -/

namespace Site

variable {keywords : List Text} {l : Language}

/-- The position of the opening brace. -/
def bodyStart (φ : Form) (q : Site (Function keywords l)) : Nat :=
  q.start + q.item.printHead.length + 1 + φ.signature.length

/-- The position of the closing brace. -/
def bodyEnd (φ : Form) (q : Site (Function keywords l)) : Nat :=
  q.bodyStart φ + (q.item.printBody φ).length - 1

/-- The names that are called, each behind what comes before it in its statement. -/
def callSites (φ : Form) (q : Site (Function keywords l)) : List (Site (Name keywords l)) :=
  (ofList (Name.printCall φ) (q.bodyStart φ + 1 + φ.gap.length) (q.line + φ.gap.count '\n')
    q.item.calls).map (·.behind φ.indent.length)

/-- The name of the function, after its keyword, and the names it calls. -/
def nameSites (φ : Form) (q : Site (Function keywords l)) : List (Site (Name keywords l)) :=
  ⟨q.item.name, q.start + 9, q.line⟩ :: q.callSites φ

end Site

/-! ## Facts about the printed form -/

namespace Printed

variable {keywords : List Text} {l : Language}

namespace Name

variable (n : Name keywords l)

theorem isWord_of_mem {c : Char} (hc : c ∈ n.text) : Text.isWord c = true :=
  n.isIdentifier.isWord_of_mem hc

theorem notMem {c : Char} (hc : Text.isWord c = false) : c ∉ n.text :=
  n.isIdentifier.notMem hc

theorem isNamePart_of_mem {c : Char} (hc : c ∈ n.text) : isNamePart c = true := by
  simp [isNamePart, n.isWord_of_mem hc]

theorem exists_cons : ∃ c w, n.text = c :: w ∧ (Text.isAsciiLetter c || c == '_') = true ∧
    Text.isBlank c = false :=
  n.isIdentifier.exists_cons

theorem ne_nil : n.text ≠ [] := by
  obtain ⟨c, w, htext, -⟩ := n.exists_cons
  rw [htext]
  exact List.cons_ne_nil c w

theorem length_printCall (φ : Form) :
    (n.printCall φ).length = φ.indent.length + n.text.length + 2 + φ.finish.length := by
  have hparens : "()".toList.length = 2 := by decide
  simp only [printCall, List.length_append, hparens]
  omega

end Name

namespace Form

variable (φ : Form)

theorem mem_gap {c : Char} (hc : c ∈ φ.gap) : c ∈ " ;\n".toList :=
  φ.marks c (List.mem_append_left _ (List.mem_append_left _ hc))

theorem mem_indent {c : Char} (hc : c ∈ φ.indent) : c ∈ " ;\n".toList :=
  φ.marks c (List.mem_append_left _ (List.mem_append_right _ hc))

theorem mem_finish {c : Char} (hc : c ∈ φ.finish) : c ∈ " ;\n".toList :=
  φ.marks c (List.mem_append_right _ hc)

theorem isWord_of_mark {c : Char} (hc : c ∈ " ;\n".toList) : Text.isWord c = false :=
  (by decide : ∀ e ∈ " ;\n".toList, Text.isWord e = false) c hc

theorem isSignature_of_mem {c : Char} (hc : c ∈ φ.signature) : c ≠ '\x7b' ∧ c ≠ ';' := by
  refine ⟨?_, ?_⟩
  · rintro rfl
    exact φ.madeOf_signature.notMem (by decide) (by decide) hc
  · rintro rfl
    exact φ.madeOf_signature.notMem (by decide) (by decide) hc

end Form

namespace Function

variable (φ : Form) (f : Function keywords l)

theorem length_printHead : f.printHead.length = f.name.text.length + 10 := by
  have hkeyword : "function ".toList.length = 9 := by decide
  have hparen : "(".toList.length = 1 := by decide
  unfold printHead
  rw [List.length_append, List.length_append, hkeyword, hparen]
  omega

theorem length_printBody : (f.printBody φ).length = φ.gap.length + (f.printCalls φ).length + 2 := by
  simp only [printBody, List.length_cons, List.length_append, List.length_nil]

theorem length_print : (f.print φ).length =
    f.name.text.length + 12 + φ.signature.length + (f.printBody φ).length := by
  have hparen : ")".toList.length = 1 := by decide
  have hend : "\n".toList.length = 1 := by decide
  simp only [print, List.length_append, length_printHead, hparen, hend]
  omega

theorem madeOf_printCalls : Text.MadeOf " ();\n".toList (f.printCalls φ) := by
  have hmarks : ∀ c ∈ " ;\n".toList, c ∈ " ();\n".toList := by decide
  refine Text.MadeOf.flatMap fun g _ => ?_
  have hparens : Text.MadeOf " ();\n".toList "()".toList := by decide
  exact Text.MadeOf.append (fun c hc => Or.inr (hmarks c (φ.mem_indent hc)))
    ((g.isIdentifier.madeOf _).append
      (hparens.append fun c hc => Or.inr (hmarks c (φ.mem_finish hc))))

theorem madeOf_block : Text.MadeOf " ();\n".toList (φ.gap ++ f.printCalls φ) := by
  have hmarks : ∀ c ∈ " ;\n".toList, c ∈ " ();\n".toList := by decide
  exact Text.MadeOf.append (fun c hc => Or.inr (hmarks c (φ.mem_gap hc))) (f.madeOf_printCalls φ)

theorem madeOf_printHead : Text.MadeOf " (".toList f.printHead := by
  have hkeyword : Text.MadeOf " (".toList "function ".toList := by decide
  exact (hkeyword.append (f.name.isIdentifier.madeOf _)).append (by decide)

theorem madeOf_print : Text.MadeOf " ();\n\x7b\x7d".toList (f.print φ) := by
  have hblock : Text.MadeOf " ();\n\x7b\x7d".toList (φ.gap ++ f.printCalls φ) :=
    (f.madeOf_block φ).mono (by decide)
  have hbody : Text.MadeOf " ();\n\x7b\x7d".toList (f.printBody φ) :=
    Text.MadeOf.append (t := ['\x7b']) (by decide) (hblock.append (by decide))
  have hparen : Text.MadeOf " ();\n\x7b\x7d".toList ")".toList := by decide
  exact (f.madeOf_printHead.mono (by decide)).append
    (hparen.append ((φ.madeOf_signature.mono (by decide)).append (hbody.append (by decide))))

theorem level_block : Bracket.Level '\x7b' '\x7d' (φ.gap ++ f.printCalls φ) :=
  Bracket.level_of_notMem ((f.madeOf_block φ).notMem (by decide) (by decide))
    ((f.madeOf_block φ).notMem (by decide) (by decide))

theorem level_print : Bracket.Level '\x7b' '\x7d' (f.print φ) := by
  have hne : '\x7b' ≠ '\x7d' := by decide
  have hhead : Bracket.Level '\x7b' '\x7d' f.printHead :=
    Bracket.level_of_notMem (f.madeOf_printHead.notMem (by decide) (by decide))
      (f.madeOf_printHead.notMem (by decide) (by decide))
  have hsignature : Bracket.Level '\x7b' '\x7d' φ.signature :=
    Bracket.level_of_notMem (φ.madeOf_signature.notMem (by decide) (by decide))
      (φ.madeOf_signature.notMem (by decide) (by decide))
  have hparen : Bracket.Level '\x7b' '\x7d' ")".toList := Bracket.level_of_notMem (by decide) (by decide)
  have hend : Bracket.Level '\x7b' '\x7d' "\n".toList := Bracket.level_of_notMem (by decide) (by decide)
  exact hhead.append hne (hparen.append hne (hsignature.append hne
    (((f.level_block φ).block hne).append hne hend)))

theorem count_printBody : (f.printBody φ).count '\n' =
    φ.gap.count '\n' + f.calls.length * (φ.indent ++ φ.finish).count '\n' := by
  have hcall : ∀ g : Name keywords l,
      (g.printCall φ).count '\n' = (φ.indent ++ φ.finish).count '\n' := by
    intro g
    have hname : g.text.count '\n' = 0 := List.count_eq_zero.mpr (g.notMem (by decide))
    have hparens : "()".toList.count '\n' = 0 := by decide
    simp only [Name.printCall, List.count_append, hname, hparens]
    omega
  have hcalls : (f.printCalls φ).count '\n' = f.calls.length * (φ.indent ++ φ.finish).count '\n' := by
    unfold printCalls
    induction f.calls with
    | nil => simp
    | cons g gs ih =>
        rw [List.flatMap_cons, List.count_append, hcall, ih, List.length_cons, Nat.succ_mul]
        omega
  have hopen : (['\x7b'] : Text).count '\n' = 0 := by decide
  have hclose : (['\x7d'] : Text).count '\n' = 0 := by decide
  rw [printBody, ← List.singleton_append]
  simp only [List.count_append, hopen, hclose, hcalls]
  omega

theorem count_printHead : f.printHead.count '\n' = 0 :=
  List.count_eq_zero.mpr (f.madeOf_printHead.notMem (by decide) (by decide))

theorem count_print : (f.print φ).count '\n' = (f.printBody φ).count '\n' + 1 := by
  have hsignature : φ.signature.count '\n' = 0 :=
    List.count_eq_zero.mpr (φ.madeOf_signature.notMem (by decide) (by decide))
  have hparen : ")".toList.count '\n' = 0 := by decide
  have hend : "\n".toList.count '\n' = 1 := by decide
  simp only [print, List.count_append, count_printHead, hsignature, hparen, hend]
  omega

end Function

/-! ## Words -/

section Avoids

variable {ws : List Text} (hnil : [] ∉ ws) {φ : Form}
include hnil

theorem Name.avoids_printCall {g : Name keywords l} (hg : g.text ∉ ws) :
    Text.Avoids ws (g.printCall φ) := by
  have hindent : Text.Avoids ws φ.indent :=
    Text.avoids_marks (fun c hc => Form.isWord_of_mark (φ.mem_indent hc)) hnil
  have hmarks : Text.Avoids ws ("()".toList ++ φ.finish) := by
    refine Text.avoids_marks (List.forall_mem_append.mpr ⟨by decide, fun c hc => ?_⟩) hnil
    exact Form.isWord_of_mark (φ.mem_finish hc)
  exact hindent.append (hmarks.word_append (fun c hc => g.isWord_of_mem hc) hg rfl)

namespace Function

variable {f : Function keywords l}

theorem avoids_printHead (hfunction : "function".toList ∉ ws) (hname : f.name.text ∉ ws) :
    Text.Avoids ws f.printHead := by
  -- Word by word: what follows each of them cannot be part of a word.
  have hkeyword : Text.Avoids ws ("function".toList ++ " ".toList) :=
    (Text.avoids_marks (by decide) hnil).word_append (by decide) hfunction (by decide)
  have hparen : Text.Avoids ws (f.name.text ++ "(".toList) :=
    (Text.avoids_marks (by decide) hnil).word_append (fun c hc => f.name.isWord_of_mem hc) hname
      (by decide)
  have hhead := hkeyword.append hparen
  rwa [← List.append_assoc] at hhead

/-- What follows the opening parenthesis has the words of the signature and the names that are called. -/
theorem avoids_afterParen (hsignature : Text.Avoids ws (")".toList ++ φ.signature))
    (hcalls : ∀ g ∈ f.calls, g.text ∉ ws) :
    Text.Avoids ws (")".toList ++ (φ.signature ++ (f.printBody φ ++ "\n".toList))) := by
  have hgap : Text.Avoids ws φ.gap :=
    Text.avoids_marks (fun c hc => Form.isWord_of_mark (φ.mem_gap hc)) hnil
  have hlines : Text.Avoids ws (f.printCalls φ) :=
    Text.Avoids.flatMap (fun g hg => Name.avoids_printCall hnil (hcalls g hg)) hnil
  have hopen : Text.Avoids ws ['\x7b'] := Text.avoids_marks (by decide) hnil
  have hclose : Text.Avoids ws ['\x7d'] := Text.avoids_marks (by decide) hnil
  have hbody : Text.Avoids ws (f.printBody φ) := hopen.append ((hgap.append hlines).append hclose)
  have hafter := hsignature.append (hbody.append (Text.avoids_marks (t := "\n".toList) (by decide) hnil))
  rwa [List.append_assoc] at hafter

end Function

end Avoids

end Printed

/-! ## What is computed at the head of a function -/

namespace Site

variable {keywords : List Text} {l : Language} {φ : Form} {q : Site (Function keywords l)} {t : Text}

/-- The name of a function stands before its body. -/
theorem lt_bodyStart (φ : Form) (q : Site (Function keywords l)) : q.start + 9 < q.bodyStart φ ∧
    q.bodyStart φ < q.bodyEnd φ ∧ q.bodyEnd φ < q.start + (q.item.print φ).length := by
  have hhead := q.item.length_printHead
  have hlength := q.item.length_print φ
  have hbody := q.item.length_printBody φ
  unfold bodyEnd bodyStart
  omega

/-- The calls of a function stand in its body. -/
theorem bounds_of_mem_callSites {x : Site (Name keywords l)} (hx : x ∈ q.callSites φ) :
    q.bodyStart φ < x.start ∧ x.start ≤ q.bodyEnd φ := by
  obtain ⟨y, hy, rfl⟩ := List.mem_map.mp hx
  have hbounds := bounds_of_mem hy
  have hcall := y.item.length_printCall φ
  have hcalls : (q.item.calls.flatMap (Name.printCall φ)).length = (q.item.printCalls φ).length := rfl
  have hlength := q.item.length_printBody φ
  show q.bodyStart φ < y.start + φ.indent.length ∧ y.start + φ.indent.length ≤ q.bodyEnd φ
  unfold bodyEnd
  omega

theorem map_item_callSites (φ : Form) (q : Site (Function keywords l)) :
    (q.callSites φ).map (·.item) = q.item.calls := by
  rw [callSites, List.map_map]
  exact map_item_ofList _ _ _ _

variable (h : Stands t (q.item.print φ) q.start q.line)
include h

theorem stands_parameters : Stands t ("()".toList ++ (φ.signature ++ (q.item.printBody φ ++ "\n".toList)))
    (q.start + q.item.name.text.length + 9) q.line := by
  have hsplit : q.item.print φ = ("function ".toList ++ q.item.name.text) ++
      (("()".toList ++ (φ.signature ++ (q.item.printBody φ ++ "\n".toList))) ++ []) := by
    have hparens : "()".toList = "(".toList ++ ")".toList := rfl
    unfold Function.print Function.printHead
    simp only [hparens, List.append_assoc, List.append_nil]
  rw [hsplit] at h
  have hcount : ("function ".toList ++ q.item.name.text).count '\n' = 0 := by
    refine List.count_eq_zero.mpr ?_
    rw [List.mem_append, not_or]
    exact ⟨by decide, q.item.name.notMem (by decide)⟩
  have hlength : q.start + ("function ".toList ++ q.item.name.text).length =
      q.start + q.item.name.text.length + 9 := by
    rw [List.length_append]
    have hkeyword : "function ".toList.length = 9 := by decide
    omega
  have hwithin := h.within
  rwa [hcount, hlength, Nat.add_zero] at hwithin

theorem parenEnd_eq : Bracket.parenEnd t (q.start + q.item.name.text.length + 9) =
    q.start + q.item.name.text.length + 10 :=
  (stands_parameters h).parenEnd_eq

theorem stands_signature : Stands t (φ.signature ++ (q.item.printBody φ ++ "\n".toList))
    (q.start + q.item.name.text.length + 11) q.line := by
  have hparameters := stands_parameters h
  rw [← List.append_nil (φ.signature ++ _)] at hparameters
  exact hparameters.within

theorem stands_body : Stands t (q.item.printBody φ) (q.bodyStart φ) q.line := by
  have hsignature : φ.signature.count '\n' = 0 :=
    List.count_eq_zero.mpr (φ.madeOf_signature.notMem (by decide) (by decide))
  have hwithin := (stands_signature h).within
  have hhead := q.item.length_printHead
  have hstart : q.start + q.item.name.text.length + 11 + φ.signature.length = q.bodyStart φ := by
    unfold bodyStart
    omega
  rwa [hsignature, hstart, Nat.add_zero] at hwithin

/-- The body of a function is found after its head. -/
theorem bodyAfter_eq : bodyAfter t (q.start + q.item.name.text.length + 11) =
    ⟨some (q.bodyStart φ), q.bodyEnd φ⟩ := by
  have hhead := q.item.length_printHead
  have hstart : q.start + q.item.name.text.length + 11 + φ.signature.length = q.bodyStart φ := by
    unfold bodyStart
    omega
  have hend : Bracket.braceEnd t (q.bodyStart φ) = q.bodyEnd φ := by
    have hlength := q.item.length_printBody φ
    rw [(stands_body h).braceEnd_eq (q.item.level_block φ), bodyEnd, List.length_append]
    omega
  have hbody := (stands_signature h).bodyAfter_eq fun c hc => φ.isSignature_of_mem hc
  rwa [hstart, hend] at hbody

/-- The closing brace is on the line that the breaks in the body lead to. -/
theorem lineOf_bodyEnd :
    Text.lineOf t (q.bodyEnd φ) = q.line + (q.item.printBody φ).count '\n' := by
  have hbody := stands_body h
  -- The brace is behind the rest of the body and has no line break itself.
  have hsplit : q.item.printBody φ =
      ('\x7b' :: (φ.gap ++ q.item.printCalls φ)) ++ (['\x7d'] ++ []) := rfl
  have hclose : (['\x7d'] ++ [] : Text).count '\n' = 0 := by decide
  have hend : q.bodyStart φ + ('\x7b' :: (φ.gap ++ q.item.printCalls φ)).length = q.bodyEnd φ := by
    have hlength := q.item.length_printBody φ
    rw [bodyEnd, List.length_cons, List.length_append]
    omega
  rw [hsplit] at hbody
  rw [hsplit, List.count_append, hclose, ← hend]
  exact hbody.within.lineOf_eq

end Site

end CodeAtlas
