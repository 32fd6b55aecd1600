import CodeAtlas.Extraction.File
import CodeAtlas.Proofs.Comment.Relexing

set_option autoImplicit false

/-! # Comments and literals do not matter

A file is scanned through its two views, so what is extracted from it depends on them alone. Blanking
the comments of a file leaves both views as they are (`code_code`, `outline_code`), hence the same is
extracted. Blanking the contents of its literals as well leaves the outline as it is; the code then
differs, but only imports are looked for in the code.

That definitions, calls and parents do not depend on the code is shown once for each operation on the
record of a scan: it commutes with replacing the code and the imports (`Scan.recode`), and therefore
so does every pass.
-/

namespace CodeAtlas

namespace Scan

/-- The record with another code and other imports. -/
def recode (s : Scan) (code : Text) (imports : List Text) : Scan :=
  { s with code := code, imports := imports }

theorem define_recode (s : Scan) (code : Text) (imports : List Text) (d : Sighting) :
    (s.recode code imports).define d = ((s.define d).1.recode code imports, (s.define d).2) := by
  unfold define recode
  split
  · rfl
  · rfl

theorem addContainer_recode (s : Scan) (code : Text) (imports : List Text) (x : Option Definition)
    (e : Extent) :
    (s.recode code imports).addContainer x e = (s.addContainer x e).recode code imports := by
  unfold addContainer
  split <;> rfl

theorem addScope_recode (s : Scan) (code : Text) (imports : List Text) (x : Option Definition)
    (e : Extent) : (s.recode code imports).addScope x e = (s.addScope x e).recode code imports := by
  unfold addScope
  split
  · split <;> rfl
  · rfl

theorem addHeritage_recode (s : Scan) (code : Text) (imports : List Text) (x : Option Definition)
    (clauses : List Text) (kind : HeritageKind) :
    (s.recode code imports).addHeritage x clauses kind =
      (s.addHeritage x clauses kind).recode code imports := by
  unfold addHeritage
  split <;> rfl

/-- A pass that neither reads nor writes the code and the imports. -/
def Recodes (f : Scan → Match → Scan) : Prop :=
  ∀ (s : Scan) (code : Text) (imports : List Text) (m : Match),
    f (s.recode code imports) m = (f s m).recode code imports

theorem Recodes.foldl {f : Scan → Match → Scan} (hf : Recodes f) (s : Scan) (code : Text)
    (imports : List Text) (ms : List Match) :
    ms.foldl f (s.recode code imports) = (ms.foldl f s).recode code imports := by
  induction ms generalizing s with
  | nil => rfl
  | cons m ms ih => rw [List.foldl_cons, List.foldl_cons, hf, ih]

/-- Recording imports changes nothing else. -/
theorem foldl_addImport (ms : List Match) (s : Scan) :
    ∃ imports, ms.foldl (fun s m => s.addImport (m.group 1)) s = s.recode s.code imports := by
  induction ms generalizing s with
  | nil => exact ⟨s.imports, rfl⟩
  | cons m ms ih =>
      obtain ⟨imports, himports⟩ := ih (s.addImport (m.group 1))
      rw [List.foldl_cons, himports]
      refine ⟨imports, ?_⟩
      simp only [addImport]
      split <;> rfl

end Scan

namespace Solidity

open Scan

theorem recodes_addContainer : Recodes addContainer := by
  intro s code imports m
  have houtline : (s.recode code imports).outline = s.outline := rfl
  simp only [addContainer, define_recode, addContainer_recode, houtline]
  split
  · rfl
  · split
    · rw [addHeritage_recode]
    · rfl

theorem recodes_addStructOrEnum : Recodes addStructOrEnum := by
  intro s code imports m
  simp only [addStructOrEnum, define_recode]
  split
  · rw [addContainer_recode]
    rfl
  · rfl

theorem recodes_addEventOrError : Recodes addEventOrError := by
  intro s code imports m
  simp only [addEventOrError, define_recode]
  rfl

theorem addCallable_recode (s : Scan) (code : Text) (imports : List Text) (label : Label)
    (name : Text) (start headEnd : Nat) (tail : Text) (nameAt : Nat) :
    addCallable (s.recode code imports) label name start headEnd tail nameAt =
      (addCallable s label name start headEnd tail nameAt).recode code imports := by
  simp only [addCallable, define_recode, addScope_recode]
  rfl

theorem recodes_addFunction : Recodes addFunction := by
  intro s code imports m
  exact addCallable_recode s code imports _ _ _ _ _ _

theorem recodes_addSpecial : Recodes addSpecial := by
  intro s code imports m
  unfold addSpecial
  split
  · exact addCallable_recode s code imports _ _ _ _ _ _
  · rfl

/-- **Only imports depend on the code.** Two scans of one outline differ in nothing else. -/
theorem exists_scan_eq_recode (path code code' outline : Text) :
    ∃ imports, scan path code' outline = (scan path code outline).recode code' imports := by
  set s : Scan := { path := path, code := code, outline := outline }
  obtain ⟨imports, himports⟩ := foldl_addImport (importStatement.findAll code) s
  obtain ⟨imports', himports'⟩ := foldl_addImport (importStatement.findAll code') (s.recode code' [])
  refine ⟨imports', ?_⟩
  have hstart : (importStatement.findAll code').foldl (fun s m => s.addImport (m.group 1))
      (s.recode code' []) =
      ((importStatement.findAll code).foldl (fun s m => s.addImport (m.group 1)) s).recode code'
        imports' := by
    rw [himports', himports]
    rfl
  have hmodifier : Recodes addModifier := fun s code imports m =>
    addCallable_recode s code imports _ _ _ _ _ _
  have hconstructor : Recodes addConstructor := fun s code imports m =>
    addCallable_recode s code imports _ _ _ _ _ _
  unfold scan
  -- The replacement moves outward through one pass after another.
  show List.foldl _ (List.foldl _ (List.foldl _ (List.foldl _ (List.foldl _ (List.foldl _
    (List.foldl _ ((importStatement.findAll code').foldl _ (s.recode code' [])) _) _) _) _) _) _) _ = _
  rw [hstart, recodes_addContainer.foldl, recodes_addStructOrEnum.foldl,
    recodes_addEventOrError.foldl, hmodifier.foldl, recodes_addFunction.foldl, hconstructor.foldl,
    recodes_addSpecial.foldl]

/-- **Comments and literals do not matter in Solidity.** Each view of a view is the view that blanks
more; so blanking the comments of a file changes nothing that is extracted from it, and blanking the
contents of its literals too changes at most the imports. -/
theorem extract_views (path source : Text) :
    (CommentStyle.cFamily.code (CommentStyle.cFamily.code source) =
        CommentStyle.cFamily.code source ∧
      CommentStyle.cFamily.outline (CommentStyle.cFamily.code source) =
        CommentStyle.cFamily.outline source ∧
      CommentStyle.cFamily.outline (CommentStyle.cFamily.outline source) =
        CommentStyle.cFamily.outline source ∧
      CommentStyle.cFamily.code (CommentStyle.cFamily.outline source) =
        CommentStyle.cFamily.outline source) ∧
    extract path (CommentStyle.cFamily.code source) = extract path source ∧
    (extract path (CommentStyle.cFamily.outline source)).definitions =
        (extract path source).definitions ∧
      (extract path (CommentStyle.cFamily.outline source)).calls = (extract path source).calls ∧
      (extract path (CommentStyle.cFamily.outline source)).heritage =
        (extract path source).heritage := by
  have hfamily : CommentStyle.cFamily = CommentStyle.family false := rfl
  have hregex : false = true →
      CommentStyle.slashesDivideFrom [] ((CommentStyle.family false).tokens source) = true := by
    simp
  rw [hfamily]
  refine ⟨⟨CommentStyle.code_code hregex, CommentStyle.outline_code hregex,
    CommentStyle.outline_outline source, CommentStyle.code_outline source⟩, ?_, ?_⟩
  · simp only [extract, hfamily, CommentStyle.code_code hregex, CommentStyle.outline_code hregex]
  · obtain ⟨imports, hscan⟩ := exists_scan_eq_recode path (CommentStyle.cFamily.code source)
      (CommentStyle.cFamily.outline source) (CommentStyle.cFamily.outline source)
    rw [hfamily] at hscan
    simp only [extract, hfamily, CommentStyle.outline_outline, CommentStyle.code_outline, hscan]
    exact ⟨rfl, rfl, rfl⟩

end Solidity

/-! ## Scripts -/

namespace Script

/-- **Comments do not matter in a script** whose plain slashes are divisions: blanking them changes
nothing that is extracted. -/
theorem extract_code (language : Language) (path source : Text)
    (h : CommentStyle.slashesDivide source = true) :
    extract language path (CommentStyle.script.code source) = extract language path source := by
  have hregex : true = true →
      CommentStyle.slashesDivideFrom [] ((CommentStyle.family true).tokens source) = true := fun _ => h
  have hfamily : CommentStyle.script = CommentStyle.family true := rfl
  simp only [extract, hfamily, CommentStyle.code_code hregex, CommentStyle.outline_code hregex]

/-- A division after a comment, a literal after another, and a literal that holds marks of comments. -/
def mixedSource : Text :=
  "a = b /* x */ / c; // y\nd = /[/*]\\/\x60/g; /* z */ e(d) / f\nreturn /h()/".toList

theorem extract_code_mixed :
    CommentStyle.slashesDivide mixedSource = true ∧
      extract .javascript "a.js".toList (CommentStyle.script.code mixedSource) =
        extract .javascript "a.js".toList mixedSource := by
  have h : CommentStyle.slashesDivide mixedSource = true := by decide +kernel
  exact ⟨h, extract_code .javascript "a.js".toList mixedSource h⟩

/-- A literal after a comment, where an operand is expected. -/
def hiddenLiteral : Text := "const tick = /* one */ /\x60/g;\nfunction f() \x7b g(); \x7d\n".toList

/-- **A comment can hide a regular-expression literal.** The backquote in it then opens a template
that takes in the rest of the file; without the comment the function after it is found. -/
theorem extract_code_ne :
    extract .javascript "a.js".toList (CommentStyle.script.code hiddenLiteral) ≠
      extract .javascript "a.js".toList hiddenLiteral := by
  decide +kernel

end Script

end CodeAtlas
