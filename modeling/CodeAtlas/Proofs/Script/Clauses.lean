import CodeAtlas.Proofs.Bracket.Clauses
import CodeAtlas.Proofs.Extraction.Heritage
import CodeAtlas.Proofs.Script.Matches

set_option autoImplicit false

/-! # The clauses of a class

What stands between the name of a class and its body names its parents:

    <P> extends T<A> implements I1<B>, I2

Type arguments may hold anything, commas and the two keywords included, and white space may stand between
any two parts. Dropping the arguments leaves names, commas and keywords (`ClassSuffix.strips`), each search
finds its clause if it is there (`shows_clauses`), and splitting a clause gives its names
(`Clause.splitTopLevel_core`). So the scanner records the last component of each name, first those after
`extends` and then those after `implements` (`addParents_eq`).
-/

namespace CodeAtlas.Script

open Pattern

/-! ## Clauses and their printed form -/

/-- White space, or none. -/
structure Gap where
  text : Text
  isBlank : ∀ c ∈ text, Text.isBlank c = true

/-- White space. -/
structure Space extends Gap where
  ne_nil : text ≠ []

/-- The words that open a clause. -/
def clauseWords : List Text := ["extends".toList, "implements".toList]

/-- Type arguments: any text of a head in which the angle brackets are balanced. -/
structure TypeArguments where
  /-- What stands before the opening bracket. -/
  gap : Gap
  text : Text
  isHead : ∀ c ∈ text, isHead c = true
  balanced : Bracket.Balanced '<' '>' text

def TypeArguments.print (a : TypeArguments) : Text := a.gap.text ++ ('<' :: (a.text ++ ['>']))

/-- A type in a clause, with the white space around it. -/
structure TypeName where
  before : Gap
  name : DottedName clauseWords
  arguments : Option TypeArguments
  after : Gap

namespace TypeName

def print (n : TypeName) : Text :=
  n.before.text ++ (n.name.text ++ (n.arguments.elim [] TypeArguments.print ++ n.after.text))

/-- What follows the name without the type arguments. -/
def tail (n : TypeName) : Gap where
  text := n.arguments.elim [] (·.gap.text) ++ n.after.text
  isBlank := by
    intro c hc
    rcases List.mem_append.mp hc with hc | hc
    · cases harguments : n.arguments with
      | none => simp [harguments] at hc
      | some a => exact a.gap.isBlank c (by simpa [harguments] using hc)
    · exact n.after.isBlank c hc

/-- What is left without the type arguments. -/
def bare (n : TypeName) : Text := n.before.text ++ (n.name.text ++ n.tail.text)

/-- The type without the white space before it. -/
def unpadded (n : TypeName) : TypeName := { n with before := ⟨[], by simp⟩ }

end TypeName

/-- A clause: its keyword, which stands between white space, and the types that it lists. -/
structure Clause where
  left : Space
  right : Space
  first : TypeName
  others : List TypeName

namespace Clause

/-- The last components of the names, in order. -/
def names (k : Clause) : List Text := (k.first :: k.others).map (·.name.last)

def print (k : Clause) (word : Text) : Text :=
  k.left.text ++ (word ++ (k.right.text ++ [','].intercalate ((k.first :: k.others).map TypeName.print)))

/-- The types without arguments, from the first name on. -/
def core (k : Clause) : Text := [','].intercalate ((k.first.unpadded :: k.others).map TypeName.bare)

/-- What follows the keyword, without arguments. -/
def body (k : Clause) : Text := k.right.text ++ (k.first.before.text ++ k.core)

end Clause

/-- What stands between the name of a class and its body. A class extends one class and implements any
number of interfaces; a list after `extends` is read alike. -/
structure ClassSuffix where
  parameters : Option TypeArguments
  extended : Option Clause
  implemented : Option Clause
  last : Gap

namespace ClassSuffix

def print (c : ClassSuffix) : Text :=
  c.parameters.elim [] TypeArguments.print ++
    (c.extended.elim [] (·.print "extends".toList) ++
      (c.implemented.elim [] (·.print "implements".toList) ++ c.last.text))

/-- What is left without type arguments. -/
def bare (c : ClassSuffix) : Text :=
  c.parameters.elim [] (·.gap.text) ++
    (c.extended.elim [] (fun k => k.left.text ++ ("extends".toList ++ k.body)) ++
      (c.implemented.elim [] (fun k => k.left.text ++ ("implements".toList ++ k.body)) ++ c.last.text))

/-- The parents named after `extends`. -/
def extendedNames (c : ClassSuffix) : List Text := c.extended.elim [] Clause.names

/-- The interfaces named after `implements`. -/
def implementedNames (c : ClassSuffix) : List Text := c.implemented.elim [] Clause.names

end ClassSuffix

/-! ## White space -/

namespace Gap

theorem strips (g : Gap) : Bracket.Strips g.text g.text :=
  Bracket.strips_of_notMem (fun h => absurd (g.isBlank _ h) (by decide))
    fun h => absurd (g.isBlank _ h) (by decide)

theorem isInert (g : Gap) : ∀ c ∈ g.text, Bracket.IsInert c :=
  fun _ hc => Bracket.isInert_of_isBlank (g.isBlank _ hc)

theorem isWord_eq_false (g : Gap) : ∀ c ∈ g.text, Text.isWord c = false :=
  fun _ hc => isWord_eq_false_of_isBlank (g.isBlank _ hc)

theorem lacks (g : Gap) {ws : List Text} (hnil : [] ∉ ws) : Text.Lacks ws g.text :=
  (Text.avoids_marks g.isWord_eq_false hnil).1

/-- No word goes on into white space. -/
theorem head?_any_isWord (g : Gap) : g.text.head?.any Text.isWord = false := by
  cases h : g.text.head? with
  | none => rfl
  | some c => exact g.isWord_eq_false c (List.mem_of_mem_head? h)

theorem getLast?_any_isWord (g : Gap) : g.text.getLast?.any Text.isWord = false := by
  cases h : g.text.getLast? with
  | none => rfl
  | some c => exact g.isWord_eq_false c (List.mem_of_getLast? h)

end Gap

/-! ## Dropping the arguments -/

theorem TypeArguments.strips (a : TypeArguments) : Bracket.Strips a.print a.gap.text := by
  have hstrips := a.gap.strips.append (Bracket.strips_arguments a.balanced)
  rwa [List.append_nil] at hstrips

theorem strips_elim (o : Option TypeArguments) :
    Bracket.Strips (o.elim [] TypeArguments.print) (o.elim [] (·.gap.text)) := by
  cases o with
  | none => exact fun _ => rfl
  | some a => exact a.strips

theorem TypeName.strips (n : TypeName) : Bracket.Strips n.print n.bare :=
  n.before.strips.append (n.name.strips.append
    ((strips_elim n.arguments).append n.after.strips))

/-- The first type of a clause, with what stands before it. -/
theorem Clause.join_bare (k : Clause) :
    [','].intercalate ((k.first :: k.others).map TypeName.bare) = k.first.before.text ++ k.core := by
  rw [core, List.map_cons, List.map_cons, Text.intercalate_cons, Text.intercalate_cons, ← List.append_assoc]
  rfl

theorem Clause.strips (k : Clause) {word : Text} (hopen : '<' ∉ word) (hclose : '>' ∉ word) :
    Bracket.Strips (k.print word) (k.left.text ++ (word ++ k.body)) := by
  have hlist := Bracket.Strips.join (Bracket.strips_of_notMem (w := [',']) (by decide) (by decide))
    fun n (_ : n ∈ k.first :: k.others) => n.strips
  rw [k.join_bare] at hlist
  exact k.left.strips.append ((Bracket.strips_of_notMem hopen hclose).append
    (k.right.strips.append hlist))

/-- **The arguments are dropped** and all else is left. -/
theorem ClassSuffix.strips (c : ClassSuffix) : Bracket.Strips c.print c.bare := by
  have hclause : ∀ (o : Option Clause) (word : Text), '<' ∉ word → '>' ∉ word →
      Bracket.Strips (o.elim [] (·.print word))
        (o.elim [] fun k => k.left.text ++ (word ++ k.body)) := by
    intro o word hopen hclose
    cases o with
    | none => exact fun _ => rfl
    | some k => exact k.strips hopen hclose
  exact (strips_elim c.parameters).append ((hclause c.extended _ (by decide) (by decide)).append
    ((hclause c.implemented _ (by decide) (by decide)).append c.last.strips))

/-! ## Splitting a clause -/

namespace TypeName

theorem trim_bare (n : TypeName) : Text.trim n.bare = n.name.text :=
  Text.trim_append n.before.isBlank n.name.isBlank_eq_false n.tail.isBlank

theorem isInert_bare (n : TypeName) : ∀ c ∈ n.bare, Bracket.IsInert c := by
  intro c hc
  rcases List.mem_append.mp hc with hc | hc
  · exact n.before.isInert c hc
  rcases List.mem_append.mp hc with hc | hc
  · exact n.name.isInert c hc
  · exact n.tail.isInert c hc

end TypeName

/-- **The names of a clause are the pieces between its commas.** -/
theorem Clause.splitTopLevel_core (k : Clause) :
    Bracket.splitTopLevel [','] k.core = (k.first :: k.others).map (·.name.text) := by
  have hsplit : Bracket.splitTopLevel [','] k.core =
      ((k.first.unpadded :: k.others).map TypeName.bare).map Text.trim := by
    refine Bracket.splitTopLevel_join (g := []) (by simp) ?_ ?_ fun t ht => ?_
    · rw [List.forall_mem_map]
      intro n _
      obtain ⟨c, w, hcons⟩ := n.name.exists_cons
      rw [n.trim_bare, hcons]
      exact List.cons_ne_nil c w
    · rw [List.forall_mem_map]
      exact fun n _ => (Bracket.unsplit_of_isInert n.isInert_bare).1
    · obtain ⟨n, -, rfl⟩ := List.mem_map.mp (List.mem_of_mem_dropLast ht)
      exact (Bracket.unsplit_of_isInert n.isInert_bare).2
  rw [hsplit, List.map_map, List.map_cons, List.map_cons]
  refine congrArg₂ List.cons k.first.unpadded.trim_bare ?_
  exact List.map_congr_left fun n _ => n.trim_bare

theorem heritageOf_clause (k : Clause) (d : Definition) (kind : HeritageKind) :
    Scan.heritageOf d ((k.first :: k.others).map (·.name.text)) kind = d.inherits k.names kind := by
  refine Scan.heritageOf_eq ?_ d kind
  rw [Clause.names, List.forall₂_map_left_iff, List.forall₂_map_right_iff, List.forall₂_same]
  intro n _
  have hname := parentName?_text n.name (r := []) rfl
  rw [List.append_nil] at hname
  refine hname (Text.trim_eq_self (fun c hc => ?_) fun c hc => ?_)
  · exact n.name.isBlank_eq_false c (List.mem_of_mem_head? hc)
  · exact n.name.isBlank_eq_false c (List.mem_of_getLast? hc)

/-! ## Words of a clause -/

theorem TypeName.lacks_bare (n : TypeName) : Text.Lacks clauseWords n.bare := by
  have hnil : [] ∉ clauseWords := by decide
  have hname := (n.name.lacks hnil).append (n.tail.lacks hnil) (Or.inr n.tail.head?_any_isWord)
  exact (n.before.lacks hnil).append hname (Or.inl n.before.getLast?_any_isWord)

namespace Clause

theorem lacks_core (k : Clause) : Text.Lacks clauseWords k.core := by
  refine Text.lacks_join (by decide) (by decide) ?_
  rw [List.forall_mem_map]
  exact fun n _ => n.lacks_bare

/-- The list of a clause starts with a name. -/
theorem exists_core_cons (k : Clause) : ∃ c w, k.core = c :: w ∧ Text.isBlank c = false := by
  obtain ⟨c, w, hcons⟩ := k.first.name.exists_cons
  have hcore : k.core = k.first.name.text ++ (k.first.tail.text ++
      (k.others.map TypeName.bare).flatMap (',' :: ·)) := by
    rw [core, List.map_cons, Text.intercalate_cons, ← List.append_assoc]
    rfl
  rw [hcore, hcons]
  exact ⟨c, _, rfl, k.first.name.isBlank_eq_false c (hcons ▸ List.mem_cons_self)⟩

theorem lacks_body (k : Clause) : Text.Lacks clauseWords k.body := by
  have hnil : [] ∉ clauseWords := by decide
  have hlist := (k.first.before.lacks hnil).append k.lacks_core
    (Or.inl k.first.before.getLast?_any_isWord)
  exact (k.right.lacks hnil).append hlist (Or.inl k.right.getLast?_any_isWord)

end Clause

/-! ## Finding the clauses -/

/-- Where the clause of the parent class ends. -/
def clauseEnd : Pattern := .ahead (.alt (wholeWord ["implements".toList]) .finish)

theorem headedBy_implementsClause : implementsClause.HeadedBy ["implements".toList] :=
  ((spells_lit _).opens (by decide) (startsApart_blanks1.all_cons _)).headedBy_boundary (by decide)

theorem headedBy_extendsClause : extendsClause.HeadedBy ["extends".toList] :=
  ((spells_lit _).opens (by decide) (startsApart_blanks1.all_cons _)).headedBy_boundary (by decide)

theorem headedBy_implements : (wholeWord ["implements".toList]).HeadedBy ["implements".toList] :=
  headedBy_wholeWord (by decide) (by decide)

/-- A clause does not end within a stretch of other words. -/
theorem not_fits_clauseEnd {a b v : Text} (hlacks : Text.Lacks ["implements".toList] (a ++ b))
    (hb : b ≠ [])
    (hseam : (a ++ b).getLast?.any Text.isWord = false ∨ v.head?.any Text.isWord = false)
    (hfinish : b ++ v ≠ ['\n']) (before : Text) (groups : List (Nat × Cursor × Cursor))
    (t : MatchState) : ¬ clauseEnd.Fits ⟨⟨a.reverse ++ before, b ++ v⟩, groups⟩ t := by
  intro h
  cases h with
  | ahead h =>
  cases h with
  | altLeft h =>
      have hnot := not_fits_of_words headedBy_implements hlacks hb hseam before.reverse groups
      rw [List.reverse_append, List.reverse_reverse] at hnot
      exact hnot _ h
  | altRight h =>
      cases h with
      | finish hat =>
          simp only [atFinish, Bool.or_eq_true, beq_iff_eq, List.append_eq_nil_iff] at hat
          rcases hat with ⟨hnil, -⟩ | hline
          · exact hb hnil
          · exact hfinish hline

/-- A stretch that starts with `c` and goes on with `x` is a clause where `y` follows, and no shorter
stretch is one. -/
structure EndsAt (c : Char) (x y : Text) : Prop where
  not_fits : ∀ a b, x = a ++ b → b ≠ [] → ∀ before groups t,
    ¬ clauseEnd.Fits ⟨⟨(c :: a).reverse ++ before, b ++ y⟩, groups⟩ t
  chooses : ∀ before groups, clauseEnd.Chooses ⟨⟨(c :: x).reverse ++ before, y⟩, groups⟩
    ⟨⟨(c :: x).reverse ++ before, y⟩, groups⟩

/-- The stretch ends right before the other clause. -/
theorem endsAt_clause {c : Char} {x r : Text} (hlacks : Text.Lacks ["implements".toList] (c :: x))
    (hlast : (c :: x).getLast?.any Text.isWord = false) (hr : r.head?.any Text.isWord = false) :
    EndsAt c x ("implements".toList ++ r) where
  not_fits := by
    rintro a b rfl hb before groups t
    refine not_fits_clauseEnd (a := c :: a) hlacks hb (Or.inl hlast) (fun hline => ?_) before groups t
    have hlength := congrArg List.length hline
    simp at hlength
    omega
  chooses := by
    intro before groups
    have hstart : atBoundary ⟨(c :: x).reverse ++ before, "implements".toList ++ r⟩ = true := by
      rw [atBoundary, List.head?_append_of_ne_nil _ (by simp), List.head?_reverse, hlast]
      rfl
    have hend : atBoundary ⟨"implements".toList.reverse ++ ((c :: x).reverse ++ before), r⟩ = true := by
      show (true != r.head?.any Text.isWord) = true
      rw [hr]
      rfl
    have hword : (wholeWord ["implements".toList]).Chooses
        ⟨⟨(c :: x).reverse ++ before, "implements".toList ++ r⟩, groups⟩ _ :=
      (chooses_boundary hstart).all_cons <| (chooses_lit _).all_cons <|
      (chooses_boundary hend).all_cons (chooses_all_nil _)
    exact chooses_ahead hword.altLeft

/-- The stretch ends at the end of the text, where nothing is left or a last line feed. -/
theorem endsAt_finish {c : Char} {x y : Text} (hlacks : Text.Lacks ["implements".toList] (c :: x))
    (hy : y = [] ∧ x.getLast? ≠ some '\n' ∨ y = ['\n']) : EndsAt c x y where
  not_fits := by
    rintro a b rfl hb before groups t
    have hhead : y.head?.any Text.isWord = false := by
      rcases hy with ⟨rfl, -⟩ | rfl <;> rfl
    refine not_fits_clauseEnd (a := c :: a) hlacks hb (Or.inr hhead) (fun hline => ?_) before groups t
    rcases hy with ⟨rfl, hlast⟩ | rfl
    · rw [List.append_nil] at hline
      exact hlast (by simp [hline])
    · exact hb (by simpa using hline)
  chooses := by
    intro before groups
    rcases hy with ⟨rfl, -⟩ | rfl
    · exact chooses_ahead
        (Chooses.altRight (headedBy_implements.not_fits (by decide) rfl) (chooses_finish rfl))
    · exact chooses_ahead
        (Chooses.altRight (headedBy_implements.not_fits (by decide) rfl) (chooses_finish rfl))

/-- What may follow the clause of the parent class: white space up to the end, or the other clause. -/
inductive Follows : Text → Prop where
  | gap (g : Gap) : Follows g.text
  | clause (g : Space) {r : Text} (hr : r.head?.any Text.isWord = false) :
      Follows (g.text ++ ("implements".toList ++ r))

/-- **The lazy stretch takes the list** and nothing but white space beyond it. -/
theorem exists_endsAt (k : Clause) {c : Char} {w v : Text} (hcore : k.core = c :: w) (hv : Follows v) :
    ∃ x y, w ++ v = x ++ y ∧
      Bracket.splitTopLevel [','] (c :: x) = Bracket.splitTopLevel [','] k.core ∧ EndsAt c x y := by
  have hlist : Text.Lacks ["implements".toList] (c :: w) := hcore ▸ k.lacks_core.mono (by decide)
  have hlacks : ∀ g : Gap, Text.Lacks ["implements".toList] (c :: (w ++ g.text)) := fun g =>
    hlist.append (g.lacks (by decide)) (Or.inr g.head?_any_isWord)
  have hsplit : ∀ g : Gap, Bracket.splitTopLevel [','] (c :: (w ++ g.text)) =
      Bracket.splitTopLevel [','] (c :: w) := fun g =>
    Bracket.splitTopLevel_append_blank g.isBlank (c :: w)
  rw [hcore]
  cases hv with
  | clause g hr =>
      have hlast : (c :: (w ++ g.text)).getLast?.any Text.isWord = false := by
        rw [← List.cons_append, List.getLast?_append_of_ne_nil _ g.ne_nil]
        exact g.getLast?_any_isWord
      exact ⟨w ++ g.text, _, (List.append_assoc _ _ _).symm, hsplit g.toGap,
        endsAt_clause (hlacks g.toGap) hlast hr⟩
  | gap g =>
      have hall := hlacks g
      have hnames := hsplit g
      by_cases hline : (w ++ g.text).getLast? = some '\n'
      · -- The last line feed is left.
        obtain ⟨x, hx⟩ := List.getLast?_eq_some_iff.mp hline
        rw [hx, ← List.cons_append] at hall hnames
        rw [Bracket.splitTopLevel_append_blank (by decide)] at hnames
        have hrest : Text.Lacks ["implements".toList] (c :: x) := fun t ht => by
          refine hall t ?_
          rw [Text.words_append_cons _ _ (by decide)]
          exact List.mem_append_left _ ht
        exact ⟨x, ['\n'], hx, hnames, endsAt_finish hrest (Or.inr rfl)⟩
      · exact ⟨w ++ g.text, [], (List.append_nil _).symm, hnames, endsAt_finish hall (Or.inl ⟨rfl, hline⟩)⟩

/-- A search finds the clause, or finds nothing if there is none. -/
def Shows (p : Pattern) (t : Text) : Option Clause → Prop
  | none => p.search? t = none
  | some k => ∃ m, p.search? t = some m ∧
      Bracket.splitTopLevel [','] (m.group 1) = (k.first :: k.others).map (·.name.text)

theorem Clause.forall_isBlank (k : Clause) :
    ∀ c ∈ k.right.text ++ k.first.before.text, Text.isBlank c = true := by
  intro c hc
  rcases List.mem_append.mp hc with hc | hc
  · exact k.right.isBlank c hc
  · exact k.first.before.isBlank c hc

theorem shows_extends (k : Clause) (lead : Gap) {v : Text} (hv : Follows v) :
    Shows extendsClause (lead.text ++ ("extends".toList ++ (k.body ++ v))) (some k) := by
  obtain ⟨c, w, hcore, hblank⟩ := k.exists_core_cons
  obtain ⟨x, y, hxy, hsplit, hends⟩ := exists_endsAt k hcore hv
  set g := k.right.text ++ k.first.before.text with hg
  have htext : k.body ++ v = g ++ (c :: x ++ y) := by
    rw [Clause.body, hcore, List.cons_append, ← hxy]
    simp [hg]
  have hclause : (all [.group 1 (few1 fun _ => true), clauseEnd]).Chooses
      ⟨⟨(lead.text ++ ("extends".toList ++ g)).reverse, c :: x ++ y⟩, []⟩ _ :=
    chooses_few1_then rfl (by simp) (fun a b hab hb groups t => hends.not_fits a b hab hb _ groups t)
      (hends.chooses _ _)
  have hfound := headedBy_extendsClause.search?_append (lead.lacks (by decide))
    (Or.inl lead.getLast?_any_isWord)
    (chooses_keyword lead.getLast?_any_isWord rfl (List.append_ne_nil_of_left_ne_nil k.right.ne_nil _)
      k.forall_isBlank (by simpa using hblank) hclause)
  rw [htext]
  refine ⟨_, hfound, ?_⟩
  rw [Match.group_eq_of_span rfl ⟨rfl, rfl⟩, hsplit, k.splitTopLevel_core]

theorem shows_implements (k : Clause) {u : Text} (hu : Text.Avoids ["implements".toList] u) (last : Gap) :
    Shows implementsClause (u ++ ("implements".toList ++ (k.body ++ last.text))) (some k) := by
  obtain ⟨c, w, hcore, hblank⟩ := k.exists_core_cons
  set g := k.right.text ++ k.first.before.text with hg
  have htext : k.body ++ last.text = g ++ (c :: (w ++ last.text) ++ []) := by
    rw [Clause.body, hcore]
    simp [hg]
  have hclause : (all [.group 1 (many1 fun _ => true), .finish]).Chooses
      ⟨⟨(u ++ ("implements".toList ++ g)).reverse, c :: (w ++ last.text) ++ []⟩, []⟩ _ :=
    ((chooses_many1 rfl (by simp) rfl).group 1).all_cons <|
    (chooses_finish rfl).all_cons (chooses_all_nil _)
  have hfound := headedBy_implementsClause.search?_append hu.1 (Or.inl hu.2)
    (chooses_keyword hu.2 rfl (List.append_ne_nil_of_left_ne_nil k.right.ne_nil _)
      k.forall_isBlank (by simpa using hblank) hclause)
  rw [htext]
  refine ⟨_, hfound, ?_⟩
  rw [Match.group_eq_of_span rfl ⟨rfl, rfl⟩, ← k.splitTopLevel_core, hcore]
  exact Bracket.splitTopLevel_append_blank last.isBlank (c :: w)

/-! ## White space before the clauses -/

/-- White space that is passed over leaves white space, if it is followed by something else. -/
theorem exists_gap {w t g y : Text} (hw : ∀ c ∈ w, Text.isBlank c = true)
    (hg : ∀ c ∈ g, Text.isBlank c = true) (hy : y.head?.any Text.isBlank = false)
    (h : w ++ t = g ++ y) : ∃ lead : Gap, t = lead.text ++ y := by
  rcases List.append_eq_append_iff.mp h with ⟨a, rfl, rfl⟩ | ⟨a, rfl, rfl⟩
  · exact ⟨⟨a, fun c hc => hg c (List.mem_append_right w hc)⟩, rfl⟩
  · cases a with
    | nil => exact ⟨⟨[], by simp⟩, rfl⟩
    | cons c a =>
        have hc : Text.isBlank c = true := hw c (by simp)
        simp [hc] at hy

/-- What is left from the first keyword on. -/
def ClassSuffix.fromKeyword (c : ClassSuffix) : Text :=
  match c.extended, c.implemented with
  | none, none => []
  | none, some k => "implements".toList ++ (k.body ++ c.last.text)
  | some k, none => "extends".toList ++ (k.body ++ c.last.text)
  | some k, some k' =>
    "extends".toList ++ (k.body ++ (k'.left.text ++ ("implements".toList ++ (k'.body ++ c.last.text))))

theorem ClassSuffix.exists_gap (c : ClassSuffix) {w t : Text} (hw : ∀ x ∈ w, Text.isBlank x = true)
    (h : w ++ t = c.bare) : ∃ lead : Gap, t = lead.text ++ c.fromKeyword := by
  have hparameters : ∀ x ∈ c.parameters.elim [] (·.gap.text), Text.isBlank x = true := by
    cases c.parameters with
    | none => simp
    | some a => exact a.gap.isBlank
  have hbefore : ∀ g : Gap, ∀ x ∈ c.parameters.elim [] (·.gap.text) ++ g.text, Text.isBlank x = true :=
    fun g x hx => (List.mem_append.mp hx).elim (hparameters x) (g.isBlank x)
  unfold bare at h
  unfold fromKeyword
  cases hextended : c.extended with
  | none =>
      cases himplemented : c.implemented with
      | none =>
          rw [hextended, himplemented] at h
          exact Script.exists_gap hw (hbefore c.last) rfl (by simpa using h)
      | some k =>
          rw [hextended, himplemented] at h
          exact Script.exists_gap hw (hbefore k.left.toGap) rfl (by simpa using h)
  | some k =>
      cases himplemented : c.implemented with
      | none =>
          rw [hextended, himplemented] at h
          exact Script.exists_gap hw (hbefore k.left.toGap) rfl (by simpa using h)
      | some k' =>
          rw [hextended, himplemented] at h
          exact Script.exists_gap hw (hbefore k.left.toGap) rfl (by simpa using h)

/-! ## Both searches -/

/-- White space comes after the keyword. -/
theorem Clause.head?_any_isWord (k : Clause) (r : Text) :
    (k.body ++ r).head?.any Text.isWord = false := by
  rw [body, List.append_assoc, List.head?_append_of_ne_nil _ k.right.ne_nil]
  exact k.right.head?_any_isWord

/-- A clause has no keyword of the other kind. -/
theorem Clause.lacks (k : Clause) (lead last : Gap) {word : Text} (hword : ∀ c ∈ word, Text.isWord c = true)
    {ws : List Text} (hws : ws ⊆ clauseWords) (hmem : word ∉ ws) :
    Text.Lacks ws (lead.text ++ (word ++ (k.body ++ last.text))) := by
  have hnil : [] ∉ ws := fun h => absurd (hws h) (by decide)
  have hbody := (k.lacks_body.mono hws).append (last.lacks hnil) (Or.inr last.head?_any_isWord)
  have hrest := (Text.lacks_word hword hmem).append hbody (Or.inr (k.head?_any_isWord last.text))
  exact (lead.lacks hnil).append hrest (Or.inl lead.getLast?_any_isWord)

/-- **Each search finds its clause if it is there**, whatever white space is left out before. -/
theorem shows_clauses (c : ClassSuffix) {w t : Text} (hw : ∀ x ∈ w, Text.isBlank x = true)
    (h : w ++ t = c.bare) :
    Shows extendsClause t c.extended ∧ Shows implementsClause t c.implemented := by
  obtain ⟨lead, rfl⟩ := c.exists_gap hw h
  unfold ClassSuffix.fromKeyword
  cases c.extended with
  | none =>
      cases c.implemented with
      | none =>
          rw [List.append_nil]
          exact ⟨headedBy_extendsClause.search?_eq_none (by decide) (lead.lacks (by decide)),
            headedBy_implementsClause.search?_eq_none (by decide) (lead.lacks (by decide))⟩
      | some k =>
          have hlacks : Text.Lacks ["extends".toList]
              (lead.text ++ ("implements".toList ++ (k.body ++ c.last.text))) :=
            k.lacks lead c.last (by decide) (by decide) (by decide)
          exact ⟨headedBy_extendsClause.search?_eq_none (by decide) hlacks,
            shows_implements k (Text.avoids_marks lead.isWord_eq_false (by decide)) c.last⟩
  | some k =>
      cases c.implemented with
      | none =>
          have hlacks : Text.Lacks ["implements".toList]
              (lead.text ++ ("extends".toList ++ (k.body ++ c.last.text))) :=
            k.lacks lead c.last (by decide) (by decide) (by decide)
          exact ⟨shows_extends k lead (.gap c.last),
            headedBy_implementsClause.search?_eq_none (by decide) hlacks⟩
      | some k' =>
          have hfirst : Text.Avoids ["implements".toList]
              (lead.text ++ ("extends".toList ++ (k.body ++ k'.left.text))) := by
            refine ⟨k.lacks lead k'.left.toGap (by decide) (by decide) (by decide), ?_⟩
            rw [← List.append_assoc, ← List.append_assoc, List.getLast?_append_of_ne_nil _ k'.left.ne_nil]
            exact k'.left.getLast?_any_isWord
          refine ⟨shows_extends k lead (.clause k'.left (k'.head?_any_isWord c.last.text)), ?_⟩
          have hsecond := shows_implements k' hfirst c.last
          simpa only [List.append_assoc] using hsecond

/-! ## Recording the parents -/

theorem addHeritage_clause (s : Scan) (d : Definition) (k : Clause) (kind : HeritageKind) :
    s.addHeritage (some d) ((k.first :: k.others).map (·.name.text)) kind =
      { s with heritage := s.heritage ++ d.inherits k.names kind } := by
  rw [← heritageOf_clause]
  rfl

theorem addExtends_eq {t : Text} {o : Option Clause} (h : Shows extendsClause t o) (s : Scan)
    (d : Definition) : addExtends s (some d) t =
      { s with heritage := s.heritage ++ d.inherits (o.elim [] Clause.names) .extendsType } := by
  unfold addExtends
  cases o with
  | none =>
      have hnone : extendsClause.search? t = none := h
      simp [hnone, Definition.inherits]
  | some k =>
      obtain ⟨m, hm, hsplit⟩ := h
      simp only [hm, hsplit]
      exact addHeritage_clause s d k .extendsType

theorem addImplements_eq {t : Text} {o : Option Clause} (h : Shows implementsClause t o) (s : Scan)
    (d : Definition) : addImplements s (some d) t =
      { s with heritage := s.heritage ++ d.inherits (o.elim [] Clause.names) .implementsType } := by
  unfold addImplements
  cases o with
  | none =>
      have hnone : implementsClause.search? t = none := h
      simp [hnone, Definition.inherits]
  | some k =>
      obtain ⟨m, hm, hsplit⟩ := h
      simp only [hm, hsplit]
      exact addHeritage_clause s d k .implementsType

/-- **The parents are recorded as they are written**, whatever white space is left out before them. -/
theorem addParents_eq (c : ClassSuffix) {w t : Text} (hw : ∀ x ∈ w, Text.isBlank x = true)
    (h : w ++ t = c.print) (s : Scan) (d : Definition) :
    addImplements (addExtends s (some d) (Bracket.stripGenerics t)) (some d) (Bracket.stripGenerics t) =
      { s with heritage := s.heritage ++ (d.inherits c.extendedNames .extendsType ++
          d.inherits c.implementedNames .implementsType) } := by
  have hbare : w ++ Bracket.stripGenerics t = c.bare := by
    have hblank := Gap.strips ⟨w, hw⟩ t
    have hall := c.strips.stripGenerics_eq
    rw [← h] at hall
    exact hblank.symm.trans hall
  obtain ⟨hextends, himplements⟩ := shows_clauses c hw hbare
  rw [addExtends_eq hextends, addImplements_eq himplements, List.append_assoc]
  rfl

end CodeAtlas.Script
