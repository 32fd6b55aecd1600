import CodeAtlas.Proofs.Pattern.Groups
import CodeAtlas.Proofs.Text.Below

set_option autoImplicit false

/-! # Searching a text that is moved down

A pattern sees what stands right before a position, and at the start of a text nothing does. If it never
asks for the line feed there (`Pattern.seesLinesAlike`), it cannot tell the start of the text from the
start of a line, and a run of it is moved down with the text (`Pattern.run_down`). If moreover no match
starts with a line feed (`Pattern.opensWith`), a search passes over the empty lines above a text, and finds
the matches in the text, moved down (`Pattern.findAll_below`). Both are read off the pattern.
-/

namespace CodeAtlas

open Text

variable {k : Nat}

/-! ## Cursors and matches that are moved down -/

/-- The cursor with empty lines above its text. -/
def Cursor.down (k : Nat) (c : Cursor) : Cursor := ⟨above k c.before, c.rest⟩

/-- What is remembered of a group, with empty lines above its text. -/
def downGroup (k : Nat) (g : Nat × Cursor × Cursor) : Nat × Cursor × Cursor :=
  (g.1, g.2.1.down k, g.2.2.down k)

/-- The state of a match with empty lines above its text. -/
def MatchState.down (k : Nat) (s : MatchState) : MatchState :=
  ⟨s.cursor.down k, s.groups.map (downGroup k)⟩

/-- The match with empty lines above its text. -/
def Match.down (k : Nat) (m : Match) : Match :=
  ⟨m.first.down k, m.last.down k, m.groups.map (downGroup k)⟩

@[simp] theorem Cursor.pos_down (k : Nat) (c : Cursor) : (c.down k).pos = c.pos + k := length_above k c.before

theorem Cursor.window_below (t : Text) (index limit k : Nat) :
    window (below k t) (index + k) (limit + k) = (window t index limit).down k := by
  rw [window, take_below, take_below, drop_below, reverse_below]
  rfl

namespace Match

@[simp] theorem start_down (k : Nat) (m : Match) : (m.down k).start = m.start + k := m.first.pos_down k

@[simp] theorem stop_down (k : Nat) (m : Match) : (m.down k).stop = m.stop + k := m.last.pos_down k

theorem length_down (k : Nat) (m : Match) : (m.down k).length = m.length := by
  rw [length, start_down, stop_down, length]
  omega

theorem span?_down (k : Nat) (m : Match) (n : Nat) :
    (m.down k).span? n = (m.span? n).map fun ends => (ends.1.down k, ends.2.down k) := by
  show (m.groups.map (downGroup k)).lookup n = (m.groups.lookup n).map _
  induction m.groups with
  | nil => rfl
  | cons g groups ih =>
      rw [List.map_cons, List.lookup_cons, List.lookup_cons, ih]
      show (match n == g.1 with | true => _ | false => _) = _
      cases n == g.1 with
      | true => rfl
      | false => rfl

@[simp] theorem hasGroup_down (k : Nat) (m : Match) (n : Nat) : (m.down k).hasGroup n = m.hasGroup n := by
  rw [hasGroup, span?_down, Option.isSome_map, hasGroup]

/-- A match that is moved down has the texts of its groups. -/
@[simp] theorem group_down (k : Nat) (m : Match) (n : Nat) : (m.down k).group n = m.group n := by
  rw [group, span?_down, group]
  cases m.span? n with
  | none => rfl
  | some ends =>
      show ends.1.rest.take ((ends.2.down k).pos - (ends.1.down k).pos) = ends.1.between ends.2
      rw [Cursor.pos_down, Cursor.pos_down, Nat.add_sub_add_right, Cursor.between]

end Match

namespace Pattern

/-- A group that every match remembers is moved down. -/
theorem Makes.groupStart_down {p : Pattern} {m : Match} (h : p.Makes m) {n : Nat}
    (hp : p.remembers n = true) (k : Nat) : (m.down k).groupStart n = m.groupStart n + k := by
  obtain ⟨u, hfits, -, hgroups⟩ := h
  obtain ⟨a, b, hmem⟩ := hfits.exists_group hp
  obtain ⟨a, b, hspan⟩ := exists_span_of_mem (hgroups ▸ hmem)
  rw [Match.groupStart, Match.span?_down, hspan, Match.groupStart_eq_of_span hspan]
  exact a.pos_down k

/-- The last position of a match that takes something is moved down. -/
theorem Makes.pred_stop_down {p : Pattern} {m : Match} (h : p.Makes m) (hp : p.mustTake = true) (k : Nat) :
    (m.down k).stop - 1 = m.stop - 1 + k := by
  obtain ⟨u, hfits, hlast, -⟩ := h
  have hlt : m.first.pos < u.cursor.pos := hfits.pos_lt hp
  have hstop : m.stop = u.cursor.pos := congrArg Cursor.pos hlast
  rw [Match.stop_down]
  omega

/-! ## Runs -/

/-- Does the pattern never ask for a line feed before a position? -/
def seesLinesAlike : Pattern → Bool
  | .seq a b | .alt a b => a.seesLinesAlike && b.seesLinesAlike
  | .star a | .group _ a | .ahead a => a.seesLinesAlike
  | .after p | .notAfter p => !p '\n'
  | _ => true

section Runs

variable {α β : Type} {g : α → β}

theorem stops_down (p : Char → Bool) (before rest : Text) :
    stops p (above k before) rest = (stops p before rest).map (Cursor.down k) := by
  induction rest generalizing before with
  | nil => rfl
  | cons c rest ih =>
      rw [stops, stops, List.map_cons]
      split
      · rw [← ih (c :: before)]
        rfl
      · rfl

/-- What is found at cursors is moved down with them. -/
theorem findSome?_down {next : Cursor → Option α} {next' : Cursor → Option β}
    (hnext : ∀ c, next' (c.down k) = (next c).map g) (cs : List Cursor) :
    (cs.map (Cursor.down k)).findSome? next' = (cs.findSome? next).map g := by
  rw [List.findSome?_map, List.map_findSome?]
  exact congrArg (List.findSome? · cs) (funext hnext)

theorem takeStar_down {step : (MatchState → Option α) → MatchState → Option α}
    {step' : (MatchState → Option β) → MatchState → Option β}
    (hstep : ∀ next next', (∀ t : MatchState, next' (t.down k) = (next t).map g) →
      ∀ s : MatchState, step' next' (s.down k) = (step next s).map g)
    {next : MatchState → Option α} {next' : MatchState → Option β}
    (hnext : ∀ t : MatchState, next' (t.down k) = (next t).map g) (limit : Nat) (s : MatchState) :
    takeStar step' next' limit (s.down k) = (takeStar step next limit s).map g := by
  induction limit generalizing s with
  | zero => exact hnext s
  | succ limit ih =>
      rw [takeStar, takeStar, hstep _ _ ih s, hnext s, Option.map_or]

theorem atBoundary_down (k : Nat) (c : Cursor) : atBoundary (c.down k) = atBoundary c := by
  have hbefore : (above k c.before).head?.any Text.isWord = c.before.head?.any Text.isWord :=
    head?_above_any (by decide) c.before
  show ((above k c.before).head?.any Text.isWord != _) = _
  rw [hbefore]
  rfl

end Runs

/-- **A run is moved down with its text**, if the pattern does not ask for line feeds before positions. -/
theorem run_down {p : Pattern} (hp : p.seesLinesAlike = true) {α β : Type} {g : α → β}
    {next : MatchState → Option α} {next' : MatchState → Option β}
    (hnext : ∀ t : MatchState, next' (t.down k) = (next t).map g) (s : MatchState) :
    p.run next' (s.down k) = (p.run next s).map g := by
  induction p generalizing α β s with
  | empty => exact hnext s
  | one q =>
      obtain ⟨⟨before, rest⟩, groups⟩ := s
      cases rest with
      | nil => rfl
      | cons c rest =>
          show (if q c then next' _ else none) = Option.map g (if q c then next _ else none)
          split
          · exact hnext ⟨⟨c :: before, rest⟩, groups⟩
          · rfl
  | many q =>
      show takeMany q _ (above k s.cursor.before) s.cursor.rest = _
      rw [run, takeMany_eq_findSome?, takeMany_eq_findSome?, stops_down, ← List.map_reverse]
      exact findSome?_down (fun c => hnext { s with cursor := c }) _
  | few q =>
      show takeFew q _ (above k s.cursor.before) s.cursor.rest = _
      rw [run, takeFew_eq_findSome?, takeFew_eq_findSome?, stops_down]
      exact findSome?_down (fun c => hnext { s with cursor := c }) _
  | seq a b iha ihb =>
      rw [seesLinesAlike, Bool.and_eq_true] at hp
      exact iha hp.1 (fun t => ihb hp.2 hnext t) s
  | alt a b iha ihb =>
      rw [seesLinesAlike, Bool.and_eq_true] at hp
      rw [run, run, iha hp.1 hnext s, ihb hp.2 hnext s, Option.map_or]
  | star a iha => exact takeStar_down (fun next next' h s => iha hp h s) hnext s.cursor.rest.length s
  | group n a iha =>
      exact iha hp (fun t => hnext { t with groups := (n, s.cursor, t.cursor) :: t.groups }) s
  | boundary =>
      show (if atBoundary (s.cursor.down k) then next' (s.down k) else none) = _
      rw [atBoundary_down, hnext s, run]
      split
      · rfl
      · rfl
  | after q =>
      have hq : q '\n' = false := by simpa [seesLinesAlike] using hp
      show (if (above k s.cursor.before).head?.any q then next' (s.down k) else none) = _
      rw [head?_above_any hq, hnext s, run]
      split
      · rfl
      · rfl
  | notAfter q =>
      have hq : q '\n' = false := by simpa [seesLinesAlike] using hp
      show (if (above k s.cursor.before).head?.any q then none else next' (s.down k)) = _
      rw [head?_above_any hq, hnext s, run]
      split
      · rfl
      · rfl
  | ahead a iha =>
      have hahead : a.run (fun _ => some ()) (s.down k) = (a.run (fun _ => some ()) s).map id :=
        iha hp (fun _ => rfl) s
      rw [run, run, hahead, Option.map_id, hnext s]
      simp only [id]
      split
      · rfl
      · rfl
  | finish =>
      show (if atFinish s.cursor then next' (s.down k) else none) = _
      rw [hnext s, run]
      split
      · rfl
      · rfl

/-! ## Searches -/

section Searches

variable {p : Pattern}

theorem matchAt?_down (hp : p.seesLinesAlike = true) (k : Nat) (c : Cursor) :
    p.matchAt? (c.down k) = (p.matchAt? c).map (Match.down k) := by
  have hrun : p.run some (MatchState.down k ⟨c, []⟩) = (p.run some ⟨c, []⟩).map (MatchState.down k) :=
    run_down hp (fun _ => rfl) ⟨c, []⟩
  show (p.run some (MatchState.down k ⟨c, []⟩)).map _ = _
  rw [hrun, matchAt?, Option.map_map, Option.map_map]
  rfl

theorem scan_down (hp : p.seesLinesAlike = true) (k skip : Nat) (before rest : Text) :
    p.scan skip (above k before) rest = (p.scan skip before rest).map (Match.down k) := by
  induction rest generalizing skip before with
  | nil => rw [scan, scan, List.map_nil]
  | cons c rest ih =>
      have hrest : ∀ skip, p.scan skip (c :: above k before) rest =
          (p.scan skip (c :: before) rest).map (Match.down k) := fun skip => ih skip (c :: before)
      cases skip with
      | succ skip => rw [scan, scan, hrest]
      | zero =>
          have hat : p.matchAt? ⟨above k before, c :: rest⟩ =
              (p.matchAt? ⟨before, c :: rest⟩).map (Match.down k) :=
            matchAt?_down hp k ⟨before, c :: rest⟩
          rw [scan, scan, hat]
          cases p.matchAt? ⟨before, c :: rest⟩ with
          | none => exact hrest 0
          | some m =>
              simp only [Option.map_some, Match.length_down]
              rw [hrest, List.map_cons]

/-- **The matches between two positions are moved down.** -/
theorem findAllIn_below (hp : p.seesLinesAlike = true) (t : Text) (index limit k : Nat) :
    p.findAllIn (below k t) (index + k) (limit + k) = (p.findAllIn t index limit).map (Match.down k) := by
  rw [findAllIn, Cursor.window_below]
  exact scan_down hp k 0 _ _

end Searches

/-! ## Searches from the start of a text -/

/-- May a character be the first one that is taken? -/
def opensWith (c : Char) : Pattern → Bool
  | .one q | .many q | .few q => q c
  | .seq a b => a.opensWith c || !a.mustTake && b.opensWith c
  | .alt a b => a.opensWith c || b.opensWith c
  | .star a | .group _ a => a.opensWith c
  | _ => false

/-- A stretch that starts with another character is empty. -/
theorem eq_nil_of_class {q : Char → Bool} {c : Char} {w rest r : Text} (hw : ∀ d ∈ w, q d = true)
    (hrest : w ++ rest = c :: r) (hc : q c = false) : w = [] := by
  cases w with
  | nil => rfl
  | cons d w =>
      obtain rfl : d = c := (List.cons.inj hrest).1
      rw [hw d List.mem_cons_self] at hc
      contradiction

/-- A pattern that does not open with the character at hand takes nothing. -/
theorem Fits.cursor_eq {p : Pattern} {s t : MatchState} (h : Fits p s t) {c : Char} {r : Text}
    (hrest : s.cursor.rest = c :: r) (hp : p.opensWith c = false) : t.cursor = s.cursor := by
  induction h with
  | empty | starDone | boundary | after | notAfter | ahead | finish => rfl
  | one hq =>
      obtain rfl := (List.cons.inj hrest).1
      rw [opensWith, hq] at hp
      contradiction
  | many hw | few hw =>
      obtain rfl := eq_nil_of_class hw hrest hp
      rfl
  | seq ha hb iha ihb =>
      rw [opensWith, Bool.or_eq_false_iff] at hp
      have hsame := iha hrest hp.1
      cases htake : Pattern.mustTake _ with
      | true =>
          have hlt := ha.pos_lt htake
          rw [hsame] at hlt
          exact absurd hlt (Nat.lt_irrefl _)
      | false =>
          rw [htake] at hp
          rw [ihb (by rw [hsame, hrest]) (by simpa using hp.2), hsame]
  | altLeft _ ih =>
      rw [opensWith, Bool.or_eq_false_iff] at hp
      exact ih hrest hp.1
  | altRight _ ih =>
      rw [opensWith, Bool.or_eq_false_iff] at hp
      exact ih hrest hp.2
  | starMore _ _ iha ihs =>
      have hsame := iha hrest hp
      rw [ihs (by rw [hsame, hrest]) hp, hsame]
  | group _ ih => exact ih hrest hp

/-- Can the pattern be searched for in a text that is moved down? It takes something, it does not ask for
line feeds before positions, and no match of it starts with a line feed. -/
def movesDown (p : Pattern) : Bool := p.mustTake && p.seesLinesAlike && !p.opensWith '\n'

/-- **The matches in a text are moved down with it.** -/
theorem findAll_below {p : Pattern} (hp : p.movesDown = true) (k : Nat) (t : Text) :
    p.findAll (below k t) = (p.findAll t).map (Match.down k) := by
  rw [movesDown, Bool.and_eq_true, Bool.and_eq_true, Bool.not_eq_true'] at hp
  obtain ⟨⟨htake, hsees⟩, hopens⟩ := hp
  have hlines : ∀ n before, p.scan 0 before (below n t) = p.scan 0 (List.replicate n '\n' ++ before) t := by
    intro n
    induction n with
    | zero => exact fun before => rfl
    | succ n ih =>
        intro before
        have hnone : p.matchAt? ⟨before, '\n' :: below n t⟩ = none := by
          refine matchAt?_eq_none fun u hfits => ?_
          have hlt := hfits.pos_lt htake
          rw [hfits.cursor_eq rfl hopens] at hlt
          exact absurd hlt (Nat.lt_irrefl _)
        show p.scan 0 before ('\n' :: below n t) = _
        rw [scan, hnone]
        simp only
        rw [ih, List.replicate_succ', List.append_assoc]
        rfl
  calc p.findAll (below k t)
      = p.scan 0 (List.replicate k '\n' ++ []) t := hlines k []
    _ = p.scan 0 (above k []) t := by rw [List.append_nil, above, List.nil_append]
    _ = (p.findAll t).map (Match.down k) := scan_down hsees k 0 [] t

end Pattern

end CodeAtlas
