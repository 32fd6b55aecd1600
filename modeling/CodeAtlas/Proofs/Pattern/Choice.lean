import CodeAtlas.Proofs.Pattern.Fits

set_option autoImplicit false

/-! # The match that is found

`Fits` tells what a match may look like; to tell which match is found, the order of choices counts.
`Chooses p s t` says that `t` is the first choice of `p` at `s`: whatever follows the pattern, if it
can go on from `t` then it does. First choices compose like derivations, with one more obligation for
a repetition (the stretch it takes cannot be longer) and for an alternative (those before it do not
fit), so the match of a pattern in a text of known shape is built up part by part. A lazy repetition has
no first choice of its own: where it stops is up to what follows it (`chooses_few1_then`).
-/

namespace CodeAtlas

theorem Match.group_eq_of_span {m : Match} {n : Nat} {a b : Cursor} {w : Text}
    (hspan : m.span? n = some (a, b)) (hreads : a.Reads w b) : m.group n = w := by
  rw [Match.group, hspan]
  exact hreads.between_eq

theorem Match.groupStart_eq_of_span {m : Match} {n : Nat} {a b : Cursor}
    (hspan : m.span? n = some (a, b)) : m.groupStart n = a.pos := by
  rw [Match.groupStart, hspan]

namespace Pattern

/-- The first choice of a pattern. -/
def Chooses (p : Pattern) (s t : MatchState) : Prop :=
  ∀ (α : Type) (k : MatchState → Option α) (x : α), k t = some x → run p k s = some x

theorem Chooses.matchAt? {p : Pattern} {c : Cursor} {t : MatchState} (h : p.Chooses ⟨c, []⟩ t) :
    p.matchAt? c = some ⟨c, t.cursor, t.groups⟩ := by
  rw [Pattern.matchAt?, h MatchState some t rfl]
  rfl

theorem run_eq_none {α : Type} {p : Pattern} {s : MatchState} (h : ∀ t, ¬ p.Fits s t)
    (k : MatchState → Option α) : run p k s = none := by
  rw [Option.eq_none_iff_forall_ne_some]
  intro x hx
  obtain ⟨t, ht, -⟩ := fits_of_run p hx
  exact h t ht

/-- Where nothing fits there is no match. -/
theorem matchAt?_eq_none {p : Pattern} {c : Cursor} (h : ∀ t, ¬ p.Fits ⟨c, []⟩ t) :
    p.matchAt? c = none := by
  rw [matchAt?, run_eq_none h, Option.map_none]

/-! ## Parts -/

variable {before rest : Text} {groups : List (Nat × Cursor × Cursor)} {p : Char → Bool}

theorem chooses_one {c : Char} (hc : p c = true) :
    (Pattern.one p).Chooses ⟨⟨before, c :: rest⟩, groups⟩ ⟨⟨c :: before, rest⟩, groups⟩ := by
  intro α k x hk
  simpa [run, hc] using hk

theorem chooses_char (c : Char) :
    (Pattern.char c).Chooses ⟨⟨before, c :: rest⟩, groups⟩ ⟨⟨c :: before, rest⟩, groups⟩ :=
  chooses_one (by simp)

theorem takeMany_of_some {α : Type} {k : Cursor → Option α} {w : Text} {x : α}
    (hw : ∀ c ∈ w, p c = true) (hrest : rest.head?.any p = false)
    (hk : k ⟨w.reverse ++ before, rest⟩ = some x) : takeMany p k before (w ++ rest) = some x := by
  induction w generalizing before with
  | nil =>
      cases rest with
      | nil => exact hk
      | cons c rest =>
          have hc : p c = false := by simpa using hrest
          rw [List.nil_append, takeMany, hc]
          exact hk
  | cons c w ih =>
      have hc : p c = true := hw c List.mem_cons_self
      have hw' : ∀ d ∈ w, p d = true := fun d hd => hw d (List.mem_cons_of_mem c hd)
      have hk' : k ⟨w.reverse ++ c :: before, rest⟩ = some x := by simpa using hk
      rw [List.cons_append, takeMany, if_pos hc, ih hw' hk', Option.some_or]

/-- A repetition takes the whole stretch of its characters. -/
theorem chooses_many {w : Text} (hw : ∀ c ∈ w, p c = true) (hrest : rest.head?.any p = false) :
    (Pattern.many p).Chooses ⟨⟨before, w ++ rest⟩, groups⟩ ⟨⟨w.reverse ++ before, rest⟩, groups⟩ :=
  fun _ _ _ hk => takeMany_of_some hw hrest hk

theorem Chooses.seq {a b : Pattern} {s t u : MatchState} (ha : a.Chooses s t) (hb : b.Chooses t u) :
    (Pattern.seq a b).Chooses s u :=
  fun α k x hk => ha α (run b k) x (hb α k x hk)

theorem Chooses.altLeft {a b : Pattern} {s t : MatchState} (ha : a.Chooses s t) :
    (Pattern.alt a b).Chooses s t := by
  intro α k x hk
  rw [run, ha α k x hk, Option.some_or]

theorem Chooses.altRight {a b : Pattern} {s t : MatchState} (ha : ∀ u, ¬ a.Fits s u)
    (hb : b.Chooses s t) : (Pattern.alt a b).Chooses s t := by
  intro α k x hk
  rw [run, run_eq_none ha, Option.none_or, hb α k x hk]

theorem Chooses.group {a : Pattern} {s t : MatchState} (n : Nat) (ha : a.Chooses s t) :
    (Pattern.group n a).Chooses s { t with groups := (n, s.cursor, t.cursor) :: t.groups } :=
  fun α k x hk => ha α (fun u => k { u with groups := (n, s.cursor, u.cursor) :: u.groups }) x hk

theorem chooses_boundary {s : MatchState} (h : atBoundary s.cursor = true) :
    Pattern.boundary.Chooses s s := by
  intro α k x hk
  rw [run, if_pos h, hk]

theorem chooses_notAfter {s : MatchState} (h : s.cursor.before.head?.any p = false) :
    (Pattern.notAfter p).Chooses s s := by
  intro α k x hk
  rw [run, h]
  exact hk

theorem chooses_ahead {a : Pattern} {s t : MatchState} (h : a.Chooses s t) :
    (Pattern.ahead a).Chooses s s := by
  intro α k x hk
  rw [run, h Unit (fun _ => some ()) () rfl]
  exact hk

theorem chooses_finish {s : MatchState} (h : atFinish s.cursor = true) :
    Pattern.finish.Chooses s s := by
  intro α k x hk
  rw [run, if_pos h, hk]

/-! ## Repetitions -/

/-- A pattern chooses one stretch after another until it fits no longer. -/
inductive Repeats (a : Pattern) : MatchState → MatchState → Prop where
  | done {s : MatchState} (h : ∀ t, ¬ a.Fits s t) : Repeats a s s
  | more {s t u : MatchState} (ha : a.Chooses s t)
      (hlt : t.cursor.rest.length < s.cursor.rest.length) (h : Repeats a t u) : Repeats a s u

theorem Repeats.takeStar_eq {a : Pattern} {s u : MatchState} (h : Repeats a s u) {limit : Nat}
    (hlimit : s.cursor.rest.length ≤ limit) {α : Type} {k : MatchState → Option α} {x : α}
    (hk : k u = some x) : takeStar (run a) k limit s = some x := by
  induction h generalizing limit with
  | done hdone =>
      cases limit with
      | zero => exact hk
      | succ limit => rw [takeStar, run_eq_none hdone, Option.none_or, hk]
  | more ha hlt _ ih =>
      cases limit with
      | zero => omega
      | succ limit => rw [takeStar, ha α _ x (ih (by omega) hk), Option.some_or]

theorem Repeats.chooses {a : Pattern} {s u : MatchState} (h : Repeats a s u) :
    (Pattern.star a).Chooses s u :=
  fun _ _ _ hk => h.takeStar_eq (Nat.le_refl _) hk

theorem takeFew_of_some {α : Type} {k : Cursor → Option α} {w : Text} {x : α}
    (hw : ∀ c ∈ w, p c = true)
    (hnone : ∀ u v, w = u ++ v → v ≠ [] → k ⟨u.reverse ++ before, v ++ rest⟩ = none)
    (hk : k ⟨w.reverse ++ before, rest⟩ = some x) : takeFew p k before (w ++ rest) = some x := by
  induction w generalizing before with
  | nil =>
      cases rest with
      | nil => exact hk
      | cons c rest =>
          have hk' : k ⟨before, c :: rest⟩ = some x := hk
          rw [List.nil_append, takeFew, hk', Option.some_or]
  | cons c w ih =>
      have hfirst : k ⟨before, c :: (w ++ rest)⟩ = none := hnone [] (c :: w) rfl (List.cons_ne_nil c w)
      have hrest := ih (fun d hd => hw d (List.mem_cons_of_mem c hd))
        (fun u v huv hv => by simpa using hnone (c :: u) v (by rw [huv, List.cons_append]) hv)
        (by simpa using hk)
      rw [List.cons_append, takeFew, hfirst, Option.none_or, if_pos (hw c List.mem_cons_self), hrest]

/-- A lazy repetition takes characters as long as what follows it does not fit. -/
theorem chooses_few1_then {a : Pattern} {n : Nat} {c : Char} {w : Text} {u : MatchState}
    (hc : p c = true) (hw : ∀ d ∈ w, p d = true)
    (hnot : ∀ x y, w = x ++ y → y ≠ [] → ∀ g t,
      ¬ a.Fits ⟨⟨(c :: x).reverse ++ before, y ++ rest⟩, g⟩ t)
    (ha : a.Chooses ⟨⟨(c :: w).reverse ++ before, rest⟩,
      (n, ⟨before, c :: w ++ rest⟩, ⟨(c :: w).reverse ++ before, rest⟩) :: groups⟩ u) :
    (Pattern.seq (.group n (few1 p)) a).Chooses ⟨⟨before, c :: w ++ rest⟩, groups⟩ u := by
  intro α k x hk
  have hrun := ha α k x hk
  simp only [few1, run, List.cons_append, hc, if_true]
  refine takeFew_of_some hw (fun y z hyz hz => ?_) ?_
  · have hnone := hnot y z hyz hz
    rw [List.reverse_cons, List.append_assoc] at hnone
    exact run_eq_none (hnone _) k
  · rw [List.reverse_cons, List.append_assoc] at hrun
    exact hrun

/-! ## Composed patterns -/

theorem Chooses.all_cons {a : Pattern} {as : List Pattern} {s t u : MatchState}
    (ha : a.Chooses s t) (has : (all as).Chooses t u) : (all (a :: as)).Chooses s u := by
  cases as with
  | nil =>
      intro α k x hk
      have hempty : k t = some x := has α k x hk
      exact ha α k x hempty
  | cons b bs => exact ha.seq has

theorem chooses_all_nil (s : MatchState) : (all []).Chooses s s := fun _ _ _ hk => hk

theorem chooses_lit (w : Text) :
    (lit w).Chooses ⟨⟨before, w ++ rest⟩, groups⟩ ⟨⟨w.reverse ++ before, rest⟩, groups⟩ := by
  induction w generalizing before with
  | nil => exact chooses_all_nil _
  | cons c w ih =>
      rw [List.reverse_cons, List.append_assoc]
      exact (chooses_char c).all_cons ih

theorem chooses_many1 {c : Char} {w : Text} (hc : p c = true) (hw : ∀ d ∈ w, p d = true)
    (hrest : rest.head?.any p = false) :
    (many1 p).Chooses ⟨⟨before, c :: w ++ rest⟩, groups⟩
      ⟨⟨(c :: w).reverse ++ before, rest⟩, groups⟩ := by
  rw [List.reverse_cons, List.append_assoc]
  exact (chooses_one hc).seq (chooses_many hw hrest)

/-- A keyword with white space after it is chosen where no word goes on into it. -/
theorem chooses_keyword {u word g t : Text} {l : List Pattern} {s : MatchState}
    (hu : u.getLast?.any Text.isWord = false) (hword : word.head?.any Text.isWord = true)
    (hne : g ≠ []) (hg : ∀ c ∈ g, Text.isBlank c = true) (ht : t.head?.any Text.isBlank = false)
    (hl : (all l).Chooses ⟨⟨(u ++ (word ++ g)).reverse, t⟩, groups⟩ s) :
    (all (.boundary :: lit word :: blanks1 :: l)).Chooses ⟨⟨u.reverse, word ++ (g ++ t)⟩, groups⟩ s := by
  have hstart : atBoundary ⟨u.reverse, word ++ (g ++ t)⟩ = true := by
    cases word with
    | nil => simp at hword
    | cons c w =>
        rw [atBoundary, List.head?_reverse, hu]
        simpa using hword
  obtain ⟨c, w, rfl⟩ := List.exists_cons_of_ne_nil hne
  obtain ⟨hc, hw⟩ := List.forall_mem_cons.mp hg
  have hend : (u ++ (word ++ c :: w)).reverse = (c :: w).reverse ++ (word.reverse ++ u.reverse) := by
    simp
  rw [hend] at hl
  exact (chooses_boundary hstart).all_cons <| (chooses_lit word).all_cons <|
    (chooses_many1 hc hw ht).all_cons hl

end Pattern

end CodeAtlas
