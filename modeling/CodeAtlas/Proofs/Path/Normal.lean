import CodeAtlas.Path
import CodeAtlas.Proofs.Text.Lines
import Mathlib.Data.List.TakeWhile

set_option autoImplicit false

/-! # Paths put together from components

A path is told by its components, which are joined by slashes. The directory of a file is told by the
components before the last one (`dirName_ofComponents`), a path read from a directory by the components
of both (`join_join`), and the normal form of a path by a walk over its components, where each `..` takes
back the one before it as long as there is one (`normalize_climb`).
-/

namespace CodeAtlas.Path

/-! ## Components -/

/-- The name of a file or of a directory, as it stands between two slashes. -/
structure IsComponent (c : Text) : Prop where
  ne_nil : c ≠ []
  ne_here : c ≠ ['.']
  ne_up : c ≠ ['.', '.']
  slash_notMem : '/' ∉ c

instance (c : Text) : Decidable (IsComponent c) :=
  decidable_of_iff (c ≠ [] ∧ c ≠ ['.'] ∧ c ≠ ['.', '.'] ∧ '/' ∉ c)
    ⟨fun ⟨h₁, h₂, h₃, h₄⟩ => ⟨h₁, h₂, h₃, h₄⟩, fun ⟨h₁, h₂, h₃, h₄⟩ => ⟨h₁, h₂, h₃, h₄⟩⟩

/-- The path with given components. -/
def ofComponents (cs : List Text) : Text := ['/'].intercalate cs

theorem splitOn_ofComponents {cs : List Text} (hne : cs ≠ []) (h : ∀ c ∈ cs, '/' ∉ c) :
    (ofComponents cs).splitOn '/' = cs :=
  List.splitOn_intercalate '/' h hne

/-- A path with a component at its end, which may be empty. -/
theorem ofComponents_concat (cs : List Text) (c : Text) :
    ofComponents (cs ++ [c]) = if cs = [] then c else ofComponents cs ++ '/' :: c := by
  split
  · next hnil =>
    rw [hnil]
    exact List.intercalate_singleton
  · next hne =>
    rw [ofComponents, Text.intercalate_append hne (List.cons_ne_nil c []), List.intercalate_singleton,
      List.append_assoc, List.singleton_append, ofComponents]

/-- A path starts like its first component, -/
theorem head?_ofComponents {c : Text} (hc : c ≠ []) (cs : List Text) :
    (ofComponents (c :: cs)).head? = c.head? := by
  obtain ⟨d, c, rfl⟩ := List.exists_cons_of_ne_nil hc
  cases cs with
  | nil => rfl
  | cons _ _ => rfl

/-- and ends like its last one. -/
theorem getLast?_ofComponents {c : Text} (hc : c ≠ []) (cs : List Text) :
    (ofComponents (cs ++ [c])).getLast? = c.getLast? := by
  rw [ofComponents_concat]
  split
  · rfl
  · rw [List.getLast?_append_of_ne_nil _ (List.cons_ne_nil '/' c), List.getLast?_cons,
      List.getLast?_eq_some_getLast hc]
    rfl

theorem head?_ne_slash {cs : List Text} (h : ∀ c ∈ cs, c ≠ [] ∧ '/' ∉ c) :
    (ofComponents cs).head? ≠ some '/' := by
  cases cs with
  | nil => simp [ofComponents]
  | cons c cs =>
      obtain ⟨hne, hslash⟩ := h c List.mem_cons_self
      rw [head?_ofComponents hne]
      exact fun hhead => hslash (List.mem_of_mem_head? hhead)

theorem getLast?_ne_slash {cs : List Text} (h : ∀ c ∈ cs, c ≠ [] ∧ '/' ∉ c) :
    (ofComponents cs).getLast? ≠ some '/' := by
  induction cs using List.reverseRecOn with
  | nil => simp [ofComponents]
  | append_singleton cs c =>
      obtain ⟨hne, hslash⟩ := h c (by simp)
      rw [getLast?_ofComponents hne]
      exact fun hlast => hslash (List.mem_of_getLast? hlast)

theorem root_eq_nil {p : Text} (h : p.head? ≠ some '/') : root p = [] := by
  cases p with
  | nil => rfl
  | cons c p =>
      have hc : c ≠ '/' := by simpa using h
      unfold root
      split <;> simp_all

/-! ## Directories -/

/-- **The directory of a file** has the components before the name of the file. -/
theorem dirName_ofComponents {ds : List Text} (hds : ∀ c ∈ ds, c ≠ [] ∧ '/' ∉ c) {base : Text}
    (hbase : '/' ∉ base) : dirName (ofComponents (ds ++ [base])) = ofComponents ds := by
  have hkeep : ∀ c ∈ base.reverse, (c != '/') = true := by
    intro c hc
    rw [bne_iff_ne]
    rintro rfl
    exact hbase (List.mem_reverse.mp hc)
  rw [ofComponents_concat]
  split
  · next hnil =>
    -- There is no slash, and nothing precedes the name.
    rw [hnil, dirName, List.dropWhile_eq_nil_iff.mpr hkeep]
    rfl
  · next hne =>
    have hhead : ((ofComponents ds ++ '/' :: base).reverse.dropWhile (· != '/')).reverse =
        ofComponents ds ++ ['/'] := by
      rw [List.reverse_append, List.reverse_cons, List.append_assoc,
        List.dropWhile_append_of_pos hkeep, List.singleton_append,
        List.dropWhile_cons_of_neg (by decide), List.reverse_cons, List.reverse_reverse]
    have hall : (ofComponents ds ++ ['/']).all (· == '/') = false := by
      obtain ⟨c, cs, rfl⟩ := List.exists_cons_of_ne_nil hne
      have hfirst := head?_ne_slash hds
      rw [head?_ofComponents (hds c List.mem_cons_self).1] at hfirst
      obtain ⟨d, c, rfl⟩ := List.exists_cons_of_ne_nil (hds c List.mem_cons_self).1
      have hd : d ≠ '/' := by simpa using hfirst
      cases cs with
      | nil => simp [ofComponents, hd]
      | cons _ _ => simp [ofComponents, hd]
    have hlast := getLast?_ne_slash hds
    simp only [dirName, hhead, hall, Bool.false_eq_true, if_false, Text.dropRight]
    rw [List.reverse_append, List.reverse_singleton, List.singleton_append,
      List.dropWhile_cons_of_pos (by decide)]
    rw [← List.head?_reverse] at hlast
    cases hreverse : (ofComponents ds).reverse with
    | nil => rw [List.reverse_eq_nil_iff.mp hreverse]; rfl
    | cons d u =>
        rw [hreverse] at hlast
        rw [List.dropWhile_cons_of_neg (by simpa using hlast), ← hreverse, List.reverse_reverse]

/-- **A path read from a directory** has the components of both. -/
theorem join_ofComponents {ds cs : List Text} (hds : ∀ c ∈ ds, c ≠ [] ∧ '/' ∉ c)
    (hcs : ∀ c ∈ cs, c ≠ [] ∧ '/' ∉ c) (hne : cs ≠ []) :
    join (ofComponents ds) (ofComponents cs) = ofComponents (ds ++ cs) := by
  have hlast : ((ofComponents ds).getLast? == some '/') = false := by
    simpa using getLast?_ne_slash hds
  rw [join, if_neg (by simpa using head?_ne_slash hcs), hlast, Bool.or_false]
  cases ds with
  | nil => rfl
  | cons d ds =>
      have hfirst : (ofComponents (d :: ds)).isEmpty = false := by
        have hhead := head?_ofComponents (hds d List.mem_cons_self).1 ds
        obtain ⟨e, d, rfl⟩ := List.exists_cons_of_ne_nil (hds d List.mem_cons_self).1
        cases hnil : ofComponents ((e :: d) :: ds) with
        | nil => simp [hnil] at hhead
        | cons _ _ => rfl
      have hjoin : ofComponents (d :: ds ++ cs) = ofComponents (d :: ds) ++ ['/'] ++ ofComponents cs :=
        Text.intercalate_append (List.cons_ne_nil d ds) hne
      rw [hfirst, hjoin, List.append_assoc]
      rfl

/-! ## The walk over the components -/

theorem foldl_push_components {cs : List Text} (h : ∀ c ∈ cs, IsComponent c) (stack : List Text) :
    cs.foldl (push false) stack = cs.reverse ++ stack := by
  induction cs generalizing stack with
  | nil => rfl
  | cons c cs ih =>
      obtain ⟨hc, hcs⟩ := List.forall_mem_cons.mp h
      have hpush : push false stack c = c :: stack := by
        simp [push, hc.ne_nil, hc.ne_here, hc.ne_up]
      rw [List.foldl_cons, hpush, ih hcs, List.reverse_cons, List.append_assoc]
      rfl

/-- With nothing left to take back, the steps up pile up. -/
theorem foldl_push_up (n k : Nat) :
    (List.replicate k ['.', '.']).foldl (push false) (List.replicate n ['.', '.']) =
      List.replicate (k + n) ['.', '.'] := by
  induction k generalizing n with
  | zero => rw [Nat.zero_add]; rfl
  | succ k ih =>
      have hpush : push false (List.replicate n ['.', '.']) ['.', '.'] =
          List.replicate (n + 1) ['.', '.'] := by
        cases n with
        | zero => rfl
        | succ n => rfl
      rw [List.replicate_succ, List.foldl_cons, hpush, ih]
      congr 1
      omega

/-- **Each step up takes back a component**, as long as there is one. -/
theorem foldl_push_climb {stack : List Text} (h : ∀ c ∈ stack, IsComponent c) (k : Nat) :
    (List.replicate k ['.', '.']).foldl (push false) stack =
      List.replicate (k - stack.length) ['.', '.'] ++ stack.drop k := by
  induction k generalizing stack with
  | zero => simp
  | succ k ih =>
      cases stack with
      | nil =>
          have hpile := foldl_push_up 0 (k + 1)
          simpa using hpile
      | cons c stack =>
          obtain ⟨hc, hstack⟩ := List.forall_mem_cons.mp h
          have hpush : push false (c :: stack) ['.', '.'] = stack := by
            simp [push, hc.ne_up]
          rw [List.replicate_succ, List.foldl_cons, hpush, ih hstack, List.length_cons,
            Nat.add_sub_add_right, List.drop_succ_cons]

/-! ## Relative paths -/

/-- The components of a path that goes up from a directory `k` times, or else starts there. -/
def climb (k : Nat) : List Text := if k = 0 then [['.']] else List.replicate k ['.', '.']

theorem climb_ne_nil (k : Nat) : climb k ≠ [] := by
  unfold climb
  split
  · exact List.cons_ne_nil _ _
  · next hk =>
    obtain ⟨n, rfl⟩ := Nat.exists_eq_succ_of_ne_zero hk
    exact List.cons_ne_nil _ _

/-- All steps of a climb are written with dots. -/
theorem mem_climb {k : Nat} {c : Text} (h : c ∈ climb k) : c = ['.'] ∨ c = ['.', '.'] := by
  unfold climb at h
  split at h
  · exact Or.inl (List.mem_singleton.mp h)
  · exact Or.inr (List.eq_of_mem_replicate h)

theorem foldl_push_of_climb {stack : List Text} (h : ∀ c ∈ stack, IsComponent c) (k : Nat) :
    (climb k).foldl (push false) stack =
      List.replicate (k - stack.length) ['.', '.'] ++ stack.drop k := by
  unfold climb
  split
  · next hk =>
    subst hk
    simp [push]
  · exact foldl_push_climb h k

/-- **The normal form of a path that climbs.** What is read from the directory `ds` and goes up `k` times
leaves the first components of the directory, and steps up if it has not as many. -/
theorem normalize_climb {ds rest : List Text} (hds : ∀ c ∈ ds, IsComponent c)
    (hrest : ∀ c ∈ rest, IsComponent c) (hne : rest ≠ []) (k : Nat) :
    normalize (ofComponents (ds ++ (climb k ++ rest))) =
      ofComponents (ds.take (ds.length - k) ++
        (List.replicate (k - ds.length) ['.', '.'] ++ rest)) := by
  have hparts : ∀ c ∈ ds ++ (climb k ++ rest), c ≠ [] ∧ '/' ∉ c := by
    intro c hc
    rcases List.mem_append.mp hc with hc | hc
    · exact ⟨(hds c hc).ne_nil, (hds c hc).slash_notMem⟩
    · rcases List.mem_append.mp hc with hc | hc
      · rcases mem_climb hc with rfl | rfl
        · decide
        · decide
      · exact ⟨(hrest c hc).ne_nil, (hrest c hc).slash_notMem⟩
  have hpieces : (ofComponents (ds ++ (climb k ++ rest))).splitOn '/' = ds ++ (climb k ++ rest) :=
    splitOn_ofComponents (by simp [hne]) fun c hc => (hparts c hc).2
  have hstack : ∀ c ∈ ds.reverse ++ [], IsComponent c := by simpa using hds
  have hwalk : ((ds ++ (climb k ++ rest)).foldl (push false) []).reverse =
      ds.take (ds.length - k) ++ (List.replicate (k - ds.length) ['.', '.'] ++ rest) := by
    rw [List.foldl_append, List.foldl_append, foldl_push_components hds, foldl_push_of_climb hstack,
      foldl_push_components hrest]
    simp [List.drop_reverse]
  simp only [normalize, root_eq_nil (head?_ne_slash hparts), hpieces, List.isEmpty_nil, Bool.not_true,
    hwalk]
  rw [write, List.isEmpty_nil, Bool.true_and, if_neg (by simp [hne])]
  rfl

end CodeAtlas.Path
