import CodeAtlas.Proofs.Identity
import CodeAtlas.Proofs.Store.Engine
import Mathlib.Data.List.TakeWhile
import Mathlib.Tactic

set_option autoImplicit false

/-! # An engine with these laws

The engine that reads tables as what they are (`Database.plain`) satisfies what is relied on of engines
(`Database.laws`, `Database.takesIn`). A database holds the rows of two tables if its index leads to
every row and each edge joins the rows of the nodes that are named (`Database.Holds`). A value reads
back from its text, so a record reads back from its fields (`Database.node?_fields`,
`Database.edge?_fields`); rows with new identities come in one after another
(`Database.Holds.foldlM_addNode`), and edges find the rows of their ends (`Database.Holds.exists_join?`).
-/

namespace CodeAtlas

/-! ## Numbers -/

namespace Text

theorem readDigits_eq_ofDigitChars {t : Text} (ht : ∀ c ∈ t, c.isDigit = true) (n : Nat) :
    readDigits n t = some (Nat.ofDigitChars 10 t n) := by
  induction t generalizing n with
  | nil => rfl
  | cons c t ih =>
      have hc : digit? c = some (c.toNat - '0'.toNat) := by
        have hdigit : c.isDigit = true := ht c List.mem_cons_self
        rw [Char.isDigit, Bool.and_eq_true, decide_eq_true_eq, decide_eq_true_eq] at hdigit
        exact if_pos hdigit
      rw [readDigits, hc, Option.bind_some, ih fun d hd => ht d (List.mem_cons_of_mem c hd),
        Nat.ofDigitChars_cons]

/-- A number reads back from its digits. -/
theorem nat?_ofNat (n : Nat) : nat? (ofNat n) = some n := by
  have hread : readDigits 0 (ofNat n) = some n := by
    rw [readDigits_eq_ofDigitChars fun c hc => isDigit_of_mem_ofNat hc, ofNat,
      Nat.ofDigitChars_toDigits (by decide) (by decide)]
  cases ht : ofNat n with
  | nil => exact absurd ht Nat.toDigits_ne_nil
  | cons c t =>
      rw [ht] at hread
      exact hread

/-- No number but zero starts with the digit zero. -/
theorem head?_ofNat_ne {n : Nat} (hn : 0 < n) : (ofNat n).head? ≠ some '0' := by
  induction n using Nat.strong_induction_on with
  | _ n ih =>
    unfold ofNat
    rw [Nat.toDigits_eq_if (by decide)]
    split
    · interval_cases n <;> decide
    · next hge =>
      have hhead := ih (n / 10) (by omega) (by omega)
      rwa [List.head?_append_of_ne_nil _ Nat.toDigits_ne_nil]

end Text

namespace Database

theorem unpad_eq_self {t : Text} (ht : ∀ c ∈ t, isPadding c = false) : unpad t = t := by
  have hdrop : ∀ {u : Text}, (∀ c ∈ u, isPadding c = false) → u.dropWhile isPadding = u := by
    intro u hu
    cases u with
    | nil => rfl
    | cons c u => exact List.dropWhile_cons_of_neg (by simp [hu c List.mem_cons_self])
  unfold unpad Text.dropRight
  rw [hdrop ht, hdrop (by simpa using ht), List.reverse_reverse]

theorem isPadding_eq_false_of_isDigit {c : Char} (hc : c.isDigit = true) : isPadding c = false := by
  have hrange : 48 ≤ c.toNat ∧ c.toNat ≤ 57 := by
    rw [Char.isDigit, Bool.and_eq_true, decide_eq_true_eq, decide_eq_true_eq] at hc
    exact hc
  have hspace : (c == ' ') = false := by
    rw [beq_eq_false_iff_ne]
    rintro rfl
    simp at hrange
  simp only [isPadding, hspace, Bool.false_or, Bool.and_eq_false_iff, decide_eq_false_iff_not]
  omega

/-- An integer that can be stored reads back from its decimal text. -/
theorem integer?_ofInt {n : Int} (hn : isStorable n = true) : integer? (Text.ofInt n) = some n := by
  have hdigits : ∀ m, ∀ c ∈ Text.ofNat m, isPadding c = false := fun m c hc =>
    isPadding_eq_false_of_isDigit (Text.isDigit_of_mem_ofNat hc)
  cases n with
  | ofNat m =>
      have hunpad : unpad (Text.ofInt (.ofNat m)) = Text.ofNat m := unpad_eq_self (hdigits m)
      unfold integer?
      rw [hunpad]
      split
      · -- A minus sign is no digit.
        next digits heq =>
        have hminus : ('-' : Char) ∈ Text.ofNat m := heq ▸ List.mem_cons_self
        exact absurd (Text.isDigit_of_mem_ofNat hminus) (by decide)
      · next c digits heq =>
        have hm : m ≠ 0 := by
          rintro rfl
          exact absurd heq (by simp [Text.ofNat])
        exact absurd (by rw [heq]; rfl) (Text.head?_ofNat_ne (Nat.pos_of_ne_zero hm))
      · simpa [Text.nat?_ofNat] using hn
  | negSucc m =>
      have hunpad : unpad (Text.ofInt (.negSucc m)) = '-' :: Text.ofNat (m + 1) :=
        unpad_eq_self (List.forall_mem_cons.mpr ⟨by decide, hdigits (m + 1)⟩)
      have hneg : -((m : Int) + 1) = .negSucc m := rfl
      unfold integer?
      rw [hunpad]
      simpa [Text.nat?_ofNat, hneg] using hn

/-! ## Records -/

theorem isStorable_of_bounds {k : Int} (hk : -2 ^ 63 ≤ k ∧ k < 2 ^ 63) : isStorable k = true := by
  simp only [isStorable, Bool.and_eq_true, decide_eq_true_eq]
  omega

theorem textOf_elim {t : Option Text} (ht : t ≠ some []) :
    textOf (t.elim Table.Field.absent Table.Field.text).plain = t := by
  cases t with
  | none => rfl
  | some t =>
      have hne : t ≠ [] := fun h => ht (by rw [h])
      simp [textOf, Table.Field.plain, hne]

theorem value?_integer?_elim {k : Option Int} (hk : ∀ n ∈ k, -2 ^ 63 ≤ n ∧ n < 2 ^ 63) :
    value? integer? (k.elim Table.Field.absent Table.Field.number).plain = some k := by
  cases k with
  | none => rfl
  | some n =>
      have hne : Text.ofInt n ≠ [] := by
        cases n with
        | ofNat m => exact Nat.toDigits_ne_nil
        | negSucc m => exact List.cons_ne_nil _ _
      have hread : integer? (Text.ofInt n) = some n := integer?_ofInt (isStorable_of_bounds (hk n rfl))
      simp [value?, Table.Field.plain, hne, hread]

theorem value?_flag?_elim (b : Option Bool) :
    value? flag? (b.elim Table.Field.absent Table.Field.flag).plain = some b := by
  rcases b with _ | _ | _ <;> decide

/-- **A node row reads back from its fields.** -/
theorem node?_fields {n : StoredNode} (hn : n.IsStorable) :
    node? (n.fields.map Table.Field.plain) = some n := by
  simp only [StoredNode.fields, List.map_cons, List.map_nil, node?, value?_integer?_elim hn.startLine,
    value?_integer?_elim hn.endLine, value?_flag?_elim, textOf_elim hn.label_ne,
    textOf_elim hn.name_ne, textOf_elim hn.path_ne, textOf_elim hn.content_ne]
  rfl

theorem edge?_fields {e : NamedEdge} (he : e.kind ≠ some []) :
    edge? (e.fields.map Table.Field.plain) = some e := by
  simp only [NamedEdge.fields, List.map_cons, List.map_nil, edge?, textOf_elim he]
  rfl

/-- A list is mapped as a whole exactly if each of its elements is. -/
theorem mapM_eq_some_iff {α β : Type} {f : α → Option β} {l : List α} {bs : List β} :
    l.mapM f = some bs ↔ List.Forall₂ (fun a b => f a = some b) l bs := by
  induction l generalizing bs with
  | nil => simp [eq_comm]
  | cons a l ih =>
      rw [List.mapM_cons, List.forall₂_cons_left_iff]
      constructor
      · intro h
        obtain ⟨b, hb, h⟩ := Option.bind_eq_some_iff.mp h
        obtain ⟨bs', hbs, h⟩ := Option.bind_eq_some_iff.mp h
        exact ⟨b, bs', hb, ih.mp hbs, (Option.some.inj h).symm⟩
      · rintro ⟨b, bs', hb, hbs, rfl⟩
        rw [hb, ih.mpr hbs]
        rfl

theorem exists_mapM_eq_some {α β : Type} {f : α → Option β} {l : List α}
    (hl : ∀ a ∈ l, ∃ b, f a = some b) : ∃ bs, l.mapM f = some bs := by
  induction l with
  | nil => exact ⟨[], rfl⟩
  | cons a l ih =>
      obtain ⟨⟨b, hb⟩, hl⟩ := List.forall_mem_cons.mp hl
      obtain ⟨bs, hbs⟩ := ih hl
      exact ⟨b :: bs, mapM_eq_some_iff.mpr (.cons hb (mapM_eq_some_iff.mp hbs))⟩

/-- The records of a table that has a row of fields for each of them. -/
theorem records?_eq_some {α : Type} {read? : List Text → Option α} {fields : α → List Table.Field}
    {table : Text} {rows : List α}
    (hbody : Table.body ',' table = rows.map fun a => (fields a).map Table.Field.plain)
    (hread : ∀ a ∈ rows, read? ((fields a).map Table.Field.plain) = some a) (n : Nat) :
    records? .plain n read? [','] table = some rows := by
  show (Table.body ',' table).mapM read? = some rows
  rw [hbody, mapM_eq_some_iff, List.forall₂_map_left_iff]
  exact List.forall₂_same.mpr hread

/-- There is a record for each row. -/
theorem length_of_records? {α : Type} {read? : List Text → Option α} {d : Char} {table : Text} {n : Nat}
    {rows : List α} (h : records? .plain n read? [d] table = some rows) :
    rows.length = (Table.body d table).length :=
  (mapM_eq_some_iff.mp h).length_eq.symm

/-! ## The index -/

/-- The index leads from the identity of every row to that row, and nowhere else. -/
def Indexed (db : Database) : Prop :=
  ∀ id i, db.index.get? id = some i ↔ (db.nodes[i]?).map (·.id) = some id

theorem Indexed.get?_eq_none {db : Database} (h : db.Indexed) {id : Text}
    (hid : id ∉ db.nodes.map (·.id)) : db.index.get? id = none := by
  cases hget : db.index.get? id with
  | none => rfl
  | some i =>
      obtain ⟨n, hn, rfl⟩ := Option.map_eq_some_iff.mp ((h id i).mp hget)
      exact absurd (List.mem_map_of_mem (List.mem_of_getElem? hn)) hid

theorem Indexed.exists_get? {db : Database} (h : db.Indexed) {id : Text}
    (hid : id ∈ db.nodes.map (·.id)) : ∃ i, db.index.get? id = some i := by
  obtain ⟨n, hn, rfl⟩ := List.mem_map.mp hid
  obtain ⟨i, hi⟩ := List.mem_iff_getElem?.mp hn
  exact ⟨i, (h _ i).mpr (by rw [hi]; rfl)⟩

/-- A row is one of the rows there were, or the last one. -/
theorem getElem?_concat_id (nodes : List StoredNode) (n : StoredNode) (id : Text) (i : Nat) :
    ((nodes ++ [n])[i]?).map (·.id) = some id ↔
      (nodes[i]?).map (·.id) = some id ∨ (i = nodes.length ∧ n.id = id) := by
  rcases Nat.lt_trichotomy i nodes.length with hlt | rfl | hgt
  · have hne : i ≠ nodes.length := by omega
    simp [List.getElem?_append_left hlt, hne]
  · simp
  · have hne : i ≠ nodes.length := by omega
    have hout : (nodes ++ [n])[i]? = none := by
      rw [List.getElem?_eq_none_iff, List.length_append, List.length_singleton]
      omega
    have hout' : nodes[i]? = none := List.getElem?_eq_none_iff.mpr (by omega)
    simp [hout, hout', hne]

/-- **One row** that was not there keeps the index right, if it leads to the row. -/
theorem Indexed.concat {db : Database} (h : db.Indexed) {n : StoredNode}
    (hnone : db.index.get? n.id = none) :
    Indexed { db with nodes := db.nodes ++ [n], index := db.index ++ [(n.id, db.nodes.length)] } := by
  intro id i
  show Mapping.get? (db.index ++ [(n.id, db.nodes.length)]) id = some i ↔ _
  rw [getElem?_concat_id, ← h id i]
  unfold Mapping.get? at hnone ⊢
  rw [List.lookup_append, Option.or_eq_some_iff]
  -- Only under the identity of the new row is something found that was not found before.
  by_cases heq : id = n.id
  · rw [heq, hnone]
    simp [eq_comm]
  · have hbeq : (id == n.id) = false := by simpa using heq
    simp [List.lookup_cons, hbeq, Ne.symm heq]

/-! ## What a database holds -/

/-- The edge joins the rows that are named, and has the kind that is named. -/
def Joins (db : Database) (e : StoredEdge) (r : NamedEdge) : Prop :=
  (db.nodes[e.source]?).map (·.id) = some r.source ∧
    (db.nodes[e.target]?).map (·.id) = some r.target ∧ e.kind = r.kind

/-- The database holds the rows of two tables, in order. -/
structure Holds (db : Database) (t : Tables) : Prop where
  indexed : db.Indexed
  nodes_eq : db.nodes = t.nodes
  edges_eq : ∃ edges, db.edges = some edges ∧ List.Forall₂ db.Joins edges t.edges

theorem holds_new : Holds (createTables {}) {} where
  indexed := by
    intro id i
    simp [createTables, Mapping.get?]
  nodes_eq := rfl
  edges_eq := ⟨[], rfl, .nil⟩

namespace Holds

variable {db db' : Database} {t : Tables}

theorem nodeCount_eq (h : db.Holds t) : db.nodeCount = t.nodes.length := by
  rw [nodeCount, h.nodes_eq]

theorem edgeCount?_eq (h : db.Holds t) : db.edgeCount? = some t.edges.length := by
  obtain ⟨edges, hedges, hjoins⟩ := h.edges_eq
  rw [edgeCount?, hedges, Option.map_some, hjoins.length_eq]

/-! ### Nodes -/

/-- A row comes in if its identity is there and new. -/
theorem exists_addNode (h : db.Holds t) {n : StoredNode} (hne : n.id ≠ [])
    (hnew : n.id ∉ t.nodes.map (·.id)) : ∃ db', db.addNode n = some db' := by
  rw [← h.nodes_eq] at hnew
  refine ⟨_, if_neg ?_⟩
  simp [hne, h.indexed.get?_eq_none hnew]

/-- A row that comes in stands behind the others, and the edges still join the rows they did. -/
theorem addNode (h : db.Holds t) {n : StoredNode} (hadd : db.addNode n = some db') :
    db'.Holds { t with nodes := t.nodes ++ [n] } := by
  unfold Database.addNode at hadd
  rw [Option.ite_none_left_eq_some, Bool.or_eq_true, not_or, Option.not_isSome_iff_eq_none,
    Option.some_inj] at hadd
  obtain ⟨⟨-, hnone⟩, rfl⟩ := hadd
  obtain ⟨edges, hedges, hjoins⟩ := h.edges_eq
  -- No row has moved, so the edges join what they joined.
  refine ⟨h.indexed.concat hnone, by rw [h.nodes_eq], edges, hedges, hjoins.imp fun e r hjoin => ?_⟩
  obtain ⟨hsource, htarget, hkind⟩ := hjoin
  exact ⟨(getElem?_concat_id _ _ _ _).mpr (.inl hsource), (getElem?_concat_id _ _ _ _).mpr (.inl htarget),
    hkind⟩

/-- **All rows** come in one after another, if their identities are new. -/
theorem exists_foldlM_addNode (h : db.Holds t) {rows : List StoredNode}
    (hne : ∀ n ∈ rows, n.id ≠ []) (hnodup : ((t.nodes ++ rows).map (·.id)).Nodup) :
    ∃ db', rows.foldlM Database.addNode db = some db' := by
  induction rows generalizing db t with
  | nil => exact ⟨db, rfl⟩
  | cons n rows ih =>
      have hnew : n.id ∉ t.nodes.map (·.id) := by
        rw [List.map_append, List.map_cons, List.nodup_append] at hnodup
        intro hmem
        exact hnodup.2.2 n.id hmem n.id List.mem_cons_self rfl
      -- The identities have to differ among all rows, so the row counts as one that was there from now on.
      obtain ⟨db₁, hadd⟩ := h.exists_addNode (hne n List.mem_cons_self) hnew
      have happend : t.nodes ++ [n] ++ rows = t.nodes ++ n :: rows := by
        rw [List.append_assoc, List.singleton_append]
      obtain ⟨db₂, hfold⟩ :=
        ih (h.addNode hadd) (fun m hm => hne m (List.mem_cons_of_mem n hm)) (by rwa [happend])
      exact ⟨db₂, by rw [List.foldlM_cons, hadd]; exact hfold⟩

theorem foldlM_addNode (h : db.Holds t) {rows : List StoredNode}
    (hfold : rows.foldlM Database.addNode db = some db') :
    db'.Holds { t with nodes := t.nodes ++ rows } := by
  induction rows generalizing db t with
  | nil =>
      obtain rfl := Option.some.inj hfold
      rwa [List.append_nil]
  | cons n rows ih =>
      rw [List.foldlM_cons] at hfold
      obtain ⟨db₁, hadd, hfold⟩ := Option.bind_eq_some_iff.mp hfold
      have hrest := ih (h.addNode hadd) hfold
      rwa [List.append_assoc, List.singleton_append] at hrest

theorem exists_copyNodes (h : db.Holds t) {table : Text} {rows : List StoredNode}
    (hbody : Table.body ',' table = rows.map fun n => n.fields.map Table.Field.plain)
    (hrows : ∀ n ∈ rows, n.IsStorable) (hnodup : ((t.nodes ++ rows).map (·.id)).Nodup) :
    ∃ db', db.copyNodes .plain [','] table = (db', true) ∧
      db'.Holds { t with nodes := t.nodes ++ rows } := by
  obtain ⟨db', hfold⟩ := h.exists_foldlM_addNode (fun n hn => (hrows n hn).id_ne_nil) hnodup
  refine ⟨db', ?_, h.foldlM_addNode hfold⟩
  rw [copyNodes, records?_eq_some hbody fun n hn => node?_fields (hrows n hn)]
  simp only [hfold]

theorem copyNodes (h : db.Holds t) {d : Char} {table : Text}
    (hcopy : db.copyNodes .plain [d] table = (db', true)) :
    ∃ rows, rows.length = (Table.body d table).length ∧
      db'.Holds { t with nodes := t.nodes ++ rows } := by
  unfold Database.copyNodes at hcopy
  split at hcopy
  · cases hcopy
  · next rows hrecords =>
    split at hcopy
    · next db₁ hfold =>
      obtain rfl := (Prod.mk.inj hcopy).1
      exact ⟨rows, length_of_records? hrecords, h.foldlM_addNode hfold⟩
    · cases hcopy

/-! ### Edges -/

/-- An edge joins the rows of its ends, if they are there. -/
theorem exists_join? (h : db.Holds t) {r : NamedEdge} (hsource : r.source ∈ t.nodes.map (·.id))
    (htarget : r.target ∈ t.nodes.map (·.id)) : ∃ e, db.join? r = some e := by
  rw [← h.nodes_eq] at hsource htarget
  obtain ⟨i, hi⟩ := h.indexed.exists_get? hsource
  obtain ⟨j, hj⟩ := h.indexed.exists_get? htarget
  exact ⟨⟨i, j, r.kind⟩, by simp [join?, hi, hj]⟩

theorem joins_of_join? (h : db.Holds t) {r : NamedEdge} {e : StoredEdge} (hjoin : db.join? r = some e) :
    db.Joins e r := by
  unfold join? at hjoin
  split at hjoin
  · next i j hi hj =>
    obtain rfl := Option.some.inj hjoin
    exact ⟨(h.indexed _ _).mp hi, (h.indexed _ _).mp hj, rfl⟩
  · cases hjoin

/-- Edges that join rows stand behind the others. -/
theorem addEdges (h : db.Holds t) {edges more : List StoredEdge} (hedges : db.edges = some edges)
    {rows : List NamedEdge} (hjoin : rows.mapM db.join? = some more) :
    Holds { db with edges := some (edges ++ more) } { t with edges := t.edges ++ rows } := by
  obtain ⟨edges', hedges', hjoins⟩ := h.edges_eq
  obtain rfl := Option.some.inj (hedges.symm.trans hedges')
  have hmore : List.Forall₂ db.Joins more rows :=
    (mapM_eq_some_iff.mp hjoin).flip.imp fun _ _ hr => h.joins_of_join? hr
  exact ⟨h.indexed, h.nodes_eq, _, rfl, List.rel_append hjoins hmore⟩

theorem exists_copyEdges (h : db.Holds t) {table : Text} {rows : List NamedEdge}
    (hbody : Table.body ',' table = rows.map fun r => r.fields.map Table.Field.plain)
    (hrows : ∀ r ∈ rows, r.kind ≠ some [] ∧ r.source ∈ t.nodes.map (·.id) ∧
      r.target ∈ t.nodes.map (·.id)) :
    ∃ db', db.copyEdges .plain [','] table = (db', true) ∧
      db'.Holds { t with edges := t.edges ++ rows } := by
  obtain ⟨edges, hedges, -⟩ := h.edges_eq
  obtain ⟨more, hjoin⟩ := exists_mapM_eq_some fun r hr =>
    h.exists_join? (hrows r hr).2.1 (hrows r hr).2.2
  refine ⟨_, ?_, h.addEdges hedges hjoin⟩
  rw [copyEdges, hedges, records?_eq_some hbody fun r hr => edge?_fields (hrows r hr).1]
  simp only [hjoin]

theorem copyEdges (h : db.Holds t) {d : Char} {table : Text}
    (hcopy : db.copyEdges .plain [d] table = (db', true)) :
    ∃ rows, rows.length = (Table.body d table).length ∧
      db'.Holds { t with edges := t.edges ++ rows } := by
  unfold Database.copyEdges at hcopy
  split at hcopy
  · next edges rows hedges hrecords =>
    split at hcopy
    · next more hjoin =>
      obtain rfl := (Prod.mk.inj hcopy).1
      exact ⟨rows, length_of_records? hrecords, h.addEdges hedges hjoin⟩
    · cases hcopy
  · cases hcopy

end Holds

/-! ## Questions -/

theorem Query.mem_all (q : Query) : q ∈ all := by cases q <;> decide

theorem Query.nodup_words : (all.map words).Nodup := by decide +kernel

/-- Every question is known by its words. -/
theorem Query.ofText?_words (q : Query) : ofText? q.words.toList = some q := by
  have hsome : (ofText? q.words.toList).isSome := by
    rw [ofText?, List.find?_isSome]
    exact ⟨q, q.mem_all, beq_self_eq_true q.words.toList⟩
  obtain ⟨q', hq'⟩ := Option.isSome_iff_exists.mp hsome
  have hfound : (q'.words.toList == q.words.toList) = true :=
    List.find?_some (p := fun q' : Query => q'.words.toList == q.words.toList) hq'
  have hwords : q'.words = q.words := String.toList_inj.mp (eq_of_beq hfound)
  rw [hq', List.inj_on_of_nodup_map nodup_words q'.mem_all q.mem_all hwords]

theorem ask_words (db : Database) (q : Query) (params : Mapping Text) :
    db.ask q.words.toList params =
      if params.all fun p => q.parameters.contains p.1 then db.answer params q else none := by
  rw [ask, Query.ofText?_words]

theorem answer_eq {db db' : Database} {params : Mapping Text} {q : Query} {rows : List Row}
    (hq : q ≠ .dropEdges) (h : db.answer params q = some (db', rows)) : db' = db := by
  cases q with
  | dropEdges => exact absurd rfl hq
  | edgesByName =>
      obtain ⟨edges, -, heq⟩ := Option.map_eq_some_iff.mp h
      exact (congrArg Prod.fst heq).symm
  | _ => exact (congrArg Prod.fst (Option.some.inj h)).symm

/-! ## The laws -/

section

attribute [local instance] plain

/-- **The engine that reads tables as what they are does what is relied on.** -/
def laws : Engine.Laws where
  Holds := Holds
  holds_new := holds_new
  countNodes_eq h := congrArg some h.nodeCount_eq
  countEdges_eq h := h.edgeCount?_eq
  of_copyNodes h _ := h.copyNodes
  of_copyEdges h _ := h.copyEdges

theorem takesIn : laws.TakesIn where
  copyNodes h := h.exists_copyNodes
  copyEdges h := h.exists_copyEdges

/-- Every question but one only reads. -/
theorem onlyReads {q : Query} (hq : q ≠ .dropEdges) : laws.OnlyReads q.words.toList := by
  intro db t params h
  show Holds (Engine.ask db q.words.toList params).1 t
  unfold Engine.ask
  simp only
  split
  · next db' rows hask =>
    rw [ask_words] at hask
    split at hask
    · rw [answer_eq hq hask]
      exact h
    · cases hask
  · exact h

/-- That one leaves no edge table, whether there was one or not. -/
theorem countEdges_ask_dropEdges (db : Database) :
    Engine.countEdges (Engine.ask db Query.dropEdges.words.toList []).1 = none := by
  show edgeCount? (Engine.ask db Query.dropEdges.words.toList []).1 = none
  unfold Engine.ask
  simp only
  split
  · next db' rows hask =>
    rw [ask_words] at hask
    obtain ⟨edges, -, heq⟩ := Option.map_eq_some_iff.mp hask
    rw [← congrArg Prod.fst heq]
    rfl
  · next hask =>
    rw [ask_words] at hask
    rw [edgeCount?, Option.map_eq_none_iff.mp hask]
    rfl

end

end Database

end CodeAtlas
