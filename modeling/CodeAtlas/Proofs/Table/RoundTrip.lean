import CodeAtlas.Graph.Table
import Mathlib.Tactic

set_option autoImplicit false

/-! # Reading tables back

What `Table.nodes` and `Table.edges` write, `Table.read` reads back: a header row, then one row for
each node or relationship, with the text of every attribute as it was. The argument goes from the
inside out. Reading one written field leaves the reader right before whatever ends the field, with
the field's text collected (`readFrom_field`); reading one written row yields that row and leaves the
reader fresh (`readFrom_row`); a table is a sequence of rows (`read_rows`).

The delimiter may be any character that can be told from the rest of the table. A truth value is
never quoted, so the letters of `true` and `false` are excluded along with the quote and the line
breaks. A digit is allowed, because a number is quoted when it holds the delimiter.
-/

namespace CodeAtlas.Table

/-- A character that can stand between fields. -/
def Separates (d : Char) : Prop :=
  d ≠ '"' ∧ d ≠ '\r' ∧ d ≠ '\n' ∧ d ∉ "true".toList ∧ d ∉ "false".toList

instance (d : Char) : Decidable (Separates d) :=
  inferInstanceAs (Decidable (_ ∧ _ ∧ _ ∧ _ ∧ _))

/-! ## When a text is quoted -/

theorem find?_singleton_isSome (d : Char) (t : Text) :
    (Text.find? [d] t).isSome = t.contains d := by
  induction t with
  | nil => rfl
  | cons c t ih =>
      by_cases h : d = c
      · simp [Text.find?, h]
      · simp [Text.find?, h, ih]

/-- A text is left as it is exactly when it holds nothing that ends a field or opens quotes. -/
theorem needsQuotes_eq_false_iff (d : Char) (t : Text) :
    needsQuotes [d] t = false ↔ d ∉ t ∧ '"' ∉ t ∧ '\n' ∉ t ∧ '\r' ∉ t := by
  simp [needsQuotes, Text.has, find?_singleton_isSome, and_assoc]

/-! ## Reading one field -/

/-- In a bare field the reader collects everything up to the delimiter or the line feed. -/
theorem readFrom_bare (d : Char) (t rest field : Text) (fields : List Text)
    (hd : d ∉ t) (hn : '\n' ∉ t) :
    readFrom d .bare field fields (t ++ rest) = readFrom d .bare (t.reverse ++ field) fields rest := by
  induction t generalizing field with
  | nil => rfl
  | cons c t ih =>
      simp only [List.mem_cons, not_or] at hd hn
      have hcd : (c == d) = false := by simpa using Ne.symm hd.1
      have hcn : (c == '\n') = false := by simpa using Ne.symm hn.1
      have hstep : readFrom d .bare field fields (c :: (t ++ rest))
          = readFrom d .bare (c :: field) fields (t ++ rest) := by
        simp [readFrom, hcd, hcn]
      rw [List.cons_append, hstep, ih (c :: field) hd.2 hn.2]
      simp

/-- In quotes the reader halves every doubled quote and stops at the quote that closes. -/
theorem readFrom_quoted (d : Char) (t rest field : Text) (fields : List Text) :
    readFrom d .quoted field fields (doubleQuotes t ++ '"' :: rest)
      = readFrom d .afterQuote (t.reverse ++ field) fields rest := by
  induction t generalizing field with
  | nil => simp [doubleQuotes, readFrom]
  | cons c t ih =>
      by_cases hc : c = '"'
      · have hdouble : doubleQuotes (c :: t) = '"' :: '"' :: doubleQuotes t := by
          simp [doubleQuotes, hc]
        have hstep : readFrom d .quoted field fields ('"' :: '"' :: (doubleQuotes t ++ '"' :: rest))
            = readFrom d .quoted ('"' :: field) fields (doubleQuotes t ++ '"' :: rest) := by
          simp [readFrom]
        rw [hdouble, List.cons_append, List.cons_append, hstep, ih ('"' :: field), hc]
        simp
      · have hsingle : doubleQuotes (c :: t) = c :: doubleQuotes t := by
          simp [doubleQuotes, hc]
        have hstep : readFrom d .quoted field fields (c :: (doubleQuotes t ++ '"' :: rest))
            = readFrom d .quoted (c :: field) fields (doubleQuotes t ++ '"' :: rest) := by
          simp [readFrom, hc]
        rw [hsingle, List.cons_append, hstep, ih (c :: field)]
        simp

/-- The modes in which the delimiter or a line feed ends the field. -/
def ReadMode.Ends (mode : ReadMode) : Prop := mode ≠ .quoted

theorem readFrom_delimiter {d : Char} {mode : ReadMode} (hd : Separates d) (hm : mode.Ends)
    (field rest : Text) (fields : List Text) :
    readFrom d mode field fields (d :: rest)
      = readFrom d .fresh [] (field.reverse :: fields) rest := by
  have hq : (d == '"') = false := by simpa using hd.1
  cases mode with
  | quoted => exact absurd rfl hm
  | fresh => simp [readFrom, hq]
  | bare => simp [readFrom]
  | afterQuote => simp [readFrom, hq]

theorem readFrom_lineFeed {d : Char} {mode : ReadMode} (hd : Separates d) (hm : mode.Ends)
    (field rest : Text) (fields : List Text) :
    readFrom d mode field fields ('\n' :: rest)
      = (field.reverse :: fields).reverse :: readFrom d .fresh [] [] rest := by
  have hn : ('\n' == d) = false := by simpa using Ne.symm hd.2.2.1
  cases mode with
  | quoted => exact absurd rfl hm
  | fresh => simp [readFrom, hn]
  | bare => simp [readFrom, hn]
  | afterQuote => simp [readFrom, hn]

/-- A text without quotes, delimiter and line feed is collected whole. -/
theorem readFrom_unquoted {d : Char} (t rest : Text) (fields : List Text)
    (hd : d ∉ t) (hq : '"' ∉ t) (hn : '\n' ∉ t) :
    ∃ mode : ReadMode, mode.Ends ∧
      readFrom d .fresh [] fields (t ++ rest) = readFrom d mode t.reverse fields rest := by
  cases t with
  | nil => exact ⟨.fresh, by simp [ReadMode.Ends], rfl⟩
  | cons c t =>
      simp only [List.mem_cons, not_or] at hd hq hn
      refine ⟨.bare, by simp [ReadMode.Ends], ?_⟩
      have hcq : (c == '"') = false := by simpa using Ne.symm hq.1
      have hcd : (c == d) = false := by simpa using Ne.symm hd.1
      have hcn : (c == '\n') = false := by simpa using Ne.symm hn.1
      have hstep : readFrom d .fresh [] fields (c :: (t ++ rest))
          = readFrom d .bare [c] fields (t ++ rest) := by
        simp [readFrom, hcq, hcd, hcn]
      rw [List.cons_append, hstep, readFrom_bare d t rest [c] fields hd.2 hn.2]
      simp

/-- A quoted text is collected whole, whatever it holds. -/
theorem readFrom_quote {d : Char} (t rest : Text) (fields : List Text) :
    ∃ mode : ReadMode, mode.Ends ∧
      readFrom d .fresh [] fields (quote [d] t ++ rest) = readFrom d mode t.reverse fields rest := by
  cases hneeds : needsQuotes [d] t with
  | false =>
      obtain ⟨hd, hq, hn, -⟩ := (needsQuotes_eq_false_iff d t).mp hneeds
      simpa [quote, hneeds] using readFrom_unquoted t rest fields hd hq hn
  | true =>
      refine ⟨.afterQuote, by simp [ReadMode.Ends], ?_⟩
      have hopen : readFrom d .fresh [] fields ('"' :: (doubleQuotes t ++ '"' :: rest))
          = readFrom d .quoted [] fields (doubleQuotes t ++ '"' :: rest) := by
        simp [readFrom]
      have hquote : quote [d] t ++ rest = '"' :: (doubleQuotes t ++ '"' :: rest) := by
        simp [quote, hneeds]
      rw [hquote, hopen, readFrom_quoted, List.append_nil]

/-- **Reading one field.** The reader collects the field's text and is left in a mode in which the
next delimiter or line feed ends the field. -/
theorem readFrom_field {d : Char} (hd : Separates d) (f : Field) (rest : Text)
    (fields : List Text) :
    ∃ mode : ReadMode, mode.Ends ∧
      readFrom d .fresh [] fields (f.write [d] ++ rest)
        = readFrom d mode f.plain.reverse fields rest := by
  cases f with
  | absent => exact ⟨.fresh, by simp [ReadMode.Ends], rfl⟩
  | flag b =>
      -- The only field that is written bare without a look at its text.
      cases b with
      | true =>
          exact readFrom_unquoted "true".toList rest fields hd.2.2.2.1 (by decide) (by decide)
      | false =>
          exact readFrom_unquoted "false".toList rest fields hd.2.2.2.2 (by decide) (by decide)
  | number n => exact readFrom_quote (Text.ofInt n) rest fields
  | text t => exact readFrom_quote t rest fields

/-! ## Reading rows -/

/-- **Reading one row.** The row's texts are put after those collected before, and the reader is
fresh again behind the line feed. -/
theorem readFrom_row {d : Char} (hd : Separates d) (f : Field) (fs : List Field) (rest : Text)
    (fields : List Text) :
    readFrom d .fresh [] fields (row [d] (f :: fs) ++ rest)
      = (fields.reverse ++ (f :: fs).map Field.plain) :: readFrom d .fresh [] [] rest := by
  induction fs generalizing f fields with
  | nil =>
      obtain ⟨mode, hm, hread⟩ := readFrom_field hd f ('\n' :: rest) fields
      have hrow : row [d] [f] ++ rest = f.write [d] ++ '\n' :: rest := by
        simp [row]
      rw [hrow, hread, readFrom_lineFeed hd hm]
      simp
  | cons g gs ih =>
      obtain ⟨mode, hm, hread⟩ := readFrom_field hd f (d :: (row [d] (g :: gs) ++ rest)) fields
      have hrow : row [d] (f :: g :: gs) ++ rest
          = f.write [d] ++ d :: (row [d] (g :: gs) ++ rest) := by
        simp [row]
      calc readFrom d .fresh [] fields (row [d] (f :: g :: gs) ++ rest)
          = readFrom d mode f.plain.reverse fields (d :: (row [d] (g :: gs) ++ rest)) := by
            rw [hrow, hread]
        _ = readFrom d .fresh [] (f.plain :: fields) (row [d] (g :: gs) ++ rest) := by
            rw [readFrom_delimiter hd hm, List.reverse_reverse]
        _ = ((f.plain :: fields).reverse ++ (g :: gs).map Field.plain)
              :: readFrom d .fresh [] [] rest := ih g (f.plain :: fields)
        _ = (fields.reverse ++ (f :: g :: gs).map Field.plain)
              :: readFrom d .fresh [] [] rest := by simp

/-- A sequence of rows, none of them without fields, is read back row by row. -/
theorem read_rows {d : Char} (hd : Separates d) (rows : List (List Field))
    (hne : ∀ fs ∈ rows, fs ≠ []) :
    read d (rows.flatMap (row [d])) = rows.map (List.map Field.plain) := by
  induction rows with
  | nil => rfl
  | cons fs rows ih =>
      obtain ⟨f, fs', rfl⟩ := List.exists_cons_of_ne_nil (hne fs List.mem_cons_self)
      have hrest := ih fun gs hgs => hne gs (List.mem_cons_of_mem _ hgs)
      unfold read at hrest ⊢
      rw [List.flatMap_cons, readFrom_row hd, hrest]
      rfl

/-- A table is read back as its header and the texts of its rows. -/
theorem read_table {α : Type} {d : Char} (hd : Separates d) (columns : List Text)
    (hcolumns : columns ≠ []) (fieldsOf : α → List Field) (hfields : ∀ a, fieldsOf a ≠ [])
    (items : List α) :
    read d (row [d] (columns.map .text) ++ items.flatMap fun a => row [d] (fieldsOf a))
      = columns :: items.map fun a => (fieldsOf a).map Field.plain := by
  have hrows := read_rows hd (columns.map .text :: items.map fieldsOf) (by
    intro fs hfs
    rcases List.mem_cons.mp hfs with rfl | hfs
    · simpa using hcolumns
    · obtain ⟨a, -, rfl⟩ := List.mem_map.mp hfs
      exact hfields a)
  have hplain : (columns.map Field.text).map Field.plain = columns := by
    rw [List.map_map]
    exact List.map_id columns
  rw [List.map_cons, hplain, List.map_map] at hrows
  rw [List.flatMap_cons, List.flatMap_map] at hrows
  exact hrows

/-! ## The two tables of a graph -/

/-- **The tables of a graph read back.** For every delimiter that separates fields, the node table
is read as the header and one row of eight texts for each node, in order, and the edge table as the
header and one row of three texts for each relationship. -/
theorem read_graph_tables (d : Char) (hd : Separates d) (g : Graph) :
    read d (nodes [d] g)
        = ["id".toList, "label".toList, "name".toList, "filePath".toList, "startLine".toList,
            "endLine".toList, "isExported".toList, "content".toList]
          :: g.nodes.map (fun n =>
            [n.id, n.label.name, n.name, n.path, Text.ofInt n.startLine, Text.ofInt n.endLine,
              if n.isExported then "true".toList else "false".toList, n.content.getD []])
      ∧ read d (edges [d] g)
        = ["sourceId".toList, "targetId".toList, "type".toList]
          :: g.relationships.map (fun r => [r.source, r.target, r.kind.name]) := by
  constructor
  · have htable := read_table hd nodeColumns (by simp [nodeColumns]) nodeFields
      (fun n => by simp [nodeFields]) g.nodes
    rw [nodes, htable]
    congr 1
    refine List.map_congr_left fun n _ => ?_
    -- Only the truth value and the excerpt depend on more than one attribute's constructor.
    cases hexp : n.isExported <;> cases hcontent : n.content <;>
      simp [nodeFields, Field.plain, hexp, hcontent]
  · exact read_table hd edgeColumns (by simp [edgeColumns]) edgeFields
      (fun r => by simp [edgeFields]) g.relationships

/-- The default delimiter, on a graph whose excerpt holds quotes, both line breaks, the delimiter
and a character without a glyph. -/
theorem read_graph_tables_comma :
    Separates ',' ∧
      read ',' (nodes [','] { nodes := [
        { id := "a,b".toList, label := .file, name := "\"".toList, path := "\r\n".toList,
          startLine := -1, endLine := 20, isExported := true,
          content := some ['"', ',', '\n', '\x00', '"', '"'] }] })
        = ["id".toList, "label".toList, "name".toList, "filePath".toList, "startLine".toList,
            "endLine".toList, "isExported".toList, "content".toList]
          :: [["a,b".toList, "File".toList, "\"".toList, "\r\n".toList, "-1".toList, "20".toList,
            "true".toList, ['"', ',', '\n', '\x00', '"', '"']]] :=
  ⟨by decide, (read_graph_tables ',' (by decide) _).1⟩

end CodeAtlas.Table
