import CodeAtlas.Proofs.Archive.Names
import CodeAtlas.Proofs.Ingestion.Contents
import CodeAtlas.Proofs.Text.Utf8

set_option autoImplicit false

/-! # The forms of an archive agree

A mapping and a zip file are read by loops of their own. A mapping is read into a mapping of files, where
a path that comes again takes the later text; the entries of a zip file are read one by one, and a path
may come several times. Both are compared here with reading each entry of a mapping on its own
(`Archive.readEach`).

* A mapping is read into the last files of each path, sorted (`read_mapping_eq`). What makes the two
  orders meet is that sorting keeps the files of one path in their order (`filter_sortBy`).
* A zip file with the same names, sizes and bytes is read into all of these files, sorted
  (`readEntries_stored`), provided that no name is empty: an entry without a name is looked at as a
  directory before it is left out, and there is no last character to look at (`read_unnamed`).

Which entries are on record in the end is `mapping_accounted`: all but those that are left out, unless a name
has no components (`EntryPath.isDots`), which no reader gets past (`read_dot`).
-/

namespace CodeAtlas

/-! ## The order of texts -/

namespace Text

theorem le_cons_iff {a b : Char} {s t : Text} :
    le (a :: s) (b :: t) = true ↔ a.toNat < b.toNat ∨ a = b ∧ le s t = true := by
  rw [le]
  by_cases hlt : a.toNat < b.toNat
  · simp [hlt]
  · by_cases heq : a = b
    · simp [heq]
    · simp [hlt, heq]

theorem le_total (s t : Text) : le s t = true ∨ le t s = true := by
  induction s generalizing t with
  | nil => exact Or.inl rfl
  | cons a s ih =>
      cases t with
      | nil => exact Or.inr rfl
      | cons b t =>
          rw [le_cons_iff, le_cons_iff]
          rcases Nat.lt_trichotomy a.toNat b.toNat with hlt | heq | hgt
          · exact Or.inl (Or.inl hlt)
          · have hab := Char.toNat_inj.mp heq
            exact (ih t).imp (fun h => Or.inr ⟨hab, h⟩) fun h => Or.inr ⟨hab.symm, h⟩
          · exact Or.inr (Or.inl hgt)

theorem le_trans {s t u : Text} (hst : le s t = true) (htu : le t u = true) : le s u = true := by
  induction s generalizing t u with
  | nil => rfl
  | cons a s ih =>
      cases t with
      | nil => contradiction
      | cons b t =>
          cases u with
          | nil => contradiction
          | cons c u =>
              rw [le_cons_iff] at hst htu ⊢
              rcases hst with hab | ⟨rfl, hst⟩
              · left
                rcases htu with hbc | ⟨rfl, -⟩
                · exact hab.trans hbc
                · exact hab
              · exact htu.imp_right fun ⟨hac, htu⟩ => ⟨hac, ih hst htu⟩

theorem le_antisymm {s t : Text} (hst : le s t = true) (hts : le t s = true) : s = t := by
  induction s generalizing t with
  | nil =>
      cases t with
      | nil => rfl
      | cons b t => contradiction
  | cons a s ih =>
      cases t with
      | nil => contradiction
      | cons b t =>
          rw [le_cons_iff] at hst hts
          rcases hst with hab | ⟨rfl, hst⟩
          · rcases hts with hba | ⟨rfl, -⟩
            · omega
            · omega
          · rcases hts with hba | ⟨-, hts⟩
            · omega
            · rw [ih hst hts]

end Text

namespace Mapping

variable {β : Type}

/-- A key that is listed once has the value that is listed with it. -/
theorem get?_eq_some_iff {m : Mapping β} (h : (m.map (·.1)).Nodup) {k : Text} {v : β} :
    m.get? k = some v ↔ (k, v) ∈ m := by
  unfold get?
  induction m with
  | nil => simp
  | cons p m ih =>
      obtain ⟨hp, hm⟩ := List.nodup_cons.mp h
      rw [List.lookup_cons, List.mem_cons]
      by_cases hk : k = p.1
      · subst hk
        have hout : (p.1, v) ∉ m := fun hmem => hp (List.mem_map.mpr ⟨_, hmem, rfl⟩)
        simp [hout, Prod.ext_iff, eq_comm]
      · have hne : (k, v) ≠ p := fun heq => hk (congrArg Prod.fst heq)
        rw [beq_eq_false_iff_ne.mpr hk]
        simpa [hne] using ih hm

end Mapping

namespace Archive

variable {o : ReadOptions}

/-! ## Files of different paths, in order -/

/-- The files with the path `p`, in their order. -/
def filesAt (p : Text) (fs : List SourceFile) : List SourceFile := fs.filter (·.path == p)

/-- Of the files of each path the last one. -/
def lastOfEach : List SourceFile → List SourceFile
  | [] => []
  | f :: fs => if fs.any (·.path == f.path) then lastOfEach fs else f :: lastOfEach fs

/-- The paths are different, and in order. -/
def InOrder (fs : List SourceFile) : Prop :=
  fs.Pairwise fun f g => f.path ≠ g.path ∧ Text.le f.path g.path = true

theorem lastOfEach_sublist (fs : List SourceFile) : (lastOfEach fs).Sublist fs := by
  induction fs with
  | nil => exact List.Sublist.slnil
  | cons f fs ih =>
      rw [lastOfEach]
      split
      · exact ih.cons f
      · exact ih.cons_cons f

theorem mem_lastOfEach_iff {fs : List SourceFile} {f : SourceFile} :
    f ∈ lastOfEach fs ↔ (filesAt f.path fs).getLast? = some f := by
  induction fs with
  | nil => simp [lastOfEach, filesAt]
  | cons g fs ih =>
      have hnil : fs.any (·.path == f.path) = false → filesAt f.path fs = [] := by
        intro hany
        rw [filesAt, List.filter_eq_nil_iff]
        exact fun a ha => by simpa using List.any_eq_false.mp hany a ha
      rw [lastOfEach]
      by_cases hgf : g.path = f.path
      · rw [filesAt, List.filter_cons, if_pos (beq_iff_eq.mpr hgf), ← filesAt, hgf]
        cases hany : fs.any (·.path == f.path) with
        | true =>
            -- A later file has the path, and so the last one of them is the last one of all.
            obtain ⟨a, ha, hpath⟩ := List.any_eq_true.mp hany
            have hne : filesAt f.path fs ≠ [] := List.ne_nil_of_mem (List.mem_filter.mpr ⟨ha, hpath⟩)
            rw [if_pos rfl, ih, List.getLast?_cons, List.getLast?_eq_some_getLast hne, Option.getD_some]
        | false =>
            have hout : f ∉ lastOfEach fs := by
              intro hmem
              rw [ih, hnil hany] at hmem
              contradiction
            rw [if_neg (by decide), hnil hany, List.mem_cons, List.getLast?_singleton]
            simp [hout, eq_comm]
      · have hskip : filesAt f.path (g :: fs) = filesAt f.path fs := by simp [filesAt, hgf]
        rw [hskip, ← ih]
        split
        · rfl
        · rw [List.mem_cons]
          exact or_iff_right fun heq => hgf (congrArg SourceFile.path heq.symm)

theorem pairwise_lastOfEach (fs : List SourceFile) : (lastOfEach fs).Pairwise (·.path ≠ ·.path) := by
  induction fs with
  | nil => exact List.Pairwise.nil
  | cons f fs ih =>
      rw [lastOfEach]
      split
      · exact ih
      · next hany =>
        refine List.pairwise_cons.mpr ⟨fun g hg heq => ?_, ih⟩
        exact hany (List.any_eq_true.mpr ⟨g, (lastOfEach_sublist fs).subset hg, beq_iff_eq.mpr heq.symm⟩)

/-- If no path comes twice, the last files are all files. -/
theorem lastOfEach_eq_self {fs : List SourceFile} (h : (fs.map (·.path)).Nodup) : lastOfEach fs = fs := by
  induction fs with
  | nil => rfl
  | cons f fs ih =>
      obtain ⟨hf, hfs⟩ := List.nodup_cons.mp h
      have hany : fs.any (·.path == f.path) = false := by
        rw [List.any_eq_false]
        intro g hg heq
        exact hf (List.mem_map.mpr ⟨g, hg, beq_iff_eq.mp heq⟩)
      rw [lastOfEach, hany, if_neg (by decide), ih hfs]

theorem sortFiles_perm (fs : List SourceFile) : (sortFiles fs).Perm fs := sortBy_perm _ fs

theorem pairwise_sortFiles (fs : List SourceFile) :
    (sortFiles fs).Pairwise fun f g => Text.le f.path g.path = true :=
  pairwise_sortBy (fun f g : SourceFile => Text.le f.path g.path) (fun _ _ _ => Text.le_trans)
    (fun f g => Text.le_total f.path g.path) fs

theorem filesAt_sortFiles (p : Text) (fs : List SourceFile) : filesAt p (sortFiles fs) = filesAt p fs := by
  apply filter_sortBy
  intro f g hf hg
  rw [beq_iff_eq.mp hf, beq_iff_eq.mp hg]
  exact (Text.le_total p p).elim id id

theorem inOrder_lastOfEach (fs : List SourceFile) : InOrder (lastOfEach (sortFiles fs)) :=
  (pairwise_lastOfEach (sortFiles fs)).and ((pairwise_sortFiles fs).sublist (lastOfEach_sublist _))

theorem InOrder.nodup {fs : List SourceFile} (h : InOrder fs) : fs.Nodup :=
  h.imp fun hne heq => hne.1 (congrArg SourceFile.path heq)

/-- Files of different paths have one order. -/
theorem InOrder.eq_of_mem_iff {fs gs : List SourceFile} (hfs : InOrder fs) (hgs : InOrder gs)
    (hmem : ∀ f, f ∈ fs ↔ f ∈ gs) : fs = gs := by
  have hperm : fs.Perm gs := (List.perm_ext_iff_of_nodup hfs.nodup hgs.nodup).mpr hmem
  refine List.Perm.eq_of_pairwise (fun f g _ _ hfg hgf => ?_) hfs hgs hperm
  exact absurd (Text.le_antisymm hfg.2 hgf.2) hfg.1

/-! ## Entries -/

/-- An entry is left out by the filter, or for its size. -/
def LeftOut (o : ReadOptions) (entry : Text × Contents) : Prop :=
  EntryPath.ignored? o.filter (EntryPath.normalize entry.1) = some true ∨
    o.maxSize < (Utf8.size entry.2.decode : Int)

instance (o : ReadOptions) (entry : Text × Contents) : Decidable (LeftOut o entry) :=
  inferInstanceAs (Decidable (_ ∨ _))

/-- The file of an entry. -/
def fileOf (entry : Text × Contents) : SourceFile := ⟨EntryPath.normalize entry.1, entry.2.decode⟩

/-- The files of the entries that are not left out, each entry on its own. -/
def kept (o : ReadOptions) (entries : Mapping Contents) : List SourceFile :=
  (entries.filter fun p => !decide (LeftOut o p)).map fileOf

/-- The files of the entries, unless the name of one of them is dots. -/
def readEach (o : ReadOptions) (entries : Mapping Contents) : Except ArchiveError (List SourceFile) :=
  if entries.any (fun p => EntryPath.isDots p.1) then .error .noComponents else .ok (kept o entries)

theorem kept_cons_of_leftOut {entry : Text × Contents} (h : LeftOut o entry) (entries : Mapping Contents) :
    kept o (entry :: entries) = kept o entries := by
  simp [kept, h]

theorem kept_cons {entry : Text × Contents} (h : ¬ LeftOut o entry) (entries : Mapping Contents) :
    kept o (entry :: entries) = fileOf entry :: kept o entries := by
  simp [kept, h]

theorem readNamed_eq (o : ReadOptions) (entry : Text × Contents) :
    readNamed o entry.1 entry.2 =
      if EntryPath.isDots entry.1 then .error .noComponents
      else .ok (if LeftOut o entry then none else some (fileOf entry)) := by
  unfold readNamed isIgnored LeftOut fileOf
  by_cases hdots : EntryPath.isDots entry.1 = true
  · rw [if_pos hdots]
    simp only [EntryPath.ignored?_normalize_eq_none_iff.mpr hdots]
  · rw [if_neg hdots]
    have hanswer : EntryPath.ignored? o.filter (EntryPath.normalize entry.1) ≠ none :=
      fun h => hdots (EntryPath.ignored?_normalize_eq_none_iff.mp h)
    obtain ⟨b, hb⟩ := Option.ne_none_iff_exists'.mp hanswer
    simp only [hb]
    cases b with
    | true => simp
    | false =>
        by_cases hsize : o.maxSize < (Utf8.size entry.2.decode : Int)
        · simp [hsize]
        · simp [hsize]

/-- The entries are read one after another. -/
theorem readEach_cons (entry : Text × Contents) (entries : Mapping Contents) :
    readEach o (entry :: entries) =
      match readNamed o entry.1 entry.2 with
      | .error e => .error e
      | .ok f =>
        match readEach o entries with
        | .error e => .error e
        | .ok fs => .ok (f.toList ++ fs) := by
  rw [readNamed_eq, readEach, readEach, List.any_cons]
  cases EntryPath.isDots entry.1 with
  | true => rfl
  | false =>
      cases entries.any (fun p => EntryPath.isDots p.1) with
      | true => rfl
      | false =>
          by_cases hleft : LeftOut o entry
          · simp [hleft, kept_cons_of_leftOut hleft]
          · simp [hleft, kept_cons hleft]

/-! ## Mappings -/

/-- The mapping that files leave when they are written one after another. -/
def write (m : Mapping Text) (fs : List SourceFile) : Mapping Text :=
  fs.foldl (fun m f => m.insert f.path f.content) m

theorem readMapping_eq (entries : Mapping Contents) (m : Mapping Text) :
    readMapping o entries m = (readEach o entries).map (write m) := by
  induction entries generalizing m with
  | nil => rfl
  | cons entry entries ih =>
      rw [readMapping, readEach_cons]
      rcases readNamed o entry.1 entry.2 with e | _ | f
      · rfl
      · simp only [ih]
        cases readEach o entries with
        | error e => rfl
        | ok fs => rfl
      · simp only [ih]
        cases readEach o entries with
        | error e => rfl
        | ok fs => rfl

/-- What is written last at a path is there. -/
theorem get?_write (fs : List SourceFile) (m : Mapping Text) (p : Text) :
    (write m fs).get? p = ((filesAt p fs).getLast?.map (·.content)).or (m.get? p) := by
  induction fs generalizing m with
  | nil => rfl
  | cons f fs ih =>
      show (write (m.insert f.path f.content) fs).get? p = _
      rw [ih, Mapping.get?_insert, filesAt, filesAt, List.filter_cons]
      by_cases hp : f.path = p
      · rw [if_pos hp.symm, if_pos (beq_iff_eq.mpr hp), List.getLast?_cons]
        cases (fs.filter (·.path == p)).getLast? with
        | none => rfl
        | some g => rfl
      · rw [if_neg (Ne.symm hp), if_neg (by simpa using hp)]

theorem nodup_keys_write {m : Mapping Text} (h : (m.map (·.1)).Nodup) (fs : List SourceFile) :
    ((write m fs).map (·.1)).Nodup := by
  induction fs generalizing m with
  | nil => exact h
  | cons f fs ih => exact ih (Mapping.nodup_keys_insert h f.path f.content)

/-- **A mapping is read into the last files of each path.** -/
theorem read_mapping_eq (entries : Mapping Contents) :
    (Archive.mapping entries).read o =
      (readEach o entries).map fun fs => lastOfEach (sortFiles fs) := by
  rw [read, readMapping_eq]
  cases readEach o entries with
  | error e => rfl
  | ok fs =>
      refine congrArg Except.ok ?_
      have hempty : (([] : Mapping Text).map (·.1)).Nodup := List.nodup_nil
      have hkeys : ((write [] fs).map (·.1)).Nodup := nodup_keys_write hempty fs
      have hpaths : (((write [] fs).map fun p => (⟨p.1, p.2⟩ : SourceFile)).map (·.path)).Nodup := by
        rw [List.map_map]
        exact hkeys
      apply InOrder.eq_of_mem_iff
      · have hdifferent := ((sortFiles_perm _).map (·.path)).nodup_iff.mpr hpaths
        exact (List.pairwise_map.mp hdifferent).and (pairwise_sortFiles _)
      · exact inOrder_lastOfEach fs
      · intro f
        have hfile : f ∈ (write [] fs).map (fun p => (⟨p.1, p.2⟩ : SourceFile)) ↔
            (f.path, f.content) ∈ write [] fs := by
          rw [List.mem_map]
          constructor
          · rintro ⟨p, hp, rfl⟩
            exact hp
          · exact fun h => ⟨_, h, rfl⟩
        rw [(sortFiles_perm _).mem_iff, hfile, ← Mapping.get?_eq_some_iff hkeys, get?_write,
          mem_lastOfEach_iff, filesAt_sortFiles]
        cases hlast : (filesAt f.path fs).getLast? with
        | none => simp [Mapping.get?]
        | some g =>
            have hpath : g.path = f.path := by
              have := (List.mem_filter.mp (List.mem_of_getLast? hlast)).2
              exact beq_iff_eq.mp this
            -- They have one path, so they are one file if they have one content.
            cases g
            cases f
            simp_all [Mapping.get?]

/-! ## Zip files -/

/-- An entry that is stored under its name with the bytes of its text. -/
def stored (entry : Text × Text) : Entry := ⟨entry.1, Utf8.size entry.2, .ok (Utf8.encode entry.2)⟩

/-- The entries with their texts. -/
def asTexts (entries : List (Text × Text)) : Mapping Contents := entries.map fun p => (p.1, .text p.2)

/-- The entries with their bytes. -/
def asBytes (entries : List (Text × Text)) : Mapping Contents :=
  entries.map fun p => (p.1, .bytes (Utf8.encode p.2))

theorem readEach_asBytes (entries : List (Text × Text)) :
    readEach o (asBytes entries) = readEach o (asTexts entries) := by
  have hleft : ∀ p : Text × Text, LeftOut o (p.1, .bytes (Utf8.encode p.2)) ↔ LeftOut o (p.1, .text p.2) :=
    fun p => by simp only [LeftOut, Contents.decode, Utf8.decode_encode]
  simp only [readEach, kept, asBytes, asTexts, List.any_map, List.filter_map, List.map_map,
    Function.comp_def, hleft, fileOf, Contents.decode, Utf8.decode_encode]

/-- A stored entry is read like an entry of a mapping, if it has a name. -/
theorem readEntry_stored {entry : Text × Text} (hname : entry.1 ≠ []) :
    readEntry o (stored entry) = readNamed o entry.1 (.text entry.2) := by
  have hnot : ¬ (stored entry).name.isEmpty = true := by rwa [List.isEmpty_iff]
  unfold readEntry readNamed
  rw [if_neg hnot]
  by_cases hfolder : entry.1.getLast? = some '/'
  · -- The reader of mappings leaves a directory to the filter.
    have hignored : isIgnored o (EntryPath.normalize entry.1) = .ok true := by
      rw [isIgnored, EntryPath.ignored?_normalize_of_getLast? hfolder]
    have hdirectory : (stored entry).isDirectory = true := beq_iff_eq.mpr hfolder
    rw [if_pos hdirectory]
    simp only [hignored]
  · have hfile : ¬ (stored entry).isDirectory = true := fun h => hfolder (beq_iff_eq.mp h)
    rw [if_neg hfile]
    simp only [stored, Contents.decode, Utf8.decode_encode]
    rfl

theorem readEntries_stored {entries : List (Text × Text)} (hnames : ∀ p ∈ entries, p.1 ≠ []) :
    readEntries o (entries.map stored) = readEach o (asTexts entries) := by
  induction entries with
  | nil => rfl
  | cons entry entries ih =>
      have hrest := ih fun p hp => hnames p (List.mem_cons_of_mem entry hp)
      calc readEntries o ((entry :: entries).map stored)
          = readEach o ((entry.1, .text entry.2) :: asTexts entries) := by
            rw [List.map_cons, readEntries, readEntry_stored (hnames entry List.mem_cons_self), hrest]
            exact (readEach_cons (entry.1, .text entry.2) (asTexts entries)).symm
        _ = readEach o (asTexts (entry :: entries)) := rfl

/-- No zip file is read that has an entry without a name. -/
theorem readEntries_unnamed {es : List Entry} {e : Entry} (he : e ∈ es) (hname : e.name = [])
    (fs : List SourceFile) : readEntries o es ≠ .ok fs := by
  induction es generalizing fs with
  | nil => exact absurd he List.not_mem_nil
  | cons e' es ih =>
      rw [readEntries]
      rcases List.mem_cons.mp he with rfl | he
      · rw [readEntry, hname]
        exact fun h => by cases h
      · cases readEntry o e' with
        | error err => exact fun h => by cases h
        | ok f =>
            cases hrest : readEntries o es with
            | error err => exact fun h => by cases h
            | ok rest => exact absurd hrest (ih he rest)

theorem read_zip_eq {holder : Zip.Holder} {bytes : Bytes} {es : List Entry}
    (h : entriesOf o.decompressor holder bytes = .ok es) :
    (Archive.zip holder bytes).read o = (readEntries o es).map sortFiles := by
  rw [read, h]
  simp only
  cases readEntries o es with
  | error e => rfl
  | ok fs => rfl

/-! ## The forms agree -/

/-- The paths of the files that are kept are those of their entries. -/
theorem paths_kept_sublist (o : ReadOptions) (entries : Mapping Contents) :
    ((kept o entries).map (·.path)).Sublist (entries.map fun p => EntryPath.normalize p.1) := by
  rw [kept, List.map_map]
  exact List.filter_sublist.map _

/-- **The forms of an archive agree.** A mapping from names to texts is read like the mapping to their
bytes: both fail alike, or give files of different paths, in order. The zip file of the same entries is
not read if a name is empty, which goes for directory tests that index the last character of a name (see
`readEntry`: those before versions 3.11.9 and 3.12.3). Otherwise it fails alike, or gives a list of files
of which the last of each path are those of the mapping; and these are all of them if no two entries come
to one path. -/
theorem forms_agree (o : ReadOptions) (entries : List (Text × Text)) (holder : Zip.Holder)
    (bytes : Bytes) (hzip : entriesOf o.decompressor holder bytes = .ok (entries.map stored)) :
    let texts := (Archive.mapping (asTexts entries)).read o
    let packed := (Archive.mapping (asBytes entries)).read o
    let zipped := (Archive.zip holder bytes).read o
    texts = packed ∧ (∀ files, texts = .ok files → InOrder files) ∧
      ((∃ p ∈ entries, p.1 = []) → ∀ files, zipped ≠ .ok files) ∧
      ((∀ p ∈ entries, p.1 ≠ []) → texts = zipped.map lastOfEach ∧
        ((entries.map fun p => EntryPath.normalize p.1).Nodup → texts = zipped)) := by
  intro texts packed zipped
  have htexts : texts = (readEach o (asTexts entries)).map fun fs => lastOfEach (sortFiles fs) :=
    read_mapping_eq (asTexts entries)
  have hpacked : packed = (readEach o (asBytes entries)).map fun fs => lastOfEach (sortFiles fs) :=
    read_mapping_eq (asBytes entries)
  have hzipped : zipped = (readEntries o (entries.map stored)).map sortFiles := read_zip_eq hzip
  refine ⟨?_, ?_, ?_, ?_⟩
  · rw [htexts, hpacked, readEach_asBytes]
  · intro files hfiles
    rw [htexts] at hfiles
    cases heach : readEach o (asTexts entries) with
    | error e =>
        rw [heach] at hfiles
        cases hfiles
    | ok fs =>
        rw [heach] at hfiles
        cases hfiles
        exact inOrder_lastOfEach fs
  · rintro ⟨p, hp, hname⟩ files hfiles
    rw [hzipped] at hfiles
    cases hentries : readEntries o (entries.map stored) with
    | error e =>
        rw [hentries] at hfiles
        cases hfiles
    | ok fs => exact readEntries_unnamed (List.mem_map_of_mem hp) hname fs hentries
  · intro hnames
    rw [readEntries_stored hnames] at hzipped
    have hlast : texts = zipped.map lastOfEach := by
      rw [htexts, hzipped]
      cases readEach o (asTexts entries) with
      | error e => rfl
      | ok fs => rfl
    refine ⟨hlast, fun hnodup => ?_⟩
    rw [hlast, hzipped, readEach]
    split
    · rfl
    · have hpaths : ((kept o (asTexts entries)).map (·.path)).Nodup := by
        apply (paths_kept_sublist o (asTexts entries)).nodup
        rw [asTexts, List.map_map]
        exact hnodup
      have hsorted := ((sortFiles_perm (kept o (asTexts entries))).map (·.path)).nodup_iff.mpr hpaths
      exact congrArg Except.ok (lastOfEach_eq_self hsorted)

deriving instance DecidableEq for Entry

/-- Options with one ignored directory and one ignored extension. -/
def plainOptions : ReadOptions := ⟨⟨[".git".toList], [".png".toList]⟩, 1024⟩

/-- Names that come to one path, with either kind of slash. -/
def clashingEntries : List (Text × Text) :=
  [("b\\b.md".toList, "# B".toList), ("./a.md".toList, "# A".toList), ("/b/b.md".toList, [])]

theorem forms_agree_clashing :
    let o := plainOptions
    let bytes := Zip.pack clashingEntries
    let texts := (Archive.mapping (asTexts clashingEntries)).read o
    let zipped := (Archive.zip .memory bytes).read o
    entriesOf o.decompressor .memory bytes = .ok (clashingEntries.map stored) ∧
      texts = .ok [⟨"a.md".toList, "# A".toList⟩, ⟨"b/b.md".toList, []⟩] ∧
      texts = (Archive.mapping (asBytes clashingEntries)).read o ∧
      texts = zipped.map lastOfEach ∧ texts ≠ zipped := by
  intro o bytes texts zipped
  have hzip : entriesOf o.decompressor .memory bytes = .ok (clashingEntries.map stored) := by decide +kernel
  have htexts : texts = .ok [⟨"a.md".toList, "# A".toList⟩, ⟨"b/b.md".toList, []⟩] := by decide +kernel
  have hdifferent : texts ≠ zipped := by decide +kernel
  obtain ⟨hpacked, -, -, hnamed⟩ := forms_agree o clashingEntries .memory bytes hzip
  exact ⟨hzip, htexts, hpacked, (hnamed (by decide)).1, hdifferent⟩

/-- An entry without a name, and one with a name. -/
def unnamedEntries : List (Text × Text) := [([], "x".toList), ("a.md".toList, "# A".toList)]

/-- The entry without a name is left out of the mapping, but the zip file is not read for it. -/
theorem read_unnamed :
    let o := plainOptions
    let bytes := Zip.pack unnamedEntries
    (unnamedEntries.map (·.1)).Nodup ∧
      entriesOf o.decompressor .memory bytes = .ok (unnamedEntries.map stored) ∧
      (Archive.mapping (asTexts unnamedEntries)).read o = .ok [⟨"a.md".toList, "# A".toList⟩] ∧
      (Archive.zip .memory bytes).read o = .error .noName := by
  decide +kernel

/-! ## What becomes of the entries -/

/-- **Every entry of a mapping is accounted for**, unless a name is dots, for which nothing is read. The
result has its path, or the entry is left out by the filter or for its size; and the result has nothing
but the last entry of each path that is not left out. -/
theorem mapping_accounted (o : ReadOptions) (entries : Mapping Contents) :
    let result := (Archive.mapping entries).read o
    ((∃ p ∈ entries, EntryPath.isDots p.1 = true) → result = .error .noComponents) ∧
      ((∀ p ∈ entries, EntryPath.isDots p.1 = false) → ∃ files, result = .ok files ∧ InOrder files ∧
        (∀ p ∈ entries, LeftOut o p ∨ ∃ f ∈ files, f.path = EntryPath.normalize p.1) ∧
        ∀ f, f ∈ files ↔ (filesAt f.path (kept o entries)).getLast? = some f) := by
  intro result
  have hresult : result = (readEach o entries).map fun fs => lastOfEach (sortFiles fs) :=
    read_mapping_eq entries
  constructor
  · intro hdots
    rw [hresult, readEach, if_pos (List.any_eq_true.mpr hdots)]
    rfl
  · intro hdots
    have hread : readEach o entries = .ok (kept o entries) := by
      rw [readEach, if_neg]
      intro hany
      obtain ⟨p, hp, hname⟩ := List.any_eq_true.mp hany
      rw [hdots p hp] at hname
      contradiction
    have hmem : ∀ f, f ∈ lastOfEach (sortFiles (kept o entries)) ↔
        (filesAt f.path (kept o entries)).getLast? = some f := by
      intro f
      rw [mem_lastOfEach_iff, filesAt_sortFiles]
    rw [hread] at hresult
    refine ⟨_, hresult, inOrder_lastOfEach _, fun p hp => ?_, hmem⟩
    by_cases hleft : LeftOut o p
    · exact Or.inl hleft
    · -- The entry itself may be replaced, but not without another one of its path.
      right
      have hfile : fileOf p ∈ kept o entries :=
        List.mem_map_of_mem (List.mem_filter.mpr ⟨hp, by simpa using hleft⟩)
      have hat : fileOf p ∈ filesAt (fileOf p).path (kept o entries) :=
        List.mem_filter.mpr ⟨hfile, beq_self_eq_true _⟩
      obtain ⟨f, hf⟩ := List.getLast?_isSome.mpr (List.ne_nil_of_mem hat) |> Option.isSome_iff_exists.mp
      have hpath : f.path = (fileOf p).path :=
        beq_iff_eq.mp (List.mem_filter.mp (List.mem_of_getLast? hf)).2
      rw [← hpath] at hf
      exact ⟨f, (hmem f).mpr hf, hpath⟩

/-- A name that is a dot, below a name that is not. -/
def dotEntries : Mapping Contents := [("a.md".toList, .text "# A".toList), (".".toList, .text "x".toList)]

/-- Nothing is read for the dot, which is neither left out by the filter nor too large. -/
theorem read_dot :
    let o := plainOptions
    (∀ p ∈ dotEntries, ¬ LeftOut o p) ∧
      (Archive.mapping dotEntries).read o = .error .noComponents := by
  decide +kernel

/-- Without the dot, every entry is accounted for. -/
theorem mapping_accounted_clashing :
    let o := { plainOptions with maxSize := 2 }
    let result := (Archive.mapping (asTexts clashingEntries)).read o
    (∀ p ∈ asTexts clashingEntries, EntryPath.isDots p.1 = false) ∧
      ∃ files, result = .ok files ∧ files = [⟨"b/b.md".toList, []⟩] ∧
        ∀ p ∈ asTexts clashingEntries,
          LeftOut o p ∨ ∃ f ∈ files, f.path = EntryPath.normalize p.1 := by
  intro o result
  have hdots : ∀ p ∈ asTexts clashingEntries, EntryPath.isDots p.1 = false := by decide
  obtain ⟨files, hfiles, -, hall, -⟩ := (mapping_accounted o (asTexts clashingEntries)).2 hdots
  have hresult : result = .ok [⟨"b/b.md".toList, []⟩] := by decide +kernel
  exact ⟨hdots, files, hfiles, Except.ok.inj (hfiles.symm.trans hresult), hall⟩

end Archive

end CodeAtlas
