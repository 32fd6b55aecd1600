import CodeAtlas.Proofs.Extraction.Coverage
import CodeAtlas.Proofs.Graph.Distinct
import CodeAtlas.Proofs.Ingestion.Separation

set_option autoImplicit false

/-! # The content of nodes

The files of an archive, the lookup of their texts and what is extracted from them go separate ways
through a run, and the builder joins them again by their paths. A mapping has one file for each path.
The entries of a zip file are read one by one, and two of them may come to the same path: then both are
extracted, but the lookup keeps the text of the last one only, and the lines of a definition of the other
are cut from a text that it does not stand in (`Ingestion.content_of_replaced`).

If the files of one path have one text (`OneText`), every node has the text that it was extracted from
(`Ingestion.content_of_nodes`).
-/

namespace CodeAtlas

/-! ## Writing to a mapping -/

namespace Mapping

variable {β : Type}

theorem mem_keys_insert {m : Mapping β} {k k' : Text} {v : β}
    (h : k' ∈ (m.insert k v).map (·.1)) : k' = k ∨ k' ∈ m.map (·.1) := by
  induction m with
  | nil => exact Or.inl (List.mem_singleton.mp h)
  | cons p m ih =>
      rw [insert] at h
      split at h
      · exact (List.mem_cons.mp h).imp_right (List.mem_cons_of_mem p.1)
      · rcases List.mem_cons.mp h with rfl | h
        · exact Or.inr List.mem_cons_self
        · exact (ih h).imp_right (List.mem_cons_of_mem p.1)

/-- Writing a key again does not list it again. -/
theorem nodup_keys_insert {m : Mapping β} (h : (m.map (·.1)).Nodup) (k : Text) (v : β) :
    ((m.insert k v).map (·.1)).Nodup := by
  induction m with
  | nil => exact List.nodup_singleton k
  | cons p m ih =>
      obtain ⟨hp, hm⟩ := List.nodup_cons.mp h
      rw [insert]
      split
      · next hk => exact List.nodup_cons.mpr ⟨hk ▸ hp, hm⟩
      · next hk =>
        refine List.nodup_cons.mpr ⟨fun hmem => ?_, ih hm⟩
        exact (mem_keys_insert hmem).elim hk hp

/-- A key that is always written with one value has this value in the end. -/
theorem get?_foldl_insert {l : List (Text × β)} {m : Mapping β} {k : Text} {v : β}
    (hl : ∀ p ∈ l, p.1 = k → p.2 = v) (h : (∃ p ∈ l, p.1 = k) ∨ m.get? k = some v) :
    (l.foldl (fun m p => m.insert p.1 p.2) m).get? k = some v := by
  induction l generalizing m with
  | nil =>
      rcases h with ⟨p, hp, -⟩ | h
      · exact absurd hp List.not_mem_nil
      · exact h
  | cons p l ih =>
      apply ih fun q hq => hl q (List.mem_cons_of_mem p hq)
      by_cases hpk : p.1 = k
      · -- The write sets the value, whatever it was.
        right
        rw [get?_insert, if_pos hpk.symm, hl p List.mem_cons_self hpk]
      · rw [get?_insert, if_neg (Ne.symm hpk)]
        refine h.imp_left ?_
        rintro ⟨q, hq, hqk⟩
        rcases List.mem_cons.mp hq with rfl | hq
        · exact absurd hqk hpk
        · exact ⟨q, hq, hqk⟩

end Mapping

/-! ## Files of one path -/

/-- Files of one path have one text. -/
def OneText (files : List SourceFile) : Prop :=
  ∀ f ∈ files, ∀ g ∈ files, f.path = g.path → f.content = g.content

instance (files : List SourceFile) : Decidable (OneText files) :=
  inferInstanceAs (Decidable (∀ f ∈ files, ∀ g ∈ files, f.path = g.path → f.content = g.content))

theorem oneText_of_nodup {files : List SourceFile} (h : (files.map (·.path)).Nodup) :
    OneText files := by
  intro f hf g hg hpath
  rw [List.inj_on_of_nodup_map h hf hg hpath]

namespace Archive

theorem nodup_readMapping {o : ReadOptions} {entries : Mapping Contents} {files files' : Mapping Text}
    (h : (files.map (·.1)).Nodup) (hread : readMapping o entries files = .ok files') :
    (files'.map (·.1)).Nodup := by
  induction entries generalizing files with
  | nil =>
      cases hread
      exact h
  | cons entry entries ih =>
      obtain ⟨name, c⟩ := entry
      rw [readMapping] at hread
      split at hread
      · cases hread
      · exact ih h hread
      · exact ih (Mapping.nodup_keys_insert h _ _) hread

/-- **A mapping has one file for each path.** -/
theorem oneText_of_mapping {o : ReadOptions} {entries : Mapping Contents} {files : List SourceFile}
    (hread : (Archive.mapping entries).read o = .ok files) : OneText files := by
  rw [read] at hread
  split at hread
  · cases hread
  · next m hm =>
    cases hread
    apply oneText_of_nodup
    have hempty : (([] : Mapping Text).map (·.1)).Nodup := List.nodup_nil
    have hpaths : ((m.map fun p => (⟨p.1, p.2⟩ : SourceFile)).map (·.path)).Nodup := by
      rw [List.map_map]
      exact nodup_readMapping hempty hm
    exact ((sortBy_perm _ _).map _).nodup_iff.mpr hpaths

end Archive

/-! ## Zip files with stored entries -/

namespace Zip

/-- A number in a field of `width` bytes. -/
def bytesOf (width n : Nat) : Bytes := (List.range width).map fun i => UInt8.ofNat (n / 256 ^ i)

/-- The fields that the header of a stored entry has in common with its record. -/
def packFields (name data : Bytes) : Bytes :=
  bytesOf 10 20 ++ bytesOf 4 (Digest.crc32 data).toNat ++ bytesOf 4 data.length ++
    bytesOf 4 data.length ++ bytesOf 4 name.length

/-- The header of a stored entry, and its bytes. -/
def packEntry (name data : Bytes) : Bytes := headerMark ++ packFields name data ++ name ++ data

/-- The record of an entry whose header starts at an offset. -/
def packRecord (offset : Nat) (name data : Bytes) : Bytes :=
  directoryMark ++ bytesOf 2 20 ++ packFields name data ++ bytesOf 10 0 ++ bytesOf 4 offset ++ name

/-- A zip file whose entries are stored without compression. -/
def pack (entries : List (Text × Text)) : Bytes :=
  let packed : Bytes × Bytes := entries.foldl
    (fun (body, listing) (name, t) =>
      let name := Utf8.encode name
      let data := Utf8.encode t
      (body ++ packEntry name data, listing ++ packRecord body.length name data)) ([], [])
  packed.1 ++ packed.2 ++ endMark ++ bytesOf 4 0 ++ bytesOf 2 entries.length ++
    bytesOf 2 entries.length ++ bytesOf 4 packed.2.length ++ bytesOf 4 packed.1.length ++ bytesOf 2 0

end Zip

/-! ## Texts and nodes -/

namespace Graph

theorem cap_of_pos {limit : Int} (h : 0 < limit) (t : Text) : cap limit t = t.take limit.toNat := by
  unfold cap
  split
  · rw [Text.cut, if_pos h.le]
  · next hshort =>
    rw [List.take_of_length_le]
    omega

end Graph

namespace Ingestion

theorem contentsOf_get? {files : List SourceFile} (h : OneText files) {f : SourceFile}
    (hf : f ∈ files) : (contentsOf files).get? f.path = some f.content := by
  apply Mapping.get?_foldl_insert
  · intro p hp hpath
    obtain ⟨g, hg, rfl⟩ := List.mem_map.mp hp
    exact h g hg f hf hpath
  · exact Or.inl ⟨_, List.mem_map_of_mem hf, rfl⟩

/-- Every result is that of a file, in whatever order they finish. -/
theorem exists_of_mem_collect {α β : Type} {f : α → β} {files : List α} {order : List Nat} {e : β}
    (h : e ∈ (collect f files order).filterMap id) : ∃ a ∈ files, f a = e := by
  obtain ⟨slot, hslot, hresult⟩ := List.mem_filterMap.mp h
  obtain ⟨j, hj⟩ := List.mem_iff_getElem?.mp hslot
  have hplace : (order.foldl (place f files) (List.replicate files.length none))[j]? = some slot := hj
  rw [getElem?_foldl_place f files order List.length_replicate] at hplace
  split at hplace
  · obtain ⟨a, ha, rfl⟩ := Option.map_eq_some_iff.mp hplace
    exact ⟨a, List.mem_of_getElem? ha, Option.some_inj.mp hresult⟩
  · -- A place whose file has not finished is empty.
    have hempty := List.eq_of_mem_replicate (List.mem_of_getElem? hplace)
    rw [hempty] at hresult
    cases hresult

theorem oneText_of_read {o : ReadOptions} {archive : Archive} {files : List SourceFile}
    (hread : archive.read o = .ok files)
    (honce : ∀ holder bytes, archive = .zip holder bytes → OneText files) : OneText files := by
  cases archive with
  | mapping entries => exact Archive.oneText_of_mapping hread
  | zip holder bytes => exact honce holder bytes rfl
  | unopened path fault => cases hread

/-- A run that hands over has come to the load, with the graph of the files that have finished. -/
theorem graph_of_run [Engine] {o : IngestOptions} {w : Surroundings} {archive : Archive} {store : Store}
    {files : List SourceFile} {done : Ingested} (hread : archive.read o.read = .ok files)
    (hdone : (run o w archive store).outcome = .ok done) : done.graph = finishedGraph o w files := by
  rcases run_course o w archive with ⟨events, e, -, hrun⟩ | ⟨files', hread', -, -, hrun⟩
  · have hr : run o w archive store = ⟨events, store, .error e⟩ := hrun w.faults store
    rw [hr] at hdone
    cases hdone
  · cases hread.symm.trans hread'
    have hr : run o w archive store = loadFiles o w files store := hrun w.faults store
    rw [hr, loadFiles] at hdone
    split at hdone
    · cases hdone
    · cases hdone
      rfl

/-- A run that nobody cancels hands over the graph of its files, if there is somebody to extract them. -/
theorem exists_done [Engine] {o : IngestOptions} {w : Surroundings} {archive : Archive}
    {files : List SourceFile} (hread : archive.read o.read = .ok files) (hw : w.cancelAfter = none)
    (hworkers : 0 < o.workers) (store : Store) : ∃ done, (run o w archive store).outcome = .ok done ∧
      done.graph = finishedGraph o w files := by
  have hbusy := not_isFutile hread (Or.inr hworkers)
  cases houtcome : (run o w archive store).outcome with
  | error e => exact absurd ((outcome_of_uncancelled hw store).1.mp ⟨e, houtcome⟩) hbusy
  | ok done => exact ⟨done, rfl, graph_of_run hread houtcome⟩

/-- A node comes from one of the files, together with the text that is looked up for it. -/
theorem exists_of_mem_finishedGraph {o : IngestOptions} {w : Surroundings} {files : List SourceFile}
    (hone : OneText files) {n : Node} (hn : n ∈ (finishedGraph o w files).nodes) :
    ∃ f ∈ files, n = Graph.fileNode o.build f.path f.content ∨
      ∃ d ∈ (o.extract f).definitions, n = Graph.definitionNode o.build f.path f.content d := by
  obtain ⟨e, he, hn⟩ := Graph.mem_nodes_build hn
  obtain ⟨f, hf, rfl⟩ := exists_of_mem_collect he
  have hpath : (o.extract f).path = f.path := Extraction.path_ofFile o.fails f.path f.content
  rw [Graph.nodesOf, hpath, contentsOf_get? hone hf, Option.getD_some] at hn
  rcases List.mem_cons.mp hn with hn | hn
  · exact ⟨f, hf, Or.inl hn⟩
  · obtain ⟨d, hd, rfl⟩ := List.mem_map.mp hn
    exact ⟨f, hf, Or.inr ⟨d, hd, rfl⟩⟩

/-- The lines of a definition, in the text that it was extracted from. -/
theorem exists_isLines_of_mem {o : IngestOptions} {f : SourceFile} {d : Definition}
    (hd : d ∈ (o.extract f).definitions) : ∃ ls, f.content.IsLines d.startLine d.endLine ls := by
  obtain ⟨l, hextract, -⟩ := Extraction.exists_language_of_mem hd
  rw [IngestOptions.extract, hextract] at hd
  exact l.exists_isLines f.path f.content hd

/-- **Every node has the text that it was extracted from**, if the files of one path have one text, and so
for every mapping. The node of a file has the text of every file of its path, and the node of a definition
has the lines of the definition in the text of its file, all of which exist; either is cut at the same
length. -/
theorem content_of_nodes [Engine] (o : IngestOptions) (w : Surroundings) (archive : Archive) (store : Store)
    (hlimit : 0 < o.build.maxContent) {files : List SourceFile} (hread : archive.read o.read = .ok files)
    (honce : ∀ holder bytes, archive = .zip holder bytes → OneText files) {done : Ingested}
    (hdone : (run o w archive store).outcome = .ok done) :
    let kept : Text → Text := fun t => t.take o.build.maxContent.toNat
    (∀ n ∈ done.graph.nodes, n.label = .file → (∃ f ∈ files, f.path = n.path) ∧
      ∀ f ∈ files, f.path = n.path → n.content = some (kept f.content)) ∧
    ∀ n ∈ done.graph.nodes, n.label ≠ .file → ∃ f ∈ files, ∃ d ∈ (o.extract f).definitions,
      n.id = d.id ∧ n.label = d.label ∧ n.name = d.name ∧ n.path = f.path ∧
      n.startLine = d.startLine ∧ n.endLine = d.endLine ∧
      ∃ ls, f.content.IsLines n.startLine n.endLine ls ∧
        n.content = some (kept (['\n'].intercalate ls)) := by
  intro kept
  have hone := oneText_of_read hread honce
  have hnodes : ∀ n ∈ done.graph.nodes, ∃ f ∈ files,
      n = Graph.fileNode o.build f.path f.content ∨
        ∃ d ∈ (o.extract f).definitions, n = Graph.definitionNode o.build f.path f.content d := by
    rw [graph_of_run hread hdone]
    exact fun n hn => exists_of_mem_finishedGraph hone hn
  constructor
  · intro n hn hlabel
    obtain ⟨f, hf, rfl | ⟨d, hd, rfl⟩⟩ := hnodes n hn
    · refine ⟨⟨f, hf, rfl⟩, fun g hg hpath => ?_⟩
      rw [hone g hg f hf hpath]
      exact congrArg some (Graph.cap_of_pos hlimit f.content)
    · exact absurd hlabel (Extraction.label_ne_file_of_mem hd)
  · intro n hn hlabel
    obtain ⟨f, hf, rfl | ⟨d, hd, rfl⟩⟩ := hnodes n hn
    · exact absurd rfl hlabel
    · obtain ⟨ls, hls⟩ := exists_isLines_of_mem hd
      refine ⟨f, hf, d, hd, rfl, rfl, rfl, rfl, rfl, rfl, ls, hls, ?_⟩
      rw [← hls.excerpt_eq]
      exact congrArg some (Graph.cap_of_pos hlimit _)

/-- A contract below a comment. -/
def contractSource : Text := "// A\ncontract A \x7b\x7d".toList

/-- Two entries of one path that have one text. -/
def repeatedArchive : Archive :=
  .zip .memory (Zip.pack [("a.sol".toList, contractSource), ("./a.sol".toList, contractSource)])

/-- Both entries are extracted, and the nodes have the first characters of their common text. -/
theorem content_of_nodes_repeated :
    let o : IngestOptions := { read := ⟨⟨[], []⟩, 1024⟩, build := { maxContent := 8 } }
    ∃ files done, repeatedArchive.read o.read = .ok files ∧ files.length = 2 ∧ OneText files ∧
      (run o {} repeatedArchive {}).outcome = .ok done ∧
      done.graph.nodes.map (·.content) = [some "// A\ncon".toList, some "contract".toList] ∧
      (∀ n ∈ done.graph.nodes, n.label = .file → (∃ f ∈ files, f.path = n.path) ∧
        ∀ f ∈ files, f.path = n.path → n.content = some (f.content.take 8)) ∧
      ∀ n ∈ done.graph.nodes, n.label ≠ .file → ∃ f ∈ files, ∃ d ∈ (o.extract f).definitions,
        n.id = d.id ∧ n.label = d.label ∧ n.name = d.name ∧ n.path = f.path ∧
        n.startLine = d.startLine ∧ n.endLine = d.endLine ∧
        ∃ ls, f.content.IsLines n.startLine n.endLine ls ∧
          n.content = some ((['\n'].intercalate ls).take 8) := by
  intro o
  let file : SourceFile := ⟨"a.sol".toList, contractSource⟩
  have hread : repeatedArchive.read o.read = .ok [file, file] := by decide +kernel
  have hone : OneText [file, file] := by decide +kernel
  obtain ⟨done, hdone, hgraph⟩ := exists_done hread (w := {}) rfl (by decide) {}
  have hcontent : (finishedGraph o {} [file, file]).nodes.map (·.content) =
      [some "// A\ncon".toList, some "contract".toList] := by
    decide +kernel
  rw [← hgraph] at hcontent
  exact ⟨_, done, hread, rfl, hone, hdone, hcontent,
    content_of_nodes o {} repeatedArchive {} (by decide) hread (fun _ _ _ => hone) hdone⟩

/-- Two entries of one path, the second of which has another text, without a contract. -/
def replacedArchive : Archive :=
  .zip .memory (Zip.pack [("a.sol".toList, contractSource), ("./a.sol".toList, "// B\n// C".toList)])

/-- The contract of the first entry has a line of the second one for its content, and the file that
contains the contract has the text of the second one. -/
theorem content_of_replaced :
    let o : IngestOptions := { read := ⟨⟨[], []⟩, 1024⟩ }
    ∃ files done, replacedArchive.read o.read = .ok files ∧
      (run o {} replacedArchive {}).outcome = .ok done ∧
      (∃ n ∈ done.graph.nodes, n.label ≠ .file ∧ ∀ f ∈ files, ∀ d ∈ (o.extract f).definitions,
        ∀ ls, f.content.IsLines d.startLine d.endLine ls →
          n.content ≠ some ((['\n'].intercalate ls).take o.build.maxContent.toNat)) ∧
      ∃ n ∈ done.graph.nodes, n.label = .file ∧ ∀ f ∈ files, (o.extract f).definitions ≠ [] →
        n.content ≠ some (f.content.take o.build.maxContent.toNat) := by
  intro o
  let files : List SourceFile :=
    [⟨"a.sol".toList, contractSource⟩, ⟨"a.sol".toList, "// B\n// C".toList⟩]
  have hread : replacedArchive.read o.read = .ok files := by decide +kernel
  obtain ⟨done, hdone, hgraph⟩ := exists_done hread (w := {}) rfl (by decide) {}
  have hnodes : (∃ n ∈ (finishedGraph o {} files).nodes, n.label ≠ .file ∧
      ∀ f ∈ files, ∀ d ∈ (o.extract f).definitions,
        n.content ≠ some ((Text.excerpt f.content d.startLine d.endLine).take 20000)) ∧
      ∃ n ∈ (finishedGraph o {} files).nodes, n.label = .file ∧
        ∀ f ∈ files, (o.extract f).definitions ≠ [] →
          n.content ≠ some (f.content.take 20000) := by
    decide +kernel
  rw [← hgraph] at hnodes
  obtain ⟨⟨n, hn, hlabel, hlines⟩, hfile⟩ := hnodes
  refine ⟨files, done, hread, hdone, ⟨n, hn, hlabel, fun f hf d hd ls hls => ?_⟩, hfile⟩
  rw [← hls.excerpt_eq]
  exact hlines f hf d hd

end Ingestion

end CodeAtlas
