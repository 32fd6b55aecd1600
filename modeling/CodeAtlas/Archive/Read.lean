import CodeAtlas.Archive.EntryPath
import CodeAtlas.Archive.Zip
import CodeAtlas.Mapping

set_option autoImplicit false

/-! # Reading an archive

An archive is a mapping from names to contents or a zip file. Either is read into files with
normalised paths, decoded and sorted by path. Entries that the filter names and entries that are
too large are left out.
-/

namespace CodeAtlas

inductive Contents where
  | text (t : Text)
  | bytes (b : Bytes)

def Contents.decode : Contents → Text
  | text t => t
  | bytes b => Utf8.decode b

inductive Archive where
  | mapping (entries : Mapping Contents)
  | zip (holder : Zip.Holder) (bytes : Bytes)
  /-- A file that cannot be opened. -/
  | unopened (path : Text) (fault : FileFault)

structure SourceFile where
  path : Text
  content : Text
deriving DecidableEq

structure ReadOptions where
  filter : EntryPath.Filter
  /-- The largest size in bytes of a file that is read. -/
  maxSize : Int
  [decompressor : Zip.Decompressor]

namespace Archive

/-- An entry as a reader of zip files presents it. -/
structure Entry where
  name : Text
  size : Nat
  contents : Except ArchiveError Bytes

def Entry.isDirectory (e : Entry) : Bool := e.name.getLast? == some '/'

def isIgnored (o : ReadOptions) (path : Text) : Except ArchiveError Bool :=
  match EntryPath.ignored? o.filter path with
  | some b => .ok b
  | none => .error .noComponents

/-! ## Mappings -/

/-- The file of one entry of a mapping, if it is not left out. -/
def readNamed (o : ReadOptions) (name : Text) (c : Contents) :
    Except ArchiveError (Option SourceFile) :=
  let path := EntryPath.normalize name
  match isIgnored o path with
  | .error e => .error e
  | .ok true => .ok none
  | .ok false =>
    let content := c.decode
    if o.maxSize < (Utf8.size content : Int) then .ok none else .ok (some ⟨path, content⟩)

/-- The files of a mapping. A path that comes again keeps its place and takes the later content. -/
def readMapping (o : ReadOptions) : Mapping Contents → Mapping Text →
    Except ArchiveError (Mapping Text)
  | [], files => .ok files
  | (name, c) :: rest, files =>
    match readNamed o name c with
    | .error e => .error e
    | .ok none => readMapping o rest files
    | .ok (some f) => readMapping o rest (files.insert f.path f.content)

/-! ## Zip files -/

/-- The file of one entry of a zip file, if it is not left out. Its contents are looked at last. Whether
it is a directory is asked first. That test indexes the last character of the name, so it fails on an
empty name; from versions 3.11.9 and 3.12.3 on it compares the end of the name, and the entry would be
left out instead. -/
def readEntry (o : ReadOptions) (e : Entry) : Except ArchiveError (Option SourceFile) :=
  if e.name.isEmpty then .error .noName
  else if e.isDirectory then .ok none
  else
    let path := EntryPath.normalize e.name
    match isIgnored o path with
    | .error err => .error err
    | .ok true => .ok none
    | .ok false =>
      if o.maxSize < (e.size : Int) then .ok none
      else match e.contents with
        | .error err => .error err
        | .ok b => .ok (some ⟨path, Utf8.decode b⟩)

def readEntries (o : ReadOptions) : List Entry → Except ArchiveError (List SourceFile)
  | [] => .ok []
  | e :: es =>
    match readEntry o e with
    | .error err => .error err
    | .ok f =>
      match readEntries o es with
      | .error err => .error err
      | .ok fs => .ok (f.toList ++ fs)

/-- The entries of a zip file in the order of its directory. -/
def entriesOf (decompressor : Zip.Decompressor) (holder : Zip.Holder) (bytes : Bytes) :
    Except ArchiveError (List Entry) :=
  match Zip.directory holder bytes with
  | .error e => .error e
  | .ok (start, rs) =>
    .ok ((Zip.withLimits start rs [] rs).map fun (r, limit) =>
      ⟨r.name, r.size, Zip.contents decompressor holder bytes r limit⟩)

/-! ## Archives -/

/-- Files in the order of their paths; files of one path keep their order. -/
def sortFiles (fs : List SourceFile) : List SourceFile :=
  sortBy (fun a b => Text.le a.path b.path) fs

def read (o : ReadOptions) : Archive → Except ArchiveError (List SourceFile)
  | mapping m =>
    match readMapping o m [] with
    | .error e => .error e
    | .ok files => .ok (sortFiles (files.map fun p => ⟨p.1, p.2⟩))
  | zip holder bytes =>
    match entriesOf o.decompressor holder bytes with
    | .error e => .error e
    | .ok es =>
      match readEntries o es with
      | .error e => .error e
      | .ok fs => .ok (sortFiles fs)
  | unopened path fault => .error (.file path fault)

end Archive

end CodeAtlas
