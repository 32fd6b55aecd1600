import CodeAtlas.Archive.CodePage
import CodeAtlas.Archive.Error
import CodeAtlas.Digest.Crc32

set_option autoImplicit false

/-! # Zip archives

An archive ends with a record that says where its directory lies. The directory lists the entries,
and each entry has a header of its own before its bytes. Positions are relative to the start of the
archive, which need not be the start of the file: whatever precedes the archive shifts them all.
Numbers that do not fit into their fields have long forms: those of the end record in a second record
before it, and those of an entry in an extra field.

An entry is stored as it is or compressed. How the bytes of a method are decompressed is not said here:
a `Decompressor` knows.
-/

namespace CodeAtlas.Zip

/-! ## Fields -/

/-- The number in the first bytes, least significant byte first. -/
def littleEndian : Bytes → Nat
  | [] => 0
  | b :: rest => b.toNat + 256 * littleEndian rest

def field (record : Bytes) (offset width : Nat) : Nat :=
  littleEndian ((record.drop offset).take width)

def headerMark : Bytes := [0x50, 0x4B, 3, 4]

def directoryMark : Bytes := [0x50, 0x4B, 1, 2]

def endMark : Bytes := [0x50, 0x4B, 5, 6]

def longEndMark : Bytes := [0x50, 0x4B, 6, 6]

def locatorMark : Bytes := [0x50, 0x4B, 6, 7]

def headerSize : Nat := 30

/-- The length of a directory record without name, extra field and comment. -/
def directorySize : Nat := 46

/-- The length of the end record without comment. -/
def endSize : Nat := 22

/-- The length of the record with the long forms of the end record's numbers. -/
def longEndSize : Nat := 56

/-- The length of the record that announces it. -/
def locatorSize : Nat := 20

/-- The latest version of the format that is read, in tenths. -/
def latestVersion : Nat := 63

def hasFlag (flags bit : Nat) : Bool := flags.testBit bit

/-- A name is UTF-8 if its flags say so, and in the old code page otherwise. -/
def decodeName (flags : Nat) (name : Bytes) : Except ArchiveError Text :=
  if hasFlag flags 11 then (Utf8.decodeStrict name).mapError .badName
  else .ok (CodePage.decode name)

inductive Holder where
  | memory
  | file
deriving DecidableEq

/-- Go a distance back from a position. In memory the way ends at the first byte; in a file it must
not lead beyond. -/
def Holder.back? : Holder → Nat → Nat → Option Nat
  | memory, position, distance => some (position - distance)
  | file, position, distance => if distance ≤ position then some (position - distance) else none

def Holder.seek : Holder → Int → Except ArchiveError Nat
  | memory, position =>
    if 0 ≤ position then .ok position.toNat else .error (.beforeStart position)
  | file, position => if 0 ≤ position then .ok position.toNat else .error .badSeek

/-! ## The end record -/

/-- Does a record without comment end the file? -/
def endsPlain (bytes : Bytes) : Bool :=
  let record := bytes.drop (bytes.length - endSize)
  endSize ≤ bytes.length && endMark.isPrefixOf record && record.drop 20 == [0, 0]

/-- The offset of the last mark of an end record in bytes that start at offset `i`. -/
def lastMark : Nat → Bytes → Option Nat
  | _, [] => none
  | i, b :: rest =>
    (lastMark (i + 1) rest).or (if endMark.isPrefixOf (b :: rest) then some i else none)

/-- The offset of the end record. It is searched for where a comment of at most 65535 bytes leaves
it. -/
def endOffset? (bytes : Bytes) : Option Nat :=
  if bytes.length < endSize then none
  else if endsPlain bytes then some (bytes.length - endSize)
  else
    let from_ := bytes.length - (65536 + endSize)
    match lastMark from_ (bytes.drop from_) with
    | some i => if i + endSize ≤ bytes.length then some i else none
    | none => none

/-- What the end of an archive says of its directory. -/
structure EndRecord where
  /-- The offset of the end record. -/
  location : Nat
  /-- The length of the directory. -/
  size : Nat
  /-- The offset of the directory, counted from the start of the archive. -/
  offset : Nat
  /-- The length of the records between the directory and the end record. -/
  between : Nat := 0

/-- Take the numbers in their long forms, if there is a record of them. -/
def EndRecord.lengthen (holder : Holder) (bytes : Bytes) (r : EndRecord) :
    Except ArchiveError EndRecord :=
  match holder.back? r.location locatorSize with
  | none => .ok r
  | some i =>
    let locator := bytes.drop i
    if !locatorMark.isPrefixOf locator then .ok r
    else if field locator 4 4 != 0 || 1 < field locator 16 4 then .error (.zip .severalDisks)
    else
      match holder.back? r.location (locatorSize + longEndSize) with
      | none => .error (.zip .notZip)
      | some i =>
        let long := bytes.drop i
        if long.length < longEndSize || !longEndMark.isPrefixOf long then .ok r
        else
          .ok { r with
            size := field long 40 8
            offset := field long 48 8
            between := locatorSize + longEndSize }

def endRecord (holder : Holder) (bytes : Bytes) : Except ArchiveError EndRecord :=
  match endOffset? bytes with
  | none => .error (.zip .notZip)
  | some location =>
    let record := bytes.drop location
    EndRecord.lengthen holder bytes
      { location := location, size := field record 12 4, offset := field record 16 4 }

/-! ## The directory -/

structure Record where
  /-- The name as it is listed. -/
  listed : Text
  flags : Nat
  method : Nat
  checksum : Nat
  storedSize : Nat
  size : Nat
  /-- The permissions in the upper half, other attributes in the lower. -/
  attributes : Nat
  offset : Int

/-- The name of an entry: the listed name up to the first NUL. -/
def Record.name (r : Record) : Text := r.listed.takeWhile (·.toNat != 0)

def typeLetter (mode : Nat) : Char :=
  match mode / 4096 % 16 with
  | 1 => 'p'
  | 2 => 'c'
  | 4 => 'd'
  | 6 => 'b'
  | 8 => '-'
  | 10 => 'l'
  | 12 => 's'
  | _ => '?'

/-- Three letters for one class of users; `special` is the letter of the extra bit. -/
def permissionLetters (bits : Nat) (extra : Bool) (special : Char) : Text :=
  [if hasFlag bits 2 then 'r' else '-', if hasFlag bits 1 then 'w' else '-',
    if extra then (if hasFlag bits 0 then special else special.toUpper)
    else if hasFlag bits 0 then 'x' else '-']

/-- The type and permissions of a file, as ten letters. -/
def modeLetters (mode : Nat) : Text :=
  typeLetter mode :: permissionLetters (mode / 64 % 8) (hasFlag mode 11) 's' ++
    permissionLetters (mode / 8 % 8) (hasFlag mode 10) 's' ++
    permissionLetters (mode % 8) (hasFlag mode 9) 't'

/-- The names of known compression methods; any other goes by its number. -/
def methodName (method : Nat) : Text :=
  match method with
  | 1 => "shrink".toList
  | 2 | 3 | 4 | 5 => "reduce".toList
  | 6 => "implode".toList
  | 7 => "tokenize".toList
  | 8 => "deflate".toList
  | 9 => "deflate64".toList
  | 10 => "implode".toList
  | 12 => "bzip2".toList
  | 14 => "lzma".toList
  | 18 => "terse".toList
  | 19 => "lz77".toList
  | 97 => "wavpack".toList
  | 98 => "ppmd".toList
  | n => Text.ofNat n

/-- An entry as messages speak of it. -/
def Record.describe (r : Record) : Text :=
  let mode := r.attributes / 65536
  let other := r.attributes % 65536
  let isStored := r.method == 0
  "<ZipInfo filename=".toList ++ Text.quoted r.name ++
    (if isStored then [] else " compress_type=".toList ++ methodName r.method) ++
    (if mode == 0 then [] else " filemode=".toList ++ Text.quoted (modeLetters mode)) ++
    (if other == 0 then [] else " external_attr=0x".toList ++ Nat.toDigits 16 other) ++
    " file_size=".toList ++ Text.ofNat r.size ++
    (if isStored && r.size == r.storedSize then []
      else " compress_size=".toList ++ Text.ofNat r.storedSize) ++ ['>']

/-! ### Extra fields -/

/-- The number in the first bytes in its long form, and the bytes after it. -/
def longNumber (number : LongNumber) (data : Bytes) : Except ArchiveError (Nat × Bytes) :=
  if data.length < 8 then .error (.zip (.missingLong number))
  else .ok (field data 0 8, data.drop 8)

/-- The value of a field whose number has only a long form. -/
def allOnes (width : Nat) : Nat := 1 <<< (8 * width) - 1

/-- Take the size of an entry in its long form, if its own field does not hold it. -/
def Record.lengthenSize (r : Record) (data : Bytes) : Except ArchiveError (Record × Bytes) :=
  if r.size == allOnes 4 || r.size == allOnes 8 then
    (longNumber .size data).map fun (n, rest) => ({ r with size := n }, rest)
  else .ok (r, data)

/-- The same for the number of its bytes in the archive. -/
def Record.lengthenStoredSize (r : Record) (data : Bytes) : Except ArchiveError (Record × Bytes) :=
  if r.storedSize == allOnes 4 then
    (longNumber .storedSize data).map fun (n, rest) => ({ r with storedSize := n }, rest)
  else .ok (r, data)

/-- The same for its offset. -/
def Record.lengthenOffset (r : Record) (data : Bytes) : Except ArchiveError Record :=
  if r.offset == (allOnes 4 : Int) then
    (longNumber .offset data).map fun (n, _) => { r with offset := n }
  else .ok r

/-- The number of the extra field that holds long forms. -/
def longFormsNumber : Nat := 1

/-- Read one extra field. -/
def Record.addExtra (r : Record) (number : Nat) (data : Bytes) : Except ArchiveError Record :=
  if number != longFormsNumber then .ok r
  else
    match r.lengthenSize data with
    | .error e => .error e
    | .ok (r, data) =>
      match r.lengthenStoredSize data with
      | .error e => .error e
      | .ok (r, data) => r.lengthenOffset data

/-- Read extra fields, at most `limit` of them. Less than four bytes at the end are no field. -/
def Record.addExtras : Nat → Record → Bytes → Except ArchiveError Record
  | 0, r, _ => .ok r
  | limit + 1, r, extra =>
    if extra.length < 4 then .ok r
    else
      let number := field extra 0 2
      let size := field extra 2 2
      if extra.length < size + 4 then .error (.zip (.badExtra number size))
      else
        match r.addExtra number ((extra.drop 4).take size) with
        | .error e => .error e
        | .ok r => addExtras limit r (extra.drop (size + 4))

/-! ### Records -/

/-- Read one record of the directory and the number of bytes that it takes. `shift` is what
precedes the archive. -/
def readRecord (shift : Int) (bytes : Bytes) : Except ArchiveError (Record × Nat) :=
  if bytes.length < directorySize then .error (.zip .truncatedDirectory)
  else if !directoryMark.isPrefixOf bytes then .error (.zip .badDirectoryMagic)
  else
    let nameLength := field bytes 28 2
    let extraLength := field bytes 30 2
    let flags := field bytes 8 2
    match decodeName flags ((bytes.drop directorySize).take nameLength) with
    | .error e => .error e
    | .ok listed =>
      if latestVersion < field bytes 6 1 then .error (.unsupported (.version (field bytes 6 1)))
      else
        let short : Record :=
          { listed := listed
            flags := flags
            method := field bytes 10 2
            checksum := field bytes 16 4
            storedSize := field bytes 20 4
            size := field bytes 24 4
            attributes := field bytes 38 4
            offset := field bytes 42 4 }
        let extra := (bytes.drop (directorySize + nameLength)).take extraLength
        (short.addExtras extra.length extra).map fun r =>
          ({ r with offset := r.offset + shift },
            directorySize + nameLength + extraLength + field bytes 32 2)

def readRecords (shift : Int) : Nat → Bytes → Except ArchiveError (List Record)
  | 0, _ => .ok []
  | limit + 1, bytes =>
    if bytes.isEmpty then .ok []
    else
      match readRecord shift bytes with
      | .error e => .error e
      | .ok (r, used) =>
        match readRecords shift limit (bytes.drop used) with
        | .error e => .error e
        | .ok rs => .ok (r :: rs)

/-- Where the last entry must have ended, and the records of the directory in order. -/
def directory (holder : Holder) (bytes : Bytes) : Except ArchiveError (Int × List Record) :=
  match endRecord holder bytes with
  | .error e => .error e
  | .ok last =>
    if last.location < last.size + last.between then .error (.zip .badDirectoryOffset)
    else
      let start := last.location - (last.size + last.between)
      let listing := (bytes.drop start).take last.size
      (readRecords ((start : Int) - last.offset) (last.size + 1) listing).map fun rs => (start, rs)

/-- Where each entry must have ended: where the next one of the file starts, and for the last one
where the directory does. An entry whose place an earlier record already claims has no room. -/
def withLimits (start : Int) (all : List Record) : List Int → List Record → List (Record × Int)
  | _, [] => []
  | claimed, r :: rs =>
    let later := (all.map Record.offset).filter (r.offset < ·)
    let limit := if claimed.contains r.offset then r.offset else later.min?.getD start
    (r, limit) :: withLimits start all (r.offset :: claimed) rs

/-! ## Entries -/

class Decompressor where
  /-- Decompress bytes of an entry that has a size; none if the method is not known. -/
  decompress? (method size : Nat) (data : Bytes) : Option (Except ArchiveError Bytes)

/-- No method of compression is known unless one is given. -/
instance : Decompressor := ⟨fun _ _ _ => none⟩

/-- An entry from the bytes that are stored for it. -/
def Record.unpack (decompressor : Decompressor) (r : Record) (data : Bytes) :
    Except ArchiveError Bytes :=
  if r.method == 0 then .ok (data.take r.size)
  else
    match decompressor.decompress? r.method r.size data with
    | none => .error (.unsupported .compression)
    | some unpacked => unpacked.map (·.take r.size)

/-- The bytes of an entry whose header starts at a position and that has to end at `limit`, once its
own header agrees with the directory, it is not encrypted, it can be unpacked, and its checksum is
right. -/
def contentsAt (decompressor : Decompressor) (bytes : Bytes) (position : Nat) (r : Record)
    (limit : Int) : Except ArchiveError Bytes :=
  let header := bytes.drop position
  if header.length < headerSize then .error (.zip .truncatedHeader)
  else if !headerMark.isPrefixOf header then .error (.zip .badHeaderMagic)
  else if hasFlag r.flags 5 then .error (.unsupported .patchedData)
  else if hasFlag r.flags 6 then .error (.unsupported .strongEncryption)
  else
    let nameLength := field header 26 2
    let name := (header.drop headerSize).take nameLength
    let before := headerSize + nameLength + field header 28 2
    match decodeName (field header 6 2) name with
    | .error e => .error e
    | .ok own =>
      if own != r.listed then .error (.zip (.nameDiffers r.listed name))
      else if limit < (min (position + before) bytes.length + r.storedSize : Nat) then
        .error (.zip (.overlap r.listed))
      else if hasFlag r.flags 0 then .error (.encrypted r.describe)
      else
        match r.unpack decompressor ((header.drop before).take r.storedSize) with
        | .error e => .error e
        | .ok data =>
          if (Digest.crc32 data).toNat != r.checksum then .error (.zip (.badChecksum r.name))
          else .ok data

def contents (decompressor : Decompressor) (holder : Holder) (bytes : Bytes) (r : Record)
    (limit : Int) : Except ArchiveError Bytes :=
  match holder.seek r.offset with
  | .error e => .error e
  | .ok position => contentsAt decompressor bytes position r limit

end CodeAtlas.Zip
