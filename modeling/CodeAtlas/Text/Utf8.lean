import CodeAtlas.Text.Basic

set_option autoImplicit false

/-! # UTF-8

Writing a text as bytes, and reading bytes as a text. Reading drops what cannot be decoded: a byte
that starts no sequence is dropped alone, and a sequence that breaks off is dropped up to the byte
that cannot continue it, which is then read afresh.
-/

namespace CodeAtlas

/-- A file's contents before they are decoded. -/
abbrev Bytes := List UInt8

namespace Utf8

/-! ## Writing -/

def encodeChar (c : Char) : Bytes :=
  let n := c.toNat
  if n < 0x80 then [UInt8.ofNat n]
  else if n < 0x800 then [UInt8.ofNat (0xC0 + n / 64), UInt8.ofNat (0x80 + n % 64)]
  else if n < 0x10000 then
    [UInt8.ofNat (0xE0 + n / 4096), UInt8.ofNat (0x80 + n / 64 % 64), UInt8.ofNat (0x80 + n % 64)]
  else
    [UInt8.ofNat (0xF0 + n / 262144), UInt8.ofNat (0x80 + n / 4096 % 64),
      UInt8.ofNat (0x80 + n / 64 % 64), UInt8.ofNat (0x80 + n % 64)]

def encode (t : Text) : Bytes := t.flatMap encodeChar

def size (t : Text) : Nat := (encode t).length

/-! ## Reading -/

def isContinuation (b : UInt8) : Bool := 0x80 ≤ b.toNat && b.toNat ≤ 0xBF

/-- The range of the second byte after a given first byte of a sequence of three or four: overlong
forms, surrogates and values past the last code point are left out. -/
def secondRange (first : Nat) : Nat × Nat :=
  if first == 0xE0 then (0xA0, 0xBF)
  else if first == 0xED then (0x80, 0x9F)
  else if first == 0xF0 then (0x90, 0xBF)
  else if first == 0xF4 then (0x80, 0x8F)
  else (0x80, 0xBF)

/-- May `b` be the second byte after `first`? -/
def isSecond (first : Nat) (b : UInt8) : Bool :=
  let r := secondRange first
  r.1 ≤ b.toNat && b.toNat ≤ r.2

/-- The character that starts with byte `b`, or none if the bytes are to be dropped, and the
number of bytes after `b` that are used up. -/
def decodeHead (b : UInt8) (rest : Bytes) : Option Char × Nat :=
  let n := b.toNat
  if n < 0x80 then (some (Char.ofNat n), 0)
  else if 0xC2 ≤ n && n ≤ 0xDF then
    match rest with
    | c :: _ =>
      if isContinuation c then (some (Char.ofNat ((n - 0xC0) * 64 + (c.toNat - 0x80))), 1)
      else (none, 0)
    | [] => (none, 0)
  else if 0xE0 ≤ n && n ≤ 0xEF then
    match rest with
    | c :: rest =>
      if isSecond n c then
        match rest with
        | d :: _ =>
          if isContinuation d then
            (some (Char.ofNat
              ((n - 0xE0) * 4096 + (c.toNat - 0x80) * 64 + (d.toNat - 0x80))), 2)
          else (none, 1)
        | [] => (none, 1)
      else (none, 0)
    | [] => (none, 0)
  else if 0xF0 ≤ n && n ≤ 0xF4 then
    match rest with
    | c :: rest =>
      if isSecond n c then
        match rest with
        | d :: rest =>
          if isContinuation d then
            match rest with
            | e :: _ =>
              if isContinuation e then
                (some (Char.ofNat ((n - 0xF0) * 262144 + (c.toNat - 0x80) * 4096 +
                  (d.toNat - 0x80) * 64 + (e.toNat - 0x80))), 3)
              else (none, 2)
            | [] => (none, 2)
          else (none, 1)
        | [] => (none, 1)
      else (none, 0)
    | [] => (none, 0)
  else (none, 0)

/-- Decode after passing over `skip` bytes that are used up already. -/
def decodeFrom : Nat → Bytes → Text
  | _, [] => []
  | skip + 1, _ :: rest => decodeFrom skip rest
  | 0, b :: rest =>
    match decodeHead b rest with
    | (some c, used) => c :: decodeFrom used rest
    | (none, used) => decodeFrom used rest

/-- The text of the bytes, without what cannot be decoded. -/
def decode (bytes : Bytes) : Text := decodeFrom 0 bytes

/-! ## Reading strictly -/

inductive FaultReason where
  | badStart
  | badContinuation
  | unfinished
deriving DecidableEq

structure Fault where
  position : Nat
  bytes : Bytes
  reason : FaultReason
deriving DecidableEq

/-- Is a byte the first of some sequence? -/
def isStart (b : UInt8) : Bool := b.toNat < 0x80 || (0xC2 ≤ b.toNat && b.toNat ≤ 0xF4)

/-- The first fault in bytes that start at a position, after passing over `skip` of them. -/
def faultFrom? : Nat → Nat → Bytes → Option Fault
  | _, _, [] => none
  | position, skip + 1, _ :: rest => faultFrom? (position + 1) skip rest
  | position, 0, b :: rest =>
    match decodeHead b rest with
    | (some _, used) => faultFrom? (position + 1) used rest
    | (none, used) =>
      let reason := if !isStart b then .badStart
        else if rest.length ≤ used then .unfinished
        else .badContinuation
      some ⟨position, b :: rest.take used, reason⟩

/-- The text of the bytes, or the first fault. -/
def decodeStrict (bytes : Bytes) : Except Fault Text :=
  match faultFrom? 0 0 bytes with
  | some f => .error f
  | none => .ok (decode bytes)

def FaultReason.message : FaultReason → Text
  | badStart => "invalid start byte".toList
  | badContinuation => "invalid continuation byte".toList
  | unfinished => "unexpected end of data".toList

end Utf8

end CodeAtlas
