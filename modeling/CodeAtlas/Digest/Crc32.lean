import CodeAtlas.Text.Utf8

set_option autoImplicit false

/-! # The CRC-32 checksum of archive entries -/

namespace CodeAtlas.Digest

/-- Shift one bit out of the checksum register. -/
def crcBit (c : UInt32) : UInt32 :=
  if c &&& 1 == 1 then (c >>> 1) ^^^ 0xEDB88320 else c >>> 1

def crcByte (c : UInt32) (b : UInt8) : UInt32 :=
  (List.range 8).foldl (fun r _ => crcBit r) (c ^^^ b.toUInt32)

def crc32 (bytes : Bytes) : UInt32 := ~~~(bytes.foldl crcByte 0xFFFFFFFF)

end CodeAtlas.Digest
