import CodeAtlas.Text.Utf8

set_option autoImplicit false

/-! # Hexadecimal digits -/

namespace CodeAtlas.Digest

def hexDigit (n : Nat) : Char := Nat.digitChar n

def hexByte (b : UInt8) : Text := [hexDigit (b.toNat / 16), hexDigit (b.toNat % 16)]

def hex (bytes : Bytes) : Text := bytes.flatMap hexByte

end CodeAtlas.Digest
