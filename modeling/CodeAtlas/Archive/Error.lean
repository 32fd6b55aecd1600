import CodeAtlas.Digest.Hex
import CodeAtlas.Text.Position
import CodeAtlas.Text.Quoted

set_option autoImplicit false

/-! # Why an archive cannot be read -/

namespace CodeAtlas

/-- A number of an entry that has a long form. -/
inductive LongNumber where
  | size
  | storedSize
  | offset
deriving DecidableEq

inductive ZipFault where
  | notZip
  | severalDisks
  | badDirectoryOffset
  | truncatedDirectory
  | badDirectoryMagic
  /-- The extra field with this number claims more bytes than there are. -/
  | badExtra (number size : Nat)
  /-- The long form of a number is missing. -/
  | missingLong (number : LongNumber)
  | truncatedHeader
  | badHeaderMagic
  /-- The directory lists an entry under another name than the entry's own header. -/
  | nameDiffers (listed : Text) (header : Bytes)
  /-- An entry reaches into the next one or into the directory. -/
  | overlap (listed : Text)
  | badChecksum (name : Text)
deriving DecidableEq

inductive Unsupported where
  /-- The version of the format that an entry needs, in tenths. -/
  | version (tenths : Nat)
  | patchedData
  | strongEncryption
  | compression
deriving DecidableEq

inductive FileFault where
  | missing
  | isDirectory
  | notDirectory
  | nameTooLong
  /-- The path holds a NUL. -/
  | nullByte
deriving DecidableEq

inductive ArchiveError where
  | zip (fault : ZipFault)
  | file (path : Text) (fault : FileFault)
  /-- The entry, as messages speak of it. -/
  | encrypted (entry : Text)
  | unsupported (feature : Unsupported)
  /-- The bytes of an entry cannot be decompressed, in the words of the decompressor. -/
  | badStream (words : Text)
  /-- The name of an entry is not UTF-8. -/
  | badName (fault : Utf8.Fault)
  /-- An entry starts before the first byte. -/
  | beforeStart (position : Int)
  /-- An entry starts before the first byte of a file. -/
  | badSeek
  /-- The name of an entry is empty. -/
  | noName
  /-- The path of an entry has no components. -/
  | noComponents
deriving DecidableEq

def LongNumber.name : LongNumber → Text
  | size => "File size".toList
  | storedSize => "Compress size".toList
  | offset => "Header offset".toList

namespace ZipFault

def message : ZipFault → Text
  | notZip => "File is not a zip file".toList
  | severalDisks => "zipfiles that span multiple disks are not supported".toList
  | badDirectoryOffset => "Bad offset for central directory".toList
  | truncatedDirectory => "Truncated central directory".toList
  | badDirectoryMagic => "Bad magic number for central directory".toList
  | badExtra number size =>
    "Corrupt extra field ".toList ++
      Digest.hex [UInt8.ofNat (number / 256), UInt8.ofNat (number % 256)] ++
      " (size=".toList ++ Text.ofNat size ++ [')']
  | missingLong number =>
    "Corrupt zip64 extra field. ".toList ++ number.name ++ " not found.".toList
  | truncatedHeader => "Truncated file header".toList
  | badHeaderMagic => "Bad magic number for file header".toList
  | nameDiffers listed header =>
    "File name in directory ".toList ++ Text.quoted listed ++ " and header ".toList ++
      Text.quotedBytes header ++ " differ.".toList
  | overlap listed =>
    "Overlapped entries: ".toList ++ Text.quoted listed ++ " (possible zip bomb)".toList
  | badChecksum name => "Bad CRC-32 for file ".toList ++ Text.quoted name

end ZipFault

namespace Unsupported

def message : Unsupported → Text
  | version tenths =>
    "zip file version ".toList ++ Text.ofNat (tenths / 10) ++ '.' :: Text.ofNat (tenths % 10)
  | patchedData => "compressed patched data (flag bit 5)".toList
  | strongEncryption => "strong encryption (flag bit 6)".toList
  | compression => "That compression method is not supported".toList

end Unsupported

namespace FileFault

def message : FileFault → Text
  | missing => "[Errno 2] No such file or directory".toList
  | isDirectory => "[Errno 21] Is a directory".toList
  | notDirectory => "[Errno 20] Not a directory".toList
  | nameTooLong => "[Errno 36] File name too long".toList
  | nullByte => "embedded null byte".toList

def messageFor (fault : FileFault) (path : Text) : Text :=
  fault.message ++ ": ".toList ++ Text.quoted path

end FileFault

def Utf8.Fault.message (f : Utf8.Fault) : Text :=
  let at_ := Text.ofNat f.position
  let what := match f.bytes with
    | [b] => " byte 0x".toList ++ Digest.hexByte b ++ " in position ".toList ++ at_
    | bs => " bytes in position ".toList ++ at_ ++
        '-' :: Text.ofNat (f.position + bs.length - 1)
  "'utf-8' codec can't decode".toList ++ what ++ ": ".toList ++ f.reason.message

namespace ArchiveError

/-- What every message about an archive that cannot be opened starts with. -/
def lead : Text := "Cannot read archive: ".toList

def message : ArchiveError → Text
  | zip fault => lead ++ fault.message
  | file _ .nullByte => FileFault.nullByte.message
  | file path fault => lead ++ fault.messageFor path
  | encrypted entry =>
    "File ".toList ++ entry ++ " is encrypted, password required for extraction".toList
  | unsupported feature => feature.message
  | badStream words => words
  | badName fault => fault.message
  | beforeStart position => "negative seek value ".toList ++ Text.ofInt position
  | badSeek => lead ++ "[Errno 22] Invalid argument".toList
  | noName => OutOfRange.message {}
  | noComponents => "tuple index out of range".toList

end ArchiveError

end CodeAtlas
