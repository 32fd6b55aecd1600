import CodeAtlas.Archive.Read
import CodeAtlas.Path

set_option autoImplicit false

/-! # Finding an archive by its path

A path is followed from a working directory that holds some files and nothing else. The directories
above it exist and hold nothing of interest, and so do the directories that every system has at its
root. Components are looked up one after another, so the first one that cannot be followed decides.
-/

namespace CodeAtlas

/-- The files of the working directory. -/
abbrev Directory := Mapping Bytes

def Path.up : Text := ['.', '.']

/-- The greatest number of bytes of a path. -/
def Path.maxSize : Nat := 4095

/-- The greatest number of bytes of a component. -/
def Path.maxComponentSize : Nat := 255

/-- The directories at the root of every system. -/
def Path.systemDirectories : List Text :=
  ["bin", "boot", "dev", "etc", "home", "lib", "media", "mnt", "opt", "proc", "root", "run", "sbin",
    "srv", "sys", "tmp", "usr", "var"].map (·.toList)

namespace Directory

/-- The file that a path leads to, or what keeps it from leading to one. A slash or dot after the
name of a file asks for a directory. -/
def find (files : Directory) (path : Text) : Except FileFault Bytes :=
  let all := Path.components path
  let isInside := Path.root path == [] && all.head? != some Path.up
  if path.isEmpty then .error .missing
  else if Path.maxSize < Utf8.size path then .error .nameTooLong
  else
    match all.dropWhile (· == Path.up) with
    | [] => .error .isDirectory
    | name :: below =>
      if Path.maxComponentSize < Utf8.size name then .error .nameTooLong
      else
        match if isInside then files.get? name else none with
        | none =>
          if Path.root path != [] && below.isEmpty && Path.systemDirectories.contains name then
            .error .isDirectory
          else .error .missing
        | some bytes =>
          if below.isEmpty && Path.baseName path == name then .ok bytes else .error .notDirectory

/-- Open a path as an archive. No path holds a NUL. -/
def openArchive (files : Directory) (path : Text) : Archive :=
  if path.any (·.toNat == 0) then .unopened path .nullByte
  else
    match files.find path with
    | .ok bytes => .zip .file bytes
    | .error fault => .unopened path fault

/-! ## Paths below a home directory -/

def systemUsers : List Text :=
  ["root", "daemon", "bin", "sys", "sync", "games", "man", "lp", "mail", "news", "uucp", "proxy",
    "www-data", "backup", "list", "irc", "_apt", "nobody"].map (·.toList)

inductive LookupError where
  /-- It starts with the home directory of a user who has none. -/
  | noHome
  | nullByte
  | nameTooLong (path : Text)
deriving DecidableEq

def LookupError.message : LookupError → Text
  | noHome => "Could not determine home directory.".toList
  | nullByte => FileFault.nullByte.message
  | nameTooLong path => FileFault.nameTooLong.messageFor path

/-- Does a path start with a home directory? There is none of an unknown user, and no archive in one
of a known user. -/
def startsAtHome (path : Text) : Except LookupError Bool :=
  match Path.root path, Path.components path with
  | [], ('~' :: user) :: _ =>
    if user.any (·.toNat == 0) then .error .nullByte
    else if user.isEmpty || systemUsers.contains user then .ok true
    else .error .noHome
  | _, _ => .ok false

/-- The archive at a path, if there is a file; a slash or dot at the end of the path does not
matter. -/
def lookup (files : Directory) (path : Text) : Except LookupError (Option Archive) :=
  match startsAtHome path with
  | .error e => .error e
  | .ok true => .ok none
  | .ok false =>
    let plain := Path.write (Path.root path) (Path.components path)
    if path.any (·.toNat == 0) then .ok none
    else
      match files.find plain with
      | .ok bytes => .ok (some (.zip .file bytes))
      | .error .nameTooLong => .error (.nameTooLong plain)
      | .error _ => .ok none

end Directory

end CodeAtlas
