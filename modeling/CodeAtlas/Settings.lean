import CodeAtlas.Path
import CodeAtlas.Text.Digit
import CodeAtlas.Text.Lower

set_option autoImplicit false

/-! # Settings -/

namespace CodeAtlas

/-- The settings of an installation. Lists are written with commas. -/
structure Settings where
  delimiter : Text := [',']
  maxWorkers : Int := 4
  maxFileSize : Int := 1024 * 1024
  maxContentChars : Int := 20000
  tieBreak : Text := "same_file_first".toList
  ignoredDirs : Text :=
    (".git,.svn,.hg,node_modules,__pycache__,.venv,venv,.idea,.vscode," ++
      ".pytest_cache,.mypy_cache,dist,build,coverage,.next,artifacts,cache,out").toList
  ignoredExtensions : Text :=
    (".png,.jpg,.jpeg,.gif,.bmp,.ico,.svg,.webp,.pdf,.zip,.gz,.tar,.tgz,.7z," ++
      ".jar,.class,.exe,.dll,.so,.dylib,.o,.a,.woff,.woff2,.ttf,.eot,.mp3,.mp4," ++
      ".mov,.wasm,.lock,.map,.min.js").toList
  logFile : Text := "logs/app.log".toList

namespace Settings

def version : Text := "0.1.0".toList

/-- Read a number as settings may spell it: an integer, with low lines between its digits or not, and
with zeros after a point or not. -/
def integer? (t : Text) : Option Int :=
  let (sign, rest) := Text.splitSign (Text.trimNumber t)
  let whole := rest.takeWhile (· != '.')
  let groups := whole.splitOn '_'
  if groups.all (fun g => !g.isEmpty) && (rest.drop (whole.length + 1)).all (· == '0') then
    (Text.nat? groups.flatten).map fun n => if sign == ['-'] then -(n : Int) else n
  else none

def items (t : Text) : List Text :=
  ((t.splitOn ',').map Text.trim).filter fun p => !p.isEmpty

def ignoredDirList (s : Settings) : List Text := items s.ignoredDirs

/-- The endings of file names that are left out, in lower case. -/
def ignoredExtensionList (s : Settings) : List Text := (items s.ignoredExtensions).map Text.lower

def logDir (s : Settings) : Text := Path.parent s.logFile

end Settings

end CodeAtlas
