/-
MinSdk — the lowest level of the platform a project supports.

The configured level counts first, then that of the first manifest that
gives one, then that of the first build script; without any it is the
first level.  A build script is not run: what counts is the first line
that begins by setting the level to a number.
-/
import AndroidLint.Markup.Reader
import AndroidLint.Project.Storage
import AndroidLint.Text.Digit

namespace AndroidLint

namespace Project

/-- The level that a manifest's text gives. -/
def manifestLevel? (path : FilePath) (text : String) : Option Nat :=
  match Markup.read path text with
  | .error _ => none
  | .ok d =>
      ((d.elements.toList.filter (·.tag == "uses-sdk")).findSome? fun e =>
        (e.attributes.find? (·.name == "android:minSdkVersion")).map (·.value)).bind fun v =>
          Text.level? (Text.trim v)

/-- The number in front, behind an equals sign or a bracket or neither;
something has to part it from the word before. -/
def assigned? (cs : List Char) : Option (List Char) :=
  let number? (cs : List Char) : Option (List Char) :=
    match (cs.dropWhile Text.isBlank).takeWhile Text.isDecimalDigit with
    | [] => none
    | ds => some ds
  match cs with
  | [] => none
  | c :: _ =>
      if Text.isDecimalDigit c then none
      else match cs.dropWhile Text.isBlank with
        | '=' :: r => number? r
        | '(' :: r => number? r
        | r => number? r

/-- The digits to which what follows sets the level, by a word of two
forms. -/
def setLevel? (cs : List Char) : Option (List Char) :=
  let word := "minSdk".toList
  let longWord := "minSdkVersion".toList
  let cs := cs.dropWhile Text.isBlank
  if longWord.isPrefixOf cs then assigned? (cs.drop longWord.length)
  else if word.isPrefixOf cs then assigned? (cs.drop word.length)
  else none

/-- The digits to which the first line that does so sets the level. -/
def firstSetLevel? (atLineStart : Bool) : List Char → Option (List Char)
  | [] => none
  | c :: r =>
      ((if atLineStart then setLevel? (c :: r) else none).orElse fun _ =>
        firstSetLevel? (c == '\n') r)

/-- The level that a build script's text gives. -/
def scriptLevel? (text : String) : Option Nat :=
  (firstSetLevel? true text.toList).bind fun ds => Text.level? (String.ofList ds)

namespace Storage

/-- The level that the manifest at a path gives. -/
def manifestLevel? (s : Storage) (path : FilePath) : Option Nat :=
  match s.read path with
  | .error _ => none
  | .ok text => Project.manifestLevel? path text

/-- The level that the build script at a path gives. -/
def scriptLevel? (s : Storage) (path : FilePath) : Option Nat :=
  match s.read path with
  | .error _ => none
  | .ok text => Project.scriptLevel? text

end Storage

/-- The level of a project that sets none. -/
def firstLevel : Nat := 1

/-- The lowest level of a project. -/
def minSdk (s : Storage) (configured? : Option Nat) (manifests scripts : List FilePath) : Nat :=
  configured?.getD
    (((manifests.findSome? s.manifestLevel?).orElse fun _ =>
      scripts.findSome? s.scriptLevel?).getD firstLevel)

end Project

end AndroidLint
