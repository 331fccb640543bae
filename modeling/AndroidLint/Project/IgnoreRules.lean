/-
IgnoreRules — lists of patterns that say which paths are left out.

Each line of a list is a pattern for paths below the folder the list lies
in.  A pattern without a slash, but for one at its end, applies in every
folder below; one that ends in a slash applies to folders only; one behind
an exclamation mark takes back what earlier lines left out.  The last line
that applies decides.
-/
import AndroidLint.FilePath
import AndroidLint.Project.Glob

namespace AndroidLint

namespace Project

/-- One line of a list. -/
structure IgnoreRule where
  pattern : List Glob.Part
  takesBack : Bool
  onlyFolders : Bool

/-- The rules of a folder, in order. -/
structure IgnoreRules where
  folder : String
  rules : List IgnoreRule

/-- What a list says about a path. -/
inductive Verdict where
  | leftOut
  | takenBack
deriving DecidableEq

namespace IgnoreRule

/-- What a line says: nothing, a rule, or what is no rule. -/
inductive Line where
  | blank
  | rule (r : IgnoreRule)
  | malformed

/-- A line without the blanks at its end, unless a backslash guards the
last. -/
def trimmed (line : String) : String :=
  if Text.endsWith line "\\ " then line else Text.trimEnd line

/-- A pattern as it is matched against a whole path: without a slash it
may begin in any folder, and what stands for everything below a folder
does not stand for the folder. -/
def completed (isAnchored : Bool) (pattern : String) : String :=
  let p :=
    if isAnchored || Text.contains pattern "/" || pattern == "**" then pattern
    else "**/" ++ pattern
  if Text.endsWith p "/**" then p ++ "/*" else p

/-- A pattern without the slash at its end and a backslash before that. -/
def withoutSlash (pattern : String) : String :=
  let p := (pattern.dropEnd 1).toString
  if Text.endsWith p "\\" then (p.dropEnd 1).toString else p

/-- What a line says; classes that are not closed are allowed if the list
is `lenient`. -/
def ofLine (lenient : Bool) (line : String) : Line :=
  let line := trimmed line
  if Text.startsWith line "#" || line.isEmpty then .blank
  else
    let isGuarded := Text.startsWith line "\\!" || Text.startsWith line "\\#"
    let takesBack := Text.startsWith line "!"
    let rest := if isGuarded || takesBack then (line.drop 1).toString else line
    let isAnchored := !isGuarded && Text.startsWith rest "/"
    let rest := if isAnchored then (rest.drop 1).toString else rest
    let onlyFolders := Text.endsWith rest "/"
    let rest := if onlyFolders then withoutSlash rest else rest
    match Glob.read? lenient (completed isAnchored rest) with
    | none => .malformed
    | some pattern => .rule ⟨pattern, takesBack, onlyFolders⟩

/-- The rule of a line, if it is one. -/
def Line.rule? : Line → Option IgnoreRule
  | .rule r => some r
  | _ => none

end IgnoreRule

/-- A path without a `./` in front. -/
def withoutDot (path : String) : String :=
  (Text.afterStart? path "./").getD path

namespace IgnoreRules

/-- The rules of a file that lies in a folder.  Lines that are no rules
are skipped; a byte order mark, and a carriage return at the end of a line,
do not count. -/
def ofText (folder : String) (text : String) : IgnoreRules :=
  let text := (Text.afterStart? text "\uFEFF").getD text
  ⟨withoutDot folder, (Text.splitAll '\n' text).filterMap fun line =>
    let line := if Text.endsWith line "\r" then (line.dropEnd 1).toString else line
    (IgnoreRule.ofLine true line).rule?⟩

/-- The path as seen from the folder of the rules. -/
def relative (l : IgnoreRules) (path : String) : String :=
  let path := withoutDot path
  if l.folder == "." || !Text.contains path "/" then path
  else match Text.afterStart? path l.folder with
    | none => path
    | some rest => (Text.afterStart? rest "/").getD rest

/-- What the rules say about a path. -/
def verdict? (l : IgnoreRules) (path : String) (isFolder : Bool) : Option Verdict :=
  let path := l.relative path
  (l.rules.reverse.find? fun r =>
    Glob.isMatch r.pattern path && (!r.onlyFolders || isFolder)).map fun r =>
      if r.takesBack then .takenBack else .leftOut

end IgnoreRules

/-- The excluded patterns of a project below `root`: what a pattern would
take back is left out. -/
def excludes (root : FilePath) : List String → Except String IgnoreRules
  | [] => .ok ⟨withoutDot root.text, []⟩
  | p :: ps =>
      match IgnoreRule.ofLine false ("!" ++ p) with
      | .malformed => .error p
      | line => (excludes root ps).map fun l => { l with rules := line.rule?.toList ++ l.rules }

/-- Whether a path is excluded. -/
def IgnoreRules.isExcluded (l : IgnoreRules) (path : String) (isFolder : Bool) : Bool :=
  l.verdict? path isFolder == some .takenBack

end Project

end AndroidLint
