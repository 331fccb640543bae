/-
Parse — from the text of a file to the file that rules see.
-/
import AndroidLint.Analysis.Dispatch
import AndroidLint.Code.Reader
import AndroidLint.Markup.Reader

namespace AndroidLint

namespace ParsedFile

/-- The file of a kind that a text holds; only markup can be malformed. -/
def read (kind : FileKind) (path : FilePath) (text : String) :
    Except Markup.Malformed ParsedFile :=
  match kind with
  | .kotlin => .ok (.source (Code.Language.kotlin.read path text))
  | .java => .ok (.source (Code.Language.java.read path text))
  | _ => (Markup.read path text).map .resource

/-- The kind that a path's extension gives, markup if it gives none. -/
def kindOf (path : FilePath) : FileKind :=
  match path.extension? with
  | some "kt" => .kotlin
  | some "java" => .java
  | _ => .resource

end ParsedFile

end AndroidLint
