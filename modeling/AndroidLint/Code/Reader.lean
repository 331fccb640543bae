/-
Reader — from the text of a Kotlin or Java file to what it holds.
-/
import AndroidLint.Code.Java
import AndroidLint.Code.Kotlin
import AndroidLint.Syntax.JavaGrammar
import AndroidLint.Syntax.KotlinGrammar

namespace AndroidLint

namespace Code

/-- The grammar of a language. -/
def Language.grammar : Language → Syntax.Grammar
  | .kotlin => Syntax.Kotlin.grammar
  | .java => Syntax.Java.grammar

/-- The source file that the tree of a text holds. -/
def SourceFile.ofTree (l : Language) (o : Origin) (t : Syntax.Tree) : SourceFile :=
  match l with
  | .kotlin => Kotlin.ofTree o t
  | .java => Java.ofTree o t

/-- The source file that a text holds; one that is no file of its language
holds nothing. -/
def Language.read (l : Language) (path : FilePath) (text : String) : SourceFile :=
  let o : Origin := ⟨path, text.toList⟩
  match l.grammar.parse? o.text with
  | some t => .ofTree l o t
  | none => .empty path l

end Code

end AndroidLint
