/-
Naming — the full names of types written in a source file.

A name is looked up the way a reader would: imports that spell it out,
classes of the file, the file's package, imports with a star, and the
packages that a language opens by itself.  All that is asked of other
files is which full names are known.
-/
import AndroidLint.Code.SourceFile

namespace AndroidLint

namespace Symbol

open Code (SourceFile Import Language)

/-- Tells whether a full name is that of a known type. -/
def Known : Type :=
  String → Bool

/-- Whether a character ends the name in a written type: what follows are
type arguments, a question mark, brackets or a blank. -/
def endsName (c : Char) : Bool :=
  c == '<' || c == '?' || c == '[' || Text.isBlank c

/-- A written type without arguments, nullability and dimensions. -/
def erase (written : String) : String :=
  String.ofList ((Text.trim written).toList.takeWhile (!endsName ·))

/-- The packages whose types are seen without an import, in the order in
which they are searched. -/
def openPackages : Language → List String
  | .kotlin => ["kotlin", "kotlin.collections", "kotlin.text", "java.lang"]
  | .java => ["java.lang"]

/-- A name inside a package or a type. -/
def within (outer name : String) : String :=
  outer ++ "." ++ name

/-- The import that spells a name out. -/
def importOf? (f : SourceFile) (name : String) : Option String :=
  (f.imports.toList.find? fun i => !i.isWildcard && i.visibleName == name).map (·.path)

/-- The class of the file with a name. -/
def classOf? (f : SourceFile) (name : String) : Option String :=
  (f.classes.toList.find? fun c => c.isNamed && c.name == name).map (·.qualifiedName)

/-- The paths of the imports with a star. -/
def wildcards (f : SourceFile) : List String :=
  (f.imports.toList.filter (·.isWildcard)).map (·.path)

/-- Where a name without dots may be known from, in order. -/
def candidates (f : SourceFile) (name : String) : List String :=
  f.qualify name :: (wildcards f ++ openPackages f.language).map (within · name)

/-- The full name of a name without dots. -/
def simpleTypeName? (known : Known) (f : SourceFile) (name : String) : Option String :=
  if name.isEmpty then none
  else
    (importOf? f name).orElse fun _ =>
      (classOf? f name).orElse fun _ => (candidates f name).find? known

/-- Whether a text begins with a character that satisfies `p`. -/
def beginsWith (p : Char → Bool) (s : String) : Bool :=
  s.toList.head?.any p

/-- The full name of a dotted name: itself if it is known, a type inside
the one its head names, or itself if its head can be a package. -/
def dottedTypeName? (known : Known) (f : SourceFile) (head rest : String) : Option String :=
  let name := within head rest
  let nested := (simpleTypeName? known f head).map (within · rest)
  if known name then some name
  else if nested.any known then nested
  else if beginsWith Char.isLower head then some name
  else none

/-- The full name of a written type. -/
def typeName? (known : Known) (f : SourceFile) (written : String) : Option String :=
  let name := erase written
  match Text.splitFirst? '.' name with
  | some (head, rest) => dottedTypeName? known f head rest
  | none => simpleTypeName? known f name

end Symbol

end AndroidLint
