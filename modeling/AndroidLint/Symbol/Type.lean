/-
Type — types and their members by their full names.

A table of types is a list in which the first entry of a name counts.
-/
import AndroidLint.Code.SourceFile

namespace AndroidLint

namespace Symbol

/-- What a known type is. -/
inductive TypeKind where
  | plain
  | interface
  | enum
  | marker
  | object
deriving DecidableEq

/-- What a class of a source file is to others. -/
def TypeKind.ofClass : Code.ClassKind → TypeKind
  | .interface => interface
  | .enum => enum
  | .marker => marker
  | .object => object
  | .plain | .anonymous | .facade => plain

/-- An annotation by its full name. -/
structure Annotation where
  qualifiedName : String
  value? : Option String
deriving DecidableEq

/-- A method of a known type.  The number of its parameters is not known
for types of the platform. -/
structure Method where
  name : String
  returnType? : Option String
  annotations : List Annotation
  isAbstract : Bool
  parameterCount? : Option Nat

/-- Whether a method could be overridden by another. -/
def Method.accepts (m : Method) (overriding : Code.MethodDecl) : Bool :=
  m.name == overriding.name
    && (match m.parameterCount? with
        | none => true
        | some n => n == overriding.parameterCount)

/-- A known type with the full names of what it extends. -/
structure TypeSymbol where
  qualifiedName : String
  kind : TypeKind
  superClass? : Option String
  interfaces : List String
  annotations : List Annotation
  methods : List Method
  fileName? : Option String

namespace TypeSymbol

/-- What stands after the last dot of the name. -/
def simpleName (t : TypeSymbol) : String :=
  Code.simpleName t.qualifiedName

/-- What stands before the last dot of the name. -/
def package? (t : TypeSymbol) : Option String :=
  Text.beforeLast? '.' t.qualifiedName

/-- The first method of a name. -/
def method? (t : TypeSymbol) (name : String) : Option Method :=
  t.methods.find? (·.name == name)

/-- The types it extends, the super class first. -/
def superTypes (t : TypeSymbol) : List String :=
  t.superClass?.toList ++ t.interfaces

end TypeSymbol

/-- A member and the type that declares it. -/
structure Member where
  declaringType : String
  name : String
  annotations : List Annotation
  returnType? : Option String

/-- A method as a member of its type. -/
def TypeSymbol.member (t : TypeSymbol) (m : Method) : Member :=
  ⟨t.qualifiedName, m.name, m.annotations, m.returnType?⟩

/-- The first annotation of a full name. -/
def carried? (annotations : List Annotation) (qualifiedName : String) : Option Annotation :=
  annotations.find? (·.qualifiedName == qualifiedName)

/-- A table of types. -/
abbrev TypeTable := List TypeSymbol

namespace TypeTable

/-- The type of a name. -/
def find? (table : TypeTable) (name : String) : Option TypeSymbol :=
  List.find? (·.qualifiedName == name) table

/-- Whether a name is known. -/
def knows (table : TypeTable) (name : String) : Bool :=
  (table.find? name).isSome

end TypeTable

end Symbol

end AndroidLint
