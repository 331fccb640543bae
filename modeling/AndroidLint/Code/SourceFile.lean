/-
SourceFile — what the rules see of a Kotlin or Java file.

A source file is a package, imports and flat lists of its classes,
methods, calls, member references and lambdas.  A class or method is
referred to by its position in its list; every other node says which class
and which method it lies in.  Types are kept as written.
-/
import AndroidLint.Location

namespace AndroidLint

namespace Code

/-- The languages of source files. -/
inductive Language where
  | kotlin
  | java
deriving DecidableEq, Inhabited

/-- The position of a class in its file. -/
abbrev ClassId := Nat

/-- The position of a method in its file. -/
abbrev MethodId := Nat

/-- The innermost class and method around a node. -/
structure Scope where
  class? : Option ClassId
  method? : Option MethodId
deriving DecidableEq, Inhabited

namespace Scope

/-- Outside every class and method. -/
def file : Scope :=
  ⟨none, none⟩

/-- In a class, outside its methods. -/
def ofClass (c : ClassId) : Scope :=
  ⟨some c, none⟩

/-- The scope of a method that lies in `s`. -/
def inMethod (s : Scope) (m : MethodId) : Scope :=
  { s with method? := some m }

end Scope

/-- What stands after the last dot of a name. -/
def simpleName (name : String) : String :=
  Text.afterLast '.' name

/-- An annotation as written; its value when that is a string literal. -/
structure Annotation where
  name : String
  value? : Option String
deriving DecidableEq, Inhabited

/-- The last segment of an annotation's name. -/
def Annotation.simpleName (a : Annotation) : String :=
  Code.simpleName a.name

/-- One import: its path without `static` and without the star. -/
structure Import where
  path : String
  alias? : Option String
  isWildcard : Bool
  isStatic : Bool
  location : Location
deriving Inhabited

/-- The name that an import makes visible in its file. -/
def Import.visibleName (i : Import) : String :=
  i.alias?.getD (simpleName i.path)

/-- What a class is.  A facade stands for the declarations at the top
level of a Kotlin file. -/
inductive ClassKind where
  | plain
  | interface
  | enum
  | marker
  | object
  | anonymous
  | facade
deriving DecidableEq, Inhabited

/-- A class with the types it extends as written; for an anonymous class
these are the types it was made from. -/
structure ClassDecl where
  name : String
  qualifiedName : String
  kind : ClassKind
  superClass? : Option String
  interfaces : List String
  annotations : List Annotation
  scope : Scope
  inReturnPosition : Bool
  text : String
  location : Location
deriving Inhabited

namespace ClassDecl

/-- The types a class extends, the super class first. -/
def superTypes (c : ClassDecl) : List String :=
  c.superClass?.toList ++ c.interfaces

/-- Whether a class has a name of its own. -/
def isNamed (c : ClassDecl) : Bool :=
  c.kind != .anonymous

end ClassDecl

/-- A method with the text of its modifiers. -/
structure MethodDecl where
  name : String
  class? : Option ClassId
  annotations : List Annotation
  modifiers : String
  parameterCount : Nat
  location : Location
deriving Inhabited

/-- Whether a method says that it overrides another. -/
def MethodDecl.isOverride (m : MethodDecl) : Bool :=
  (Text.words m.modifiers).contains "override"

mutual

/-- The expressions that are told apart. -/
inductive Expr where
  /-- A variable, a parameter or a type's name. -/
  | name (name : String)
  /-- A dotted path. -/
  | qualified (path : String)
  | stringLiteral
  /-- A number, a truth value or null. -/
  | literal
  | this
  | call (call : Call)
  | other

/-- A call of a method. -/
structure Call where
  methodName : String
  receiver? : Option Expr
  arguments : List Expr
  scope : Scope
  location : Location

end

instance : Inhabited Expr := ⟨.other⟩

instance : Inhabited Call := ⟨⟨"", none, [], .file, default⟩⟩

/-- A member named without calling it. -/
structure MemberReference where
  receiver? : Option Expr
  memberName : String
  scope : Scope
  location : Location

/-- A lambda with the type it is turned into, as far as its file tells. -/
structure Lambda where
  scope : Scope
  functionalInterface? : Option String
  inReturnPosition : Bool
  location : Location
deriving Inhabited

/-- What declares a name: a method, a class or the file. -/
inductive Owner where
  | method (m : MethodId)
  | type (c : ClassId)
  | file
deriving DecidableEq

/-- The innermost owner of a scope. -/
def Scope.owner : Scope → Owner
  | ⟨_, some m⟩ => .method m
  | ⟨some c, none⟩ => .type c
  | ⟨none, none⟩ => .file

/-- A name with the type it is declared to have, as written. -/
structure Declaration where
  owner : Owner
  name : String
  type : String

/-- One parsed Kotlin or Java file. -/
structure SourceFile where
  path : FilePath
  language : Language
  package? : Option String
  packageAnnotations : List Annotation
  imports : Array Import
  classes : Array ClassDecl
  methods : Array MethodDecl
  calls : Array Call
  references : Array MemberReference
  lambdas : Array Lambda
  declarations : Array Declaration

namespace SourceFile

/-- A file in which nothing is declared. -/
def empty (path : FilePath) (language : Language) : SourceFile :=
  ⟨path, language, none, [], #[], #[], #[], #[], #[], #[], #[]⟩

/-- The place of the file itself. -/
def location (f : SourceFile) : Location :=
  .top f.path

/-- The class with an id. -/
def class? (f : SourceFile) (c : ClassId) : Option ClassDecl :=
  f.classes[c]?

/-- The method with an id. -/
def method? (f : SourceFile) (m : MethodId) : Option MethodDecl :=
  f.methods[m]?

/-- A name as seen from outside the file's package. -/
def qualify (f : SourceFile) (name : String) : String :=
  match f.package? with
  | none | some "" => name
  | some package => package ++ "." ++ name

/-- The file with one more class, whose id is the number of classes so
far. -/
def addClass (f : SourceFile) (c : ClassDecl) : SourceFile :=
  { f with classes := f.classes.push c }

/-- The file with one more method, whose id is the number of methods so
far. -/
def addMethod (f : SourceFile) (m : MethodDecl) : SourceFile :=
  { f with methods := f.methods.push m }

/-- The file with a name declared in the innermost owner of a scope. -/
def declare (f : SourceFile) (s : Scope) (name type : String) : SourceFile :=
  { f with declarations := f.declarations.push ⟨s.owner, name, type⟩ }

end SourceFile

end Code

end AndroidLint
