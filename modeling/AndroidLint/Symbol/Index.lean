/-
Index — the types of a project and of the platform.

An index is built from all source files at once, in two rounds.  The first
announces every class, so that its name is known; the second reads the
classes and the packages one after the other, with the names that are known
by then.  Of two classes with one full name the later counts, and a class
of the project before a type of the platform.
-/
import AndroidLint.Symbol.Naming
import AndroidLint.Symbol.Platform
import AndroidLint.Symbol.Resolver
import AndroidLint.Code.Enclosing

namespace AndroidLint

namespace Symbol

open Code (SourceFile Scope Expr Call MemberReference ClassDecl ClassId)

/-- The types of a project, the annotations of its packages and the
facades of its packages, each with the package. -/
structure Index where
  types : TypeTable
  packages : List (String × Annotation)
  facades : List (String × String)

namespace Index

/-- The classes of a file that have names, with their ids. -/
def namedClasses (f : SourceFile) : List (ClassDecl × ClassId) :=
  f.classes.toList.zipIdx.filter (·.1.isNamed)

/-- The methods of a class as others see them. -/
def methodsOf (known : Known) (f : SourceFile) (c : ClassDecl) (id : ClassId) : List Method :=
  (f.methods.toList.filter (·.class? == some id)).map fun m =>
    { name := m.name
      returnType? := none
      annotations := annotationsBy (typeName? known f) m.annotations
      isAbstract := c.kind == .interface
      parameterCount? := some m.parameterCount }

/-- A class as others see it. -/
def symbol (known : Known) (f : SourceFile) (c : ClassDecl) (id : ClassId) : TypeSymbol :=
  { qualifiedName := c.qualifiedName
    kind := .ofClass c.kind
    superClass? := c.superClass?.bind (typeName? known f)
    interfaces := c.interfaces.filterMap (typeName? known f)
    annotations := annotationsBy (typeName? known f) c.annotations
    methods := methodsOf known f c id
    fileName? := some f.path.fileName }

/-- A class of which no more is known than its name and what it is. -/
def bare (c : ClassDecl) : TypeSymbol :=
  { qualifiedName := c.qualifiedName
    kind := .ofClass c.kind
    superClass? := none
    interfaces := []
    annotations := []
    methods := []
    fileName? := none }

/-- The annotations a file gives its package. -/
def packagesOf (known : Known) (f : SourceFile) : List (String × Annotation) :=
  match f.package? with
  | none => []
  | some package => (annotationsBy (typeName? known f) f.packageAnnotations).map (package, ·)

/-- A class of a file that says its package, if it is a facade. -/
def facadeOf (f : SourceFile) (c : ClassDecl) : List (String × String) :=
  match f.package?, c.kind with
  | some package, .facade => [(package, c.qualifiedName)]
  | _, _ => []

/-- The index of no files. -/
def ofPlatform : Index :=
  ⟨Platform.types, [], []⟩

/-- The index with one more type, which counts before what else has its
name. -/
def enter (x : Index) (t : TypeSymbol) : Index :=
  { x with types := t :: x.types }

/-- The index in which the name of a class is known; what was known by
that name stays. -/
def announce (x : Index) (c : ClassDecl × ClassId) : Index :=
  if x.types.knows c.1.qualifiedName then x else x.enter (bare c.1)

/-- The index in which the names of the classes of a file are known. -/
def announceFile (x : Index) (f : SourceFile) : Index :=
  (namedClasses f).foldl announce x

/-- The index with the annotations a file gives its package, read with the
names known so far. -/
def addPackage (x : Index) (f : SourceFile) : Index :=
  { x with packages := x.packages ++ packagesOf x.types.knows f }

/-- The index with a class of a file, read with the names known so far. -/
def addClass (f : SourceFile) (x : Index) (c : ClassDecl × ClassId) : Index :=
  { x.enter (symbol x.types.knows f c.1 c.2) with facades := x.facades ++ facadeOf f c.1 }

/-- The index with the package and the classes of a file. -/
def addFile (x : Index) (f : SourceFile) : Index :=
  (namedClasses f).foldl (addClass f) (x.addPackage f)

/-- The index of some files. -/
def build (files : List SourceFile) : Index :=
  files.foldl addFile (files.foldl announceFile ofPlatform)

/-- The number of known names. -/
def size (x : Index) : Nat :=
  (x.types.map (·.qualifiedName)).eraseDups.length

/-- The full name of a written type. -/
def typeName? (x : Index) (f : SourceFile) (written : String) : Option String :=
  Symbol.typeName? x.types.knows f written

/-- The annotations of a package. -/
def packageAnnotations (x : Index) (package : String) : List Annotation :=
  (x.packages.filter (·.1 == package)).map (·.2)

/-- The facades of a package. -/
def facadesIn (x : Index) (package : String) : List String :=
  (x.facades.filter (·.1 == package)).map (·.2)

/-- The type whose members can be called from inside a class without a
receiver: its own, or the one that an anonymous class was made from. -/
def scopeType? (x : Index) (f : SourceFile) (c : ClassDecl) : Option String :=
  match c.kind with
  | .anonymous => c.superClass?.bind (x.typeName? f)
  | _ => some c.qualifiedName

/-- The types whose members can be called from inside a class. -/
def scopeTypes (x : Index) (f : SourceFile) (c? : Option ClassId) : List String :=
  (f.enclosingClasses c?).filterMap (x.scopeType? f)

/-- The member that an import names. -/
def importedMember? (x : Index) (path : String) : Option Member :=
  (Text.beforeLast? '.' path).bind fun owner =>
    x.types.member? owner (Code.simpleName path)

/-- The member of a name on the first of some types that has one. -/
def memberAmong? (x : Index) (owners : List String) (name : String) : Option Member :=
  owners.findSome? (x.types.member? · name)

/-- The paths of the imports that make a name visible by spelling it
out. -/
def importsOf (f : SourceFile) (name : String) : List String :=
  (f.imports.toList.filter fun i => !i.isWildcard && i.visibleName == name).map (·.path)

/-- The member that a name without a receiver means: one that an import
spells out, one of a type imported with a star, one of the classes
around, or a function at the top level of the package. -/
def unqualified? (x : Index) (f : SourceFile) (name : String) (c? : Option ClassId) :
    Option Member :=
  ((importsOf f name).findSome? x.importedMember?).orElse fun _ =>
    (x.memberAmong? ((wildcards f).filter x.types.knows) name).orElse fun _ =>
      (x.memberAmong? (x.scopeTypes f c?) name).orElse fun _ =>
        x.memberAmong? (x.facadesIn (f.package?.getD "")) name

/-- The type of a string literal. -/
def stringType : Code.Language → String
  | .kotlin => "kotlin.String"
  | .java => "java.lang.String"

/-- The type that a name stands for or is declared to have. -/
def nameType? (x : Index) (f : SourceFile) (s : Scope) (name : String) : Option String :=
  match f.declaredType? s name with
  | some declared => x.typeName? f declared
  | none => if beginsWith Char.isUpper name then x.typeName? f name else none

mutual

/-- The type of an expression in a scope. -/
def typeOf? (x : Index) (f : SourceFile) (s : Scope) : Expr → Option String
  | .stringLiteral => some (stringType f.language)
  | .name name => x.nameType? f s name
  | .qualified path => (x.typeName? f path).filter x.types.knows
  | .call c => (x.call? f c).bind (·.returnType?)
  | .this | .literal | .other => none

/-- The member a call goes to. -/
def call? (x : Index) (f : SourceFile) : Call → Option Member
  | ⟨name, none, _, s, _⟩ => x.unqualified? f name s.class?
  | ⟨name, some .this, _, s, _⟩ => x.memberAmong? (x.scopeTypes f s.class?) name
  | ⟨name, some receiver, _, s, _⟩ =>
      (x.typeOf? f s receiver).bind (x.types.member? · name)

end

/-- The member a reference points at. -/
def reference? (x : Index) (f : SourceFile) (r : MemberReference) : Option Member :=
  match r.receiver? with
  | none | some .this => x.unqualified? f r.memberName r.scope.class?
  | some receiver => (x.typeOf? f r.scope receiver).bind (x.types.member? · r.memberName)

/-- The resolver that answers from an index. -/
def resolver (x : Index) : Resolver :=
  ⟨x.types, x.typeName?, x.typeOf?, x.call?, x.reference?, x.packageAnnotations⟩

section Resolver

variable (x : Index)

@[simp] theorem resolver_types : x.resolver.types = x.types := by
  rw [resolver]

@[simp] theorem resolver_typeName? : x.resolver.typeName? = x.typeName? := by
  rw [resolver]

@[simp] theorem resolver_typeOf? : x.resolver.typeOf? = x.typeOf? := by
  rw [resolver]

@[simp] theorem resolver_call? : x.resolver.call? = x.call? := by
  rw [resolver]

@[simp] theorem resolver_reference? : x.resolver.reference? = x.reference? := by
  rw [resolver]

@[simp] theorem resolver_packageAnnotations :
    x.resolver.packageAnnotations = x.packageAnnotations := by
  rw [resolver]

end Resolver

end Index

end Symbol

end AndroidLint
