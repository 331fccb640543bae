/-
Resolver — what a rule may ask about names.

A resolver answers from a finite table of types and from what it knows of
the files.  An answer of `none` means that nothing is known, and rules
take it as "does not apply".
-/
import AndroidLint.Symbol.Walk

namespace AndroidLint

namespace Symbol

open Code (SourceFile Scope Expr Call MemberReference ClassDecl MethodDecl)

/-- What a rule may ask about names. -/
structure Resolver where
  types : TypeTable
  /-- The full name of a type written in a file. -/
  typeName? : SourceFile → String → Option String
  /-- The type of an expression in a scope. -/
  typeOf? : SourceFile → Scope → Expr → Option String
  /-- The member a call goes to. -/
  call? : SourceFile → Call → Option Member
  /-- The member a reference points at. -/
  reference? : SourceFile → MemberReference → Option Member
  /-- The annotations of a package. -/
  packageAnnotations : String → List Annotation

/-- Annotations by their full names as far as `name?` gives them. -/
def annotationsBy (name? : String → Option String) (as : List Code.Annotation) :
    List Annotation :=
  as.map fun a => ⟨(name? a.name).getD a.name, a.value?⟩

namespace Resolver

/-- The annotations written in a file. -/
def annotations (r : Resolver) (f : SourceFile) (as : List Code.Annotation) : List Annotation :=
  annotationsBy (r.typeName? f) as

/-- The types a class extends, as far as their names are understood. -/
def superTypes (r : Resolver) (f : SourceFile) (c : ClassDecl) : List String :=
  c.superTypes.filterMap (r.typeName? f)

/-- Whether a method can override another at all: in Kotlin it has to say
so. -/
def mayOverride (f : SourceFile) (m : MethodDecl) : Bool :=
  f.language != .kotlin || m.isOverride

/-- The first method on the walk from a type that `m` could override. -/
def overriddenFrom? (r : Resolver) (m : MethodDecl) (start : String) : Option Member :=
  (r.types.walk start).findSome? fun t => (t.methods.find? (·.accepts m)).map t.member

/-- The method that `m` overrides, looked for above each type that its
class extends in turn. -/
def superMember? (r : Resolver) (f : SourceFile) (m : MethodDecl) : Option Member :=
  if mayOverride f m then
    ((m.class?.bind f.class?).map (r.superTypes f)).bind (·.findSome? (r.overriddenFrom? m))
  else none

end Resolver

end Symbol

end AndroidLint
