/-
Boundary — the rule for what only one language may use.

An annotation restricts a class, a method or a package to Java, another
one to Kotlin.  In Kotlin files, what is restricted to Java must not be
called, referred to or written as a lambda or an object, and what extends
or overrides something restricted says so itself.  A class or a method
that carries both annotations is reported, and one that carries either is
left alone.
-/
import AndroidLint.Rule.Basic

namespace AndroidLint

namespace Rule

open Code (SourceFile ClassDecl MethodDecl Lambda simpleName)
open AndroidLint.Symbol (Resolver Member TypeSymbol carried?)

namespace Boundary

/-- The description of `JavaOnlyDetector`. -/
def info : Info :=
  { id := "JavaOnlyDetector"
    brief := "Using @JavaOnly elements in Kotlin code."
    explanation := "This should not be called from Kotlin code"
    category := .interoperability
    severity := .error
    onByDefault := true }

/-! ## Messages -/

/-- What is said of a method, with the reason if one is given. -/
def restrictionMessage (what reason : String) : String :=
  if (Text.trim reason).isEmpty then
    s!"This method should not be {what}, see its documentation for details."
  else s!"This method should not be {what}: {reason}"

/-- What is said of something that carries both annotations. -/
def bothMessage (s : Settings) (what : String) : String :=
  s!"Cannot annotate {what} with both @{simpleName s.kotlinOnly} and @{simpleName s.javaOnly}"

/-- The name of the file that declares a type. -/
def fileOf (t : TypeSymbol) : String :=
  t.fileName?.getD "unknown file"

/-- What is said of an object or a lambda of a restricted type. -/
def instanceMessage (s : Settings) (kind : String) (t : TypeSymbol) : String :=
  s!"Cannot create {kind} instances of @{simpleName s.javaOnly}-annotated type {t.simpleName} "
    ++ s!"(in {fileOf t}) in Kotlin. Make a concrete class instead."

/-- What is said of a class that extends a restricted type. -/
def subtypeMessage (target : String) (t : TypeSymbol) : String :=
  s!"Type subclasses/implements {t.simpleName} in {fileOf t} which is annotated "
    ++ s!"@{simpleName target}, it should also be annotated."

/-- What is said of a function that overrides a restricted method. -/
def overrideMessage (target : String) (m : Member) : String :=
  s!"Function overrides {m.name} in {simpleName m.declaringType} which is annotated "
    ++ s!"@{simpleName target}, it should also be annotated."

/-- Puts an annotation in front of a text. -/
def annotateFix (target old new : String) : Fix :=
  .replaceText s!"Add @{simpleName target}" old new

/-! ## Restrictions -/

/-- The reason an annotation gives, empty if it gives none. -/
def reasonOf (a : Symbol.Annotation) : String :=
  a.value?.getD ""

/-- The reason of the first annotation of a name. -/
def reason? (annotations : List Symbol.Annotation) (name : String) : Option String :=
  (carried? annotations name).map reasonOf

/-- The names around a dotted name, the innermost first; the name is given
last character first. -/
def namesAround : List Char → List String
  | [] => []
  | '.' :: r => String.ofList r.reverse :: namesAround r
  | _ :: r => namesAround r

/-- The package of a type: the innermost name around it that is no type. -/
def packageOf? (r : Resolver) (type : String) : Option String :=
  (namesAround type.toList.reverse).find? fun name => !r.types.knows name

/-- Why a package is restricted to Java. -/
def packageRestriction? (x : Context) (package : String) : Option String :=
  reason? (x.resolver.packageAnnotations package) x.settings.javaOnly

/-- Why a member is restricted to Java: by itself, its type or its
package. -/
def memberRestriction? (x : Context) (m : Member) : Option String :=
  (reason? m.annotations x.settings.javaOnly).orElse fun _ =>
    ((x.resolver.types.find? m.declaringType).bind
        fun t => reason? t.annotations x.settings.javaOnly).orElse fun _ =>
      (packageOf? x.resolver m.declaringType).bind (packageRestriction? x)

/-- Why a method of the file is restricted to Java: by itself, its class
or the file's package. -/
def methodRestriction? (x : Context) (f : SourceFile) (m : MethodDecl) : Option String :=
  (reason? (x.resolver.annotations f m.annotations) x.settings.javaOnly).orElse fun _ =>
    ((m.class?.bind f.class?).bind fun c =>
        reason? (x.resolver.annotations f c.annotations) x.settings.javaOnly).orElse fun _ =>
      packageRestriction? x (f.package?.getD "")

/-- Whether something is returned from a method that is restricted to
Java. -/
def isReturnedToJava (x : Context) (f : SourceFile) (inReturnPosition : Bool)
    (method? : Option Code.MethodId) : Bool :=
  inReturnPosition && ((method?.bind f.method?).bind (methodRestriction? x f)).isSome

/-- The type that a written name means, if it is known. -/
def knownType? (x : Context) (f : SourceFile) (written? : Option String) : Option TypeSymbol :=
  (written?.bind (x.resolver.typeName? f)).bind x.resolver.types.find?

/-! ## Judgements -/

/-- The annotations that are passed on, in the order of the search. -/
def inherited (s : Settings) : List String :=
  [s.kotlinOnly, s.javaOnly]

/-- Which of the two annotations something carries. -/
structure Marks where
  javaOnly : Bool
  kotlinOnly : Bool

/-- The marks that annotations of the file amount to. -/
def marks (x : Context) (f : SourceFile) (annotations : List Code.Annotation) : Marks :=
  let own := x.resolver.annotations f annotations
  ⟨(carried? own x.settings.javaOnly).isSome, (carried? own x.settings.kotlinOnly).isSome⟩

/-- Judges something by its marks, and by `unmarked` if it has none. -/
def judgeMarks (x : Context) (location : Location) (what : String) (unmarked : Option Finding) :
    Marks → Option Finding
  | ⟨true, true⟩ => some (info.finding location (bothMessage x.settings what) none)
  | ⟨false, false⟩ => unmarked
  | _ => none

/-- An object must not be of a type that is restricted to Java. -/
def judgeAnonymous (x : Context) (f : SourceFile) (c : ClassDecl) : Option Finding :=
  if isReturnedToJava x f c.inReturnPosition c.scope.method? then none
  else
    (knownType? x f c.superClass?).bind fun base =>
      (carried? base.annotations x.settings.javaOnly).map fun _ =>
        info.finding c.location (instanceMessage x.settings "anonymous" base) none

/-- A class repeats the annotations of the types it extends. -/
def judgeSubtype (x : Context) (f : SourceFile) (c : ClassDecl) : Option Finding :=
  let above := (x.resolver.superTypes f c).filterMap x.resolver.types.find?
  (inherited x.settings).findSome? fun target =>
    (above.find? fun t => (carried? t.annotations target).isSome).map fun t =>
      info.finding c.location (subtypeMessage target t)
        (some (annotateFix target c.text s!"@{target} {c.text}"))

/-- The judgement of a class. -/
def judgeClass (x : Context) (f : SourceFile) (c : ClassDecl) : Option Finding :=
  judgeMarks x c.location "types"
    (if c.isNamed then judgeSubtype x f c else judgeAnonymous x f c)
    (marks x f c.annotations)

/-- A function repeats the annotations of the method it overrides. -/
def judgeOverride (x : Context) (f : SourceFile) (m : MethodDecl) : Option Finding :=
  (x.resolver.superMember? f m).bind fun overridden =>
    ((inherited x.settings).find? fun t => (carried? overridden.annotations t).isSome).map
      fun target =>
        info.finding m.location (overrideMessage target overridden)
          (some (annotateFix target m.modifiers (Text.trimEnd s!"@{target} {m.modifiers}")))

/-- The judgement of a method. -/
def judgeMethod (x : Context) (f : SourceFile) (m : MethodDecl) : Option Finding :=
  judgeMarks x m.location "functions" (judgeOverride x f m) (marks x f m.annotations)

/-- A lambda must not stand for a type or a method that is restricted to
Java; the first method of the type is the one it stands for. -/
def judgeInterface (x : Context) (location : Location) (t : TypeSymbol) : Option Finding :=
  match carried? t.annotations x.settings.javaOnly with
  | some _ => some (info.finding location (instanceMessage x.settings "lambda" t) none)
  | none =>
      (t.methods.head?.bind fun m => memberRestriction? x (t.member m)).map fun reason =>
        info.finding location (restrictionMessage "expressed as a lambda in Kotlin" reason) none

/-- The judgement of a lambda. -/
def judgeLambda (x : Context) (f : SourceFile) (l : Lambda) : Option Finding :=
  if isReturnedToJava x f l.inReturnPosition l.scope.method? then none
  else (knownType? x f l.functionalInterface?).bind (judgeInterface x l.location)

/-- The judgement of a use of a member. -/
def judgeUse (x : Context) (location : Location) (m? : Option Member) : Option Finding :=
  (m?.bind (memberRestriction? x)).map fun reason =>
    info.finding location (restrictionMessage "called from Kotlin" reason) none

/-- The judgement of a node of a Kotlin file. -/
def judgeNode (x : Context) (f : SourceFile) : Node → Option Finding
  | .type c => judgeClass x f c
  | .method m => judgeMethod x f m
  | .lambda l => judgeLambda x f l
  | .call c => judgeUse x c.location (x.resolver.call? f c)
  | .reference r => judgeUse x r.location (x.resolver.reference? f r)
  | _ => none

end Boundary

/-- What is restricted to Java stays out of Kotlin. -/
def languageBoundary : Rule :=
  { info := Boundary.info
    kinds := [.type, .method, .call, .reference, .lambda]
    judge := fun x n =>
      match x.source? with
      | some f => .ok (if f.language = .kotlin then Boundary.judgeNode x f n else none)
      | none => pass }

end Rule

end AndroidLint
