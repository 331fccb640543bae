/-
Conventions — the rules about the library of an older Java and about the
names of directories.
-/
import AndroidLint.Rule.Basic

namespace AndroidLint

namespace Rule

open Code (SourceFile)

/-! ## The library of Java 8 -/

/-- The explanation of `UnsupportedJava8Api`. -/
def newerExplanation : String :=
  lines [
    "Cannot import and use classes from the Java 8 APIs that are",
    "unsupported by Android. If this code will never run on Android and you want to use these APIs,",
    "exclude its module from this check."]

/-- What is said about a lambda in an interface. -/
def lambdaExplanation : String :=
  lines [
    "We do not yet support lambdas within interfaces for",
    "Android code.  If this code will never run on Android,",
    "exclude its module from this check."]

/-- The description of `UnsupportedJava8Api`. -/
def newerInfo : Info :=
  { id := "UnsupportedJava8Api"
    brief := "Don't import stream, time, or file packages from Java 8 when using Retrolambda"
    explanation := newerExplanation
    category := .correctness
    severity := .error
    onByDefault := true }

/-- The types and packages that must not be imported, nor anything in
them. -/
def newerImports : List String :=
  ["java.lang.FunctionalInterface", "java.nio.file.Files", "java.time", "java.util.Objects",
    "java.util.function", "java.util.stream"]

/-- The members that older platforms lack, by the types that declare
them. -/
def newerMembers : List (String × List String) :=
  [("java.lang.Iterable", ["forEach", "spliterator"]),
   ("java.util.Collection", ["removeIf", "stream", "parallelStream"]),
   ("java.util.List", ["sort", "replaceAll"]),
   ("java.util.Map",
     ["getOrDefault", "forEach", "replaceAll", "putIfAbsent", "computeIfAbsent",
      "computeIfPresent", "compute", "merge"])]

/-- Whether a path is one of the packages or types, or lies in one. -/
def isNewerImport (path : String) : Bool :=
  newerImports.any fun p => path == p || Text.startsWith path (p ++ ".")

/-- Whether a name is that of a member that older platforms lack. -/
def isNewerName (name : String) : Bool :=
  newerMembers.any fun (_, names) => names.contains name

/-- Whether a member is one that older platforms lack. -/
def isNewerMember (m : Symbol.Member) : Bool :=
  newerMembers.any fun (owner, names) => owner == m.declaringType && names.contains m.name

/-- Whether a call goes to a member that older platforms lack. -/
def callsNewerMember (x : Context) (c : Code.Call) : Bool :=
  isNewerName c.methodName && (x.call? c).any isNewerMember

/-- The complaint about a lambda outside every class. -/
def strayLambda (l : Code.Lambda) : Failure :=
  ⟨newerInfo.id,
    s!"lambda at {l.location.file.text}:{l.location.line} has no enclosing class"⟩

/-- The judgement of a lambda: it must not lie in an interface, and it has
to lie in a class. -/
def judgeLambda (f : SourceFile) (l : Code.Lambda) : Verdict :=
  match l.scope.class?.bind f.class? with
  | none => .error (strayLambda l)
  | some c =>
      newerInfo.reportIf (c.kind == .interface) l.location (Text.oneLine lambdaExplanation) none

/-- Code for older platforms keeps to the library they have. -/
def unsupportedJava8Api : Rule :=
  { info := newerInfo
    kinds := [.imported, .call, .lambda]
    judge := fun x n =>
      match n, x.source? with
      | .imported i, _ =>
          newerInfo.reportIf (isNewerImport i.path) i.location (Text.oneLine newerExplanation) none
      | .call c, _ => newerInfo.reportIf (callsNewerMember x c) c.location newerInfo.brief none
      | .lambda l, some f => judgeLambda f l
      | _, _ => pass }

/-! ## Names of directories -/

/-- What `PackageNameDetector` says. -/
def packageExplanation : String :=
  "A package name/file name of a class has a period in it. This is not allowed, as it breaks "
    ++ "tools that map directories to package names."

/-- The description of `PackageNameDetector`. -/
def packageInfo : Info :=
  { id := "PackageNameDetector"
    brief := "Package name/file name has a period in it"
    explanation := packageExplanation
    category := .correctness
    severity := .error
    onByDefault := true }

/-- A text without the places where it says `../`. -/
def withoutHops : List Char → List Char
  | '.' :: '.' :: '/' :: r => withoutHops r
  | c :: r => c :: withoutHops r
  | [] => []

/-- A path as seen from a root that it lies below, with slashes leaning
one way. -/
def relativeText (root path : FilePath) : List Char :=
  withoutHops (((path.below? root).getD path).text.toList.map fun c => if c = '\\' then '/' else c)

/-- Whether a path holds more periods than the one of its extension. -/
def hasStrayPeriod (root path : FilePath) : Bool :=
  1 < (relativeText root path).count '.'

/-- Directories and files have no period in their names. -/
def packageName : Rule :=
  { info := packageInfo
    kinds := [.file]
    judge := fun x n =>
      match n with
      | .file f =>
          packageInfo.reportIf (hasStrayPeriod x.settings.projectRoot f.path) f.location
            packageExplanation none
      | _ => pass }

end Rule

end AndroidLint
