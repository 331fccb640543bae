/-
Basic — what a project sets.

A configuration says which files belong to the project, which rules are
active, and what the rules depend on.  It is sound if the names of the two
annotations are qualified and differ and the lowest level of the platform
is none below the first.
-/
import AndroidLint.Analysis.Catalog
import AndroidLint.Project.Discovery

namespace AndroidLint

/-- The settings of a project. -/
structure Configuration where
  scope : Project.Scope
  minSdk? : Option Nat
  selection : Selection
  javaOnly : String
  kotlinOnly : String
  /-- Whether files may be checked at the same time. -/
  isParallel : Bool

namespace Configuration

/-- The settings of a project that sets none. -/
def default : Configuration :=
  { scope := ⟨[], ["**/build/**", "**/.gradle/**"], true⟩
    minSdk? := none
    selection := .none
    javaOnly := Rule.defaultJavaOnly
    kotlinOnly := Rule.defaultKotlinOnly
    isParallel := true }

/-- What is wrong with a configuration. -/
inductive Unsound where
  | unqualified (setting value : String)
  | sameMarks
  | minSdkBelowFirst

/-- What is said about a configuration that is not sound. -/
def Unsound.message (u : Unsound) : String :=
  "Invalid configuration: " ++
    match u with
    | unqualified setting value =>
        s!"{setting} must be a fully-qualified annotation name, got '{value}'"
    | sameMarks => "java_only_annotation and kotlin_only_annotation must differ"
    | minSdkBelowFirst => "min_sdk must be at least 1"

/-- Whether a name has a dot that is neither its first nor its last
character, and none there. -/
def isQualified (name : String) : Bool :=
  Text.contains name "." && !Text.startsWith name "." && !Text.endsWith name "."

/-- The first thing that is wrong with a configuration. -/
def unsound? (c : Configuration) : Option Unsound :=
  if !isQualified c.javaOnly then some (.unqualified "java_only_annotation" c.javaOnly)
  else if !isQualified c.kotlinOnly then some (.unqualified "kotlin_only_annotation" c.kotlinOnly)
  else if c.javaOnly == c.kotlinOnly then some .sameMarks
  else if c.minSdk? == some 0 then some .minSdkBelowFirst
  else none

/-- The rules that a configuration activates. -/
def catalog (c : Configuration) : Catalog :=
  .ofSelection c.selection

/-- What rules depend on, for a project at a root with a lowest level. -/
def ruleSettings (c : Configuration) (root : FilePath) (minSdk : Nat) : Rule.Settings :=
  ⟨minSdk, c.javaOnly, c.kotlinOnly, root⟩

end Configuration

end AndroidLint
