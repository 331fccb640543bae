/-
Basic — what a rule is.

A rule looks at one node of a file at a time and gives at most one
finding for it.  Besides the node it may consult the file, the settings of
the project, a resolver for names and the presence of other files.  A rule
fails only on a node that no parsed file should hold.
-/
import AndroidLint.Finding
import AndroidLint.Resource
import AndroidLint.Markup.Document
import AndroidLint.Symbol.Resolver

namespace AndroidLint

open Code (SourceFile Import ClassDecl MethodDecl Call MemberReference Lambda)
open AndroidLint.Symbol (Resolver Member)

namespace Rule

/-- What a rule is about. -/
inductive Category where
  | correctness
  | interoperability

/-- The name of a category. -/
def Category.name : Category → String
  | correctness => "correctness"
  | interoperability => "interoperability"

/-- The description of a rule. -/
structure Info where
  id : String
  brief : String
  explanation : String
  category : Category
  severity : Severity
  onByDefault : Bool

/-- The priority of a rule, from 1 to 10. -/
def Info.priority (_ : Info) : Nat := 6

/-- The lines of an explanation, each but the first set in by four
spaces. -/
def lines (ls : List String) : String :=
  "\n    ".intercalate ls

/-- The settings that rules depend on. -/
structure Settings where
  minSdk : Nat
  javaOnly : String
  kotlinOnly : String
  projectRoot : FilePath

/-- The annotation for what only Java may use, unless set otherwise. -/
def defaultJavaOnly : String := "com.uber.lintchecks.recipes.guardrails.JavaOnly"

/-- The annotation for what only Kotlin may use, unless set otherwise. -/
def defaultKotlinOnly : String := "com.uber.lintchecks.recipes.guardrails.KotlinOnly"

/-- The settings of a project that sets none. -/
def Settings.default : Settings :=
  ⟨1, defaultJavaOnly, defaultKotlinOnly, ⟨"."⟩⟩

/-- The kinds of nodes. -/
inductive NodeKind where
  | file
  | imported
  | type
  | method
  | call
  | reference
  | lambda
  | element
  | attribute
deriving DecidableEq

/-- A node of a file.  An element is given by its index in its document,
an attribute together with the element that has it. -/
inductive Node where
  | file (f : SourceFile)
  | imported (i : Import)
  | type (c : ClassDecl)
  | method (m : MethodDecl)
  | call (c : Call)
  | reference (r : MemberReference)
  | lambda (l : Lambda)
  | element (d : Markup.Document) (index : Nat) (e : Markup.Element)
  | attribute (d : Markup.Document) (index : Nat) (a : Markup.Attribute)

namespace Node

/-- The kind of a node. -/
def kind : Node → NodeKind
  | .file _ => .file
  | .imported _ => .imported
  | .type _ => .type
  | .method _ => .method
  | .call _ => .call
  | .reference _ => .reference
  | .lambda _ => .lambda
  | .element .. => .element
  | .attribute .. => .attribute

/-- Where a node is. -/
def location : Node → Location
  | .file f => f.location
  | .imported i => i.location
  | .type c => c.location
  | .method m => m.location
  | .call c => c.location
  | .reference r => r.location
  | .lambda l => l.location
  | .element _ _ e => e.location
  | .attribute _ _ a => a.location

end Node

/-- The file that a node is checked in. -/
inductive Surroundings where
  | source (f : SourceFile)
  | resource (d : Markup.Document)

/-- What a rule may consult about a node. -/
structure Context where
  settings : Settings
  resolver : Resolver
  presence : Resource.Presence
  surroundings : Surroundings

namespace Context

/-- The source file around a node. -/
def source? (x : Context) : Option SourceFile :=
  match x.surroundings with
  | .source f => some f
  | .resource _ => none

/-- The path of the resource file around a node. -/
def resource? (x : Context) : Option FilePath :=
  match x.surroundings with
  | .source _ => none
  | .resource d => some d.path

/-- Whether the resource file around a node lies in a folder of a type. -/
def isIn (x : Context) (type : Resource.FolderType) : Bool :=
  match x.resource? with
  | some file => Resource.folderType? file == some type
  | none => false

/-- The member that a call in the file goes to. -/
def call? (x : Context) (c : Call) : Option Member :=
  x.source?.bind (x.resolver.call? · c)

end Context

/-- A node that a rule cannot judge. -/
structure Failure where
  rule : String
  message : String

/-- The wording of a failure. -/
def Failure.text (e : Failure) : String :=
  s!"{e.rule}: {e.message}"

/-- A judgement: a failure, nothing, or a finding. -/
abbrev Verdict := Except Failure (Option Finding)

/-- The verdict that there is nothing to report. -/
def pass : Verdict := .ok none

namespace Info

/-- A finding of a rule at a place. -/
def finding (r : Info) (location : Location) (message : String) (fix : Option Fix) : Finding :=
  ⟨r.id, r.severity, location, message, fix⟩

/-- Reports a place with a fixed message, if the condition holds. -/
def reportIf (r : Info) (fires : Bool) (location : Location) (message : String)
    (fix : Option Fix) : Verdict :=
  .ok (if fires then some (r.finding location message fix) else none)

end Info

end Rule

/-- A rule: its description, the kinds of nodes it asks for, and its
judgement of a node. -/
structure Rule where
  info : Rule.Info
  kinds : List Rule.NodeKind
  judge : Rule.Context → Rule.Node → Rule.Verdict

namespace Rule

/-- The id of a rule. -/
def id (r : Rule) : String :=
  r.info.id

/-- Whether a rule asks for nodes of a kind. -/
def asksFor (r : Rule) (k : NodeKind) : Bool :=
  r.kinds.contains k

end Rule

end AndroidLint
