/-
Dispatch — the findings of a catalog in parsed files.

A file is checked on its own.  Its nodes are taken in order, each is given
to the active rules that ask for its kind, and what they find is kept
unless it is silenced there.  The findings of a file are then sorted by
line, column and rule; failures stay in the order in which they were met.
-/
import AndroidLint.Analysis.Catalog
import AndroidLint.Analysis.Suppression

namespace AndroidLint

open Code (SourceFile)
open Rule (Node Context)

/-- A file that has been parsed. -/
inductive ParsedFile where
  | source (f : SourceFile)
  | resource (d : Markup.Document)

namespace ParsedFile

/-- The path of a file. -/
def path : ParsedFile → FilePath
  | source f => f.path
  | resource d => d.path

/-- The source file, if it is one. -/
def source? : ParsedFile → Option SourceFile
  | source f => some f
  | resource _ => none

/-- The file as rules see it around its nodes. -/
def surroundings : ParsedFile → Rule.Surroundings
  | source f => .source f
  | resource d => .resource d

/-- The lists of a source file one after another, without the facade if
that is left out. -/
def listed (f : SourceFile) (withFacade : Bool) : List Node :=
  f.imports.toList.map .imported
    ++ (f.classes.toList.filter fun c => withFacade || c.kind != .facade).map .type
    ++ f.methods.toList.map .method
    ++ f.calls.toList.map .call
    ++ f.references.toList.map .reference
    ++ f.lambdas.toList.map .lambda

/-- Nodes by where they start. -/
def sorted (nodes : List Node) : List Node :=
  nodes.mergeSort fun a b => a.location.startByte ≤ b.location.startByte

/-- An element and its attributes. -/
def elementNodes (d : Markup.Document) (index : Nat) (e : Markup.Element) : List Node :=
  .element d index e :: e.attributes.map (.attribute d index)

/-- The nodes of a resource file in document order. -/
def documentNodes (d : Markup.Document) : List Node :=
  (d.elements.toList.zipIdx.map fun (e, index) => elementNodes d index e).flatten

/-- The nodes of a file in the order in which they are checked. -/
def nodes : ParsedFile → List Node
  | source f => .file f :: sorted (listed f false)
  | resource d => documentNodes d

/-- The nodes of a file, those of a source file list by list. -/
def nodesByList : ParsedFile → List Node
  | source f => .file f :: listed f true
  | resource d => documentNodes d

end ParsedFile

/-- What was found in a file, and the failures met. -/
structure FileReport where
  path : FilePath
  findings : List Finding
  failures : List Rule.Failure

/-- What an analysis depends on besides the files. -/
structure Analysis where
  catalog : Catalog
  settings : Rule.Settings
  resolver : Symbol.Resolver
  presence : Resource.Presence

namespace Analysis

/-- What rules may consult about the nodes of a file. -/
def context (a : Analysis) (file : ParsedFile) : Context :=
  ⟨a.settings, a.resolver, a.presence, file.surroundings⟩

/-- A finding with the severity that the catalog gives its rule. -/
def graded (c : Catalog) (info : Rule.Info) (f : Finding) : Finding :=
  { f with severity := c.severityOf info }

/-- The outcome of a rule at a node: a failure, or the findings that are
not silenced. -/
def outcome (c : Catalog) (x : Context) (n : Node) (r : Rule) :
    Except Rule.Failure (List Finding) :=
  match r.judge x n with
  | .error e => .error e
  | .ok none => .ok []
  | .ok (some f) => .ok (if Suppression.isSilenced x n r.id then [] else [graded c r.info f])

/-- The outcomes of the rules that ask for a node. -/
def outcomesAt (c : Catalog) (x : Context) (n : Node) : List (Except Rule.Failure (List Finding)) :=
  (c.rulesFor n.kind).map (outcome c x n)

/-- The outcomes at the nodes of a file in order. -/
def outcomes (a : Analysis) (file : ParsedFile) : List (Except Rule.Failure (List Finding)) :=
  file.nodes.flatMap (outcomesAt a.catalog (a.context file))

/-- What an outcome adds to the findings. -/
def found : Except Rule.Failure (List Finding) → List Finding
  | .ok fs => fs
  | .error _ => []

/-- The failure an outcome is. -/
def failure? : Except Rule.Failure (List Finding) → Option Rule.Failure
  | .ok _ => none
  | .error e => some e

/-- Whether a finding comes no later in the report of its file. -/
def noLater (a b : Finding) : Bool :=
  (((compare a.location.line b.location.line).then
    (compare a.location.column b.location.column)).then
      (compare a.ruleId b.ruleId)).isLE

/-- The report on one file. -/
def reportOn (a : Analysis) (file : ParsedFile) : FileReport :=
  let os := a.outcomes file
  { path := file.path
    findings := (os.flatMap found).mergeSort noLater
    failures := os.filterMap failure? }

/-- The reports on some files, in their order. -/
def run (a : Analysis) (files : List ParsedFile) : List FileReport :=
  files.map a.reportOn

end Analysis

end AndroidLint
