/-
Answer — what the program does for a command line.

An answer is what is printed, what is written to a file, and a status: 2
for a senseless line, 1 if errors are reported or something fails, and 0
otherwise.  What goes wrong is said apart from what is printed.
-/
import AndroidLint.CommandLine.Arguments
import AndroidLint.Project.Lint

namespace AndroidLint

namespace CommandLine

open Report (Ink)

/-- What the program does. -/
structure Answer where
  status : Nat
  printed : String
  written? : Option (FilePath × String)
  complaint? : Option String

namespace Answer

/-- Prints a text and is done. -/
def print (text : String) : Answer :=
  ⟨0, text, none, none⟩

/-- Fails. -/
def fail (status : Nat) (complaint : String) : Answer :=
  ⟨status, "", none, some complaint⟩

end Answer

/-! ## Texts -/

/-- The name of the program and its version. -/
def versionLine : String :=
  s!"{Report.programName} {Report.programVersion}\n"

/-- How the names of an option are shown. -/
def namesShown (s : Switch) : String :=
  let letter := match s.letter? with
    | some c => s!"-{String.singleton c}, "
    | none => "    "
  letter ++ "--" ++ s.long

/-- The help. -/
def helpText : String :=
  Report.unlines (
    ["Android lint rules for Kotlin, Java and resource XML", "",
      s!"Usage: {Report.programName} [OPTIONS] [PATH]", ""]
      ++ Switch.all.map fun s => "  " ++ Text.padRight 22 (namesShown s) ++ s.purpose)

/-- The words that a shell can complete. -/
def completionText : String :=
  Report.unlines (Switch.all.map fun s => "--" ++ s.long)

/-! ## The rules -/

/-- The severity of a rule as it is listed. -/
def severityShown (colored : Bool) (s : Severity) : String :=
  let ink : Ink := match s with
    | .error => .redBold
    | .warning => .yellow
    | .info => .blue
  Report.painted colored ink (Text.padRight 8 s.name)

/-- The number of characters in the longest name of a rule. -/
def idWidth : Nat :=
  (Rule.all.map (·.id.length)).foldl max 0

/-- The line for a rule: whether it is active, its name, how serious it is,
and what it is about. -/
def ruleLine (colored : Bool) (c : Catalog) (r : Rule) : String :=
  let mark :=
    if c.contains r.id then Report.painted colored .green "+"
    else Report.painted colored .dimmed "-"
  let id := Report.painted colored .magenta (Text.padRight idWidth r.id)
  let category := Report.painted colored .dimmed (Text.padRight 16 r.info.category.name)
  s!"{mark} {id}  {severityShown colored (c.severityOf r.info)} {category} {r.info.brief}"

/-- The lines for all rules. -/
def ruleList (colored : Bool) (c : Catalog) : String :=
  Report.unlines (Rule.all.map (ruleLine colored c))

/-! ## The project -/

/-- A configuration with what the command line sets put on top. -/
def Arguments.over (a : Arguments) (c : Configuration) : Configuration :=
  { c with
    scope := { c.scope with
      targets := if a.targets.isEmpty then c.scope.targets else a.targets
      exclude := c.scope.exclude ++ a.exclude }
    minSdk? := a.minSdk?.orElse fun _ => c.minSdk?
    selection := { c.selection with
      enable := c.selection.enable ++ a.enable
      disable := c.selection.disable ++ a.disable }
    isParallel := c.isParallel && a.isParallel }

/-- The configuration of the project, with what the command line sets. -/
def Arguments.configuration (a : Arguments) (s : Project.Storage) :
    Except Configuration.Fault Configuration :=
  let ofFile := match a.config? with
    | some file => Configuration.ofFile s ⟨file⟩
    | none => Configuration.ofProject s a.path
  ofFile.bind fun c => Configuration.checked (a.over c)

/-- What is said if there is no configuration. -/
def configurationComplaint : Configuration.Fault → String
  | .unreadable path why => Configuration.unreadableMessage path why
  | .malformed .toml => "Invalid TOML in the configuration"
  | .malformed .yaml => "Invalid YAML in the configuration"
  | .malformed .json => "Invalid JSON in the configuration"
  | .unsound u => u.message

/-- What is said if the files of the project cannot be found. -/
def discoveryComplaint : Project.DiscoveryFault → String
  | .missing path => Project.missingMessage path
  | .malformed pattern => s!"Invalid exclude pattern: {pattern}"

/-- The text that goes to a file, for the formats that can. -/
def Arguments.fileText? (a : Arguments) (o : Report.Options) (c : Catalog)
    (files : List FileReport) : Option (FilePath × Except Report.Fault String) :=
  a.output?.bind fun output =>
    match a.format with
    | .json => some (⟨output⟩, Report.json o files)
    | .sarif => some (⟨output⟩, .ok (Report.sarif o c files))
    | _ => none

/-- The answer that reports what was found, with a status. -/
def Arguments.reported (a : Arguments) (s : Project.Storage) (o : Report.Options) (c : Catalog)
    (files : List FileReport) (status : Nat) : Answer :=
  match a.fileText? o c files with
  | none =>
      match Report.printed a.format o c files with
      | .ok text => ⟨status, text, none, none⟩
      | .error e => .fail 1 e.message
  | some (_, .error e) => .fail 1 e.message
  | some (path, .ok text) =>
      if s.canWrite path then ⟨status, "", some (path, text), none⟩
      else .fail 1 s!"Cannot write {path.text}"

/-- The status of a run. -/
def Arguments.status (a : Arguments) (files : List FileReport) : Nat :=
  if Report.countOf files .error = 0 || a.neverFails then 0 else 1

/-- What is said of a project in which nothing was checked. -/
def Arguments.remark? (a : Arguments) (o : Project.Outcome) : Option String :=
  if o.filesAnalyzed = 0 && !a.isQuiet then
    some "No Kotlin, Java or resource files found."
  else none

/-- The answer to a command line that asks for a check. -/
def Arguments.checked (a : Arguments) (s : Project.Storage) (colored : Bool)
    (c : Configuration) : Answer :=
  match Project.lint s c a.path with
  | .error e => .fail 1 (discoveryComplaint e)
  | .ok outcome =>
      let options : Report.Options := ⟨colored, some a.path, some outcome.filesAnalyzed⟩
      let answer := a.reported s options c.catalog outcome.reports (a.status outcome.reports)
      { answer with complaint? := answer.complaint?.orElse fun _ => a.remark? outcome }

/-- The answer to a command line that makes sense. -/
def Arguments.answer (a : Arguments) (s : Project.Storage) (colored : Bool) : Answer :=
  if a.shell?.isSome then .print completionText
  else match a.configuration s with
    | .error e => .fail 1 (configurationComplaint e)
    | .ok c =>
        if a.listsRules then .print (ruleList colored c.catalog)
        else a.checked s colored c

/-- The answer to a command line. -/
def answer (s : Project.Storage) (colored : Bool) (line : List String) : Answer :=
  match Request.ofLine line with
  | .help => .print helpText
  | .version => .print versionLine
  | .senseless => .fail 2 "The command line makes no sense; --help lists the options."
  | .proceed a => a.answer s colored

end CommandLine

end AndroidLint
