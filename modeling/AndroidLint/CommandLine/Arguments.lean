/-
Arguments — what is asked for on the command line.

The words are taken in order.  One that asks for help or for the version
settles the matter there and then; one that makes no sense, gives an
option a value it cannot have, or gives again what may be given once, makes
the whole line senseless.
-/
import AndroidLint.CommandLine.Word
import AndroidLint.Configuration.Reader
import AndroidLint.Report.Exchange

namespace AndroidLint

namespace CommandLine

/-- What the command line sets. -/
structure Arguments where
  path? : Option String
  config? : Option String
  targets : List String
  exclude : List String
  format : Report.Format
  output? : Option String
  minSdk? : Option Nat
  enable : List String
  disable : List String
  listsRules : Bool
  isParallel : Bool
  neverFails : Bool
  isQuiet : Bool
  shell? : Option String

namespace Arguments

/-- What an empty command line sets. -/
def blank : Arguments :=
  { path? := none
    config? := none
    targets := []
    exclude := []
    format := .terminal
    output? := none
    minSdk? := none
    enable := []
    disable := []
    listsRules := false
    isParallel := true
    neverFails := false
    isQuiet := false
    shell? := none }

/-- The project to check: the current folder, unless another is named. -/
def path (a : Arguments) : FilePath :=
  ⟨a.path?.getD "."⟩

/-- The report format that a word names. -/
def format? : String → Option Report.Format
  | "terminal" => some .terminal
  | "compact" => some .compact
  | "json" => some .json
  | "sarif" => some .sarif
  | _ => none

/-- The truth value that a word names. -/
def truth? : String → Option Bool
  | "true" => some true
  | "false" => some false
  | _ => none

/-- A word that can be a path: any but the empty one. -/
def nonempty? (word : String) : Option String :=
  if word.isEmpty then none else some word

/-- The shells that complete words. -/
def shells : List String :=
  ["bash", "elvish", "fish", "powershell", "zsh"]

/-- What is set once an option has a value, if it can have it. -/
def set? (a : Arguments) (s : Switch) (value : String) : Option Arguments :=
  match s with
  | .config => (nonempty? value).map fun v => { a with config? := some v }
  | .target => (nonempty? value).map fun v => { a with targets := a.targets ++ [v] }
  | .exclude => some { a with exclude := a.exclude ++ [value] }
  | .format => (format? value).map fun v => { a with format := v }
  | .output => (nonempty? value).map fun v => { a with output? := some v }
  | .minSdk => (Text.level? value).map fun v => { a with minSdk? := some v }
  | .enable => some { a with enable := a.enable ++ Text.splitAll ',' value }
  | .disable => some { a with disable := a.disable ++ Text.splitAll ',' value }
  | .parallel => (truth? value).map fun v => { a with isParallel := v }
  | .completions =>
      if shells.contains value then some { a with shell? := some value } else none
  | _ => none

/-- What is set once an option without a value is given. -/
def switched (a : Arguments) : Switch → Arguments
  | .listRules => { a with listsRules := true }
  | .noFail => { a with neverFails := true }
  | .quiet => { a with isQuiet := true }
  | _ => a

/-- What is set once the project is named. -/
def placed? (a : Arguments) (path : String) : Option Arguments :=
  match a.path? with
  | some _ => none
  | none => (nonempty? path).map fun p => { a with path? := some p }

end Arguments

/-- What is asked for. -/
inductive Request where
  | help
  | version
  | senseless
  | proceed (a : Arguments)

namespace Request

/-- Whether an option was given before and may not be given again. -/
def isSpent (seen : List Switch) (s : Switch) : Bool :=
  seen.contains s && !s.mayRepeat

/-- What words ask for, beyond what is set and which options were seen. -/
def ofWords (a : Arguments) (seen : List Switch) : List Word → Request
  | [] => proceed a
  | .senseless :: _ => senseless
  | .plain text :: ws =>
      match a.placed? text with
      | some a => ofWords a seen ws
      | none => senseless
  | .switch .help :: _ => help
  | .switch .version :: _ => version
  | .switch s :: ws =>
      if isSpent seen s then senseless else ofWords (a.switched s) (s :: seen) ws
  | .setting s value :: ws =>
      if isSpent seen s then senseless
      else match a.set? s value with
        | some a => ofWords a (s :: seen) ws
        | none => senseless

/-- What a command line asks for. -/
def ofLine (line : List String) : Request :=
  ofWords .blank [] (words none line)

end Request

end CommandLine

end AndroidLint
