/-
Setting — from the values of a file to a configuration.

A file gives settings by name; names that are no setting do not count, and
no setting may be given twice.  In two of the formats a file may also give
them in a fixed order, without names, as far as it likes.
-/
import AndroidLint.Configuration.Basic
import AndroidLint.Configuration.Datum

namespace AndroidLint

namespace Configuration

/-- The formats of configuration files. -/
inductive Format where
  | toml
  | yaml
  | json
deriving DecidableEq

/-- What stands below the name of a severity where more than the name is
written: nothing, in each format's own way. -/
def isVoidBelow : Format → Datum → Bool
  | .json, .null => true
  | .toml, .table [] => true
  | .toml, .list [] => true
  | _, _ => false

/-- The severity that a value is. -/
def severity? (f : Format) : Datum → Option Severity
  | .text s => Severity.ofName? s
  | .plain s => Severity.ofName? s
  | .table [(.text s, d)] => if isVoidBelow f d then Severity.ofName? s else none
  | _ => none

/-- Pairs without those whose name comes again later. -/
def lastOfEach {α : Type} : List (String × α) → List (String × α)
  | [] => []
  | p :: ps => if ps.any (·.1 == p.1) then lastOfEach ps else p :: lastOfEach ps

/-- The severity of a rule, from a member of a table. -/
def severityOf? (f : Format) (member : String × Datum) : Option (String × Severity) :=
  (severity? f member.2).map fun s => (member.1, s)

/-- The severities by rule that a value is. -/
def severities? (f : Format) (d : Datum) : Option (List (String × Severity)) :=
  d.members?.bind fun ms => (ms.mapM (severityOf? f)).map lastOfEach

/-- The names of the settings, in their order. -/
def settingNames : List String :=
  ["targets", "exclude", "min_sdk", "enable", "disable", "severity", "java_only_annotation",
    "kotlin_only_annotation", "respect_gitignore", "parallel"]

/-- A configuration with the setting of a name changed. -/
def set? (f : Format) (c : Configuration) (name : String) (d : Datum) : Option Configuration :=
  match name with
  | "targets" => d.texts?.map fun v => { c with scope := { c.scope with targets := v } }
  | "exclude" => d.texts?.map fun v => { c with scope := { c.scope with exclude := v } }
  | "min_sdk" => d.optionalLevel?.map fun v => { c with minSdk? := v }
  | "enable" => d.texts?.map fun v => { c with selection := { c.selection with enable := v } }
  | "disable" => d.texts?.map fun v => { c with selection := { c.selection with disable := v } }
  | "severity" => (severities? f d).map fun v =>
      { c with selection := { c.selection with severities := v } }
  | "java_only_annotation" => d.text?.map fun v => { c with javaOnly := v }
  | "kotlin_only_annotation" => d.text?.map fun v => { c with kotlinOnly := v }
  | "respect_gitignore" => d.flag?.map fun v =>
      { c with scope := { c.scope with respectsIgnoreFiles := v } }
  | "parallel" => d.flag?.map fun v => { c with isParallel := v }
  | _ => some c

/-- Whether no name is there twice. -/
def areDistinct : List String → Bool
  | [] => true
  | n :: ns => !ns.contains n && areDistinct ns

/-- The configuration that settings make. -/
def ofSettings? (f : Format) (settings : List (String × Datum)) : Option Configuration :=
  settings.foldlM (fun c (name, d) => set? f c name d) default

/-- The configuration that the value of a file makes. -/
def ofDatum? (f : Format) (d : Datum) : Option Configuration :=
  match d with
  | .list ds =>
      if ds.length ≤ settingNames.length then ofSettings? f (settingNames.zip ds) else none
  | d => d.members?.bind fun settings =>
      if areDistinct ((settings.map (·.1)).filter settingNames.contains) then
        ofSettings? f settings
      else none

end Configuration

end AndroidLint
