/-
Finding — what a rule reports about one place.

A finding names its rule, how serious it is, where it is, what is wrong
and, where one is known, an edit that mends it.
-/
import AndroidLint.Location

namespace AndroidLint

/-- How serious a finding is. -/
inductive Severity where
  | info
  | warning
  | error
deriving DecidableEq, Inhabited

namespace Severity

/-- The word for a severity. -/
def name : Severity → String
  | info => "info"
  | warning => "warning"
  | error => "error"

/-- The severity that a word names exactly. -/
def ofName? : String → Option Severity
  | "info" => some info
  | "warning" => some warning
  | "error" => some error
  | _ => none

/-- Reads a severity in any mixture of ASCII capitals and small letters;
`warn` is short for `warning`.  A word that names none is given back in
small letters. -/
def read (word : String) : Except String Severity :=
  match Text.lower word with
  | "warn" => .ok warning
  | small =>
      match ofName? small with
      | some severity => .ok severity
      | none => .error small

/-- The complaint about a word that names no severity. -/
def unknownMessage (small : String) : String :=
  s!"unknown severity '{small}'"

end Severity

/-- An edit that mends a finding. -/
inductive Fix where
  /-- Replace one text by another inside the reported range. -/
  | replaceText (name old new : String)
  /-- Replace every match of a pattern inside the reported range. -/
  | replacePattern (pattern replacement : String)
  | setAttribute (space name value : String)
  | unsetAttribute (space name : String)
  | composite (fixes : List Fix)
deriving Inhabited

namespace Fix

/-- What an edit does, in a few words. -/
def summary : Fix → String
  | replaceText name _ _ => name
  | replacePattern pattern replacement => s!"Replace '{pattern}' with '{replacement}'"
  | setAttribute _ name value => s!"Set {name}=\"{value}\""
  | unsetAttribute _ name => s!"Remove {name}"
  | composite fixes => ", ".intercalate (fixes.attach.map fun ⟨fix, _⟩ => fix.summary)

end Fix

/-- A report about one place. -/
structure Finding where
  ruleId : String
  severity : Severity
  location : Location
  message : String
  fix : Option Fix
deriving Inhabited

end AndroidLint
