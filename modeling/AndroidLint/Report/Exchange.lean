/-
Exchange — the reports for other programs: JSON and SARIF.

Both are JSON values.  A composite fix has no form in the JSON report, so
a report that would hold one fails.
-/
import AndroidLint.Json.Value
import AndroidLint.Report.Listing

namespace AndroidLint

namespace Report

open Json (Value)

/-- The name and version that reports carry. -/
def programName : String := "droidlint"

/-- The version that reports carry. -/
def programVersion : String := "0.1.0"

/-- Why a report cannot be written. -/
inductive Fault where
  | compositeFix

/-- The wording of a fault. -/
def Fault.message : Fault → String
  | compositeFix => "cannot serialize tagged newtype variant Fix::Composite containing a sequence"

/-! ## JSON -/

/-- The members of a fix. -/
def fixValue : Fix → Except Fault Value
  | .replaceText name old new => .ok (.object [
      ("type", .string "replace_text"), ("name", .string name), ("old", .string old),
      ("new", .string new)])
  | .replacePattern pattern replacement => .ok (.object [
      ("type", .string "replace_pattern"), ("pattern", .string pattern),
      ("with", .string replacement)])
  | .setAttribute space name value => .ok (.object [
      ("type", .string "set_attribute"), ("namespace", .string space), ("name", .string name),
      ("value", .string value)])
  | .unsetAttribute space name => .ok (.object [
      ("type", .string "unset_attribute"), ("namespace", .string space), ("name", .string name)])
  | .composite _ => .error .compositeFix

/-- A place as a value. -/
def locationValue (l : Location) : Value :=
  .object [
    ("file", .string l.file.text), ("line", .nat l.line), ("column", .nat l.column),
    ("start_byte", .nat l.startByte), ("end_byte", .nat l.endByte)]

/-- The member for a fix, if there is one. -/
def fixMembers : Option Fix → Except Fault (List (String × Value))
  | none => .ok []
  | some fix => (fixValue fix).map fun v => [("fix", v)]

/-- A finding as a value. -/
def findingValue (f : Finding) : Except Fault Value :=
  (fixMembers f.fix).map fun fix =>
    .object ([
      ("rule_id", .string f.ruleId), ("severity", .string f.severity.name),
      ("location", locationValue f.location), ("message", .string f.message)] ++ fix)

/-- The counts as a value. -/
def summaryValue (o : Options) (files : List FileReport) : Value :=
  .object [
    ("files_analyzed", (o.filesAnalyzed?.map Value.nat).getD .null),
    ("files_affected", .nat (affected files).length),
    ("errors", .nat (countOf files .error)),
    ("warnings", .nat (countOf files .warning)),
    ("infos", .nat (countOf files .info))]

/-- The member for the failures, if there are any. -/
def failureMembers (files : List FileReport) : List (String × Value) :=
  match failures files with
  | [] => []
  | es => [("internal_errors", .array (es.map fun e => .string e.text))]

/-- The JSON report as a value. -/
def jsonValue (o : Options) (files : List FileReport) : Except Fault Value :=
  ((findings files).mapM findingValue).map fun found =>
    .object ([
      ("version", .string programVersion), ("summary", summaryValue o files),
      ("diagnostics", .array found)] ++ failureMembers files)

/-- The JSON report. -/
def json (o : Options) (files : List FileReport) : Except Fault String :=
  (jsonValue o files).map Json.pretty

/-! ## SARIF -/

/-- The level of a severity. -/
def level : Severity → String
  | .error => "error"
  | .warning => "warning"
  | .info => "note"

/-- A text as a message. -/
def messageValue (text : String) : Value :=
  .object [("text", .string text)]

/-- A rule of the catalog as a value. -/
def ruleValue (c : Catalog) (r : Rule) : Value :=
  .object [
    ("id", .string r.id),
    ("shortDescription", messageValue r.info.brief),
    ("fullDescription", messageValue (Text.oneLine r.info.explanation)),
    ("defaultConfiguration", .object [("level", .string (level (c.severityOf r.info)))])]

/-- Where a finding is, as a value. -/
def physicalValue (o : Options) (f : Finding) : Value :=
  .object [("physicalLocation", .object [
    ("artifactLocation", .object [("uri", .string (o.shown f.location.file))]),
    ("region", .object [
      ("startLine", .nat f.location.line), ("startColumn", .nat f.location.column)])])]

/-- The member for a fix: what it does, in words. -/
def fixDescriptions : Option Fix → List (String × Value)
  | none => []
  | some fix => [("fixes", .array [.object [("description", messageValue fix.summary)]])]

/-- A finding as a value. -/
def resultValue (o : Options) (f : Finding) : Value :=
  .object ([
    ("ruleId", .string f.ruleId), ("level", .string (level f.severity)),
    ("message", messageValue f.message), ("locations", .array [physicalValue o f])]
      ++ fixDescriptions f.fix)

/-- The SARIF report as a value. -/
def sarifValue (o : Options) (c : Catalog) (files : List FileReport) : Value :=
  .object [
    ("$schema", .string "https://json.schemastore.org/sarif-2.1.0.json"),
    ("version", .string "2.1.0"),
    ("runs", .array [.object [
      ("tool", .object [("driver", .object [
        ("name", .string programName), ("version", .string programVersion),
        ("rules", .array (c.rules.map (ruleValue c)))])]),
      ("results", .array ((findings files).map (resultValue o)))]])]

/-- The SARIF report. -/
def sarif (o : Options) (c : Catalog) (files : List FileReport) : String :=
  Json.pretty (sarifValue o c files)

/-! ## Formats -/

/-- The forms of a report. -/
inductive Format where
  | terminal
  | compact
  | json
  | sarif
deriving DecidableEq

/-- What is printed for a report in a format. -/
def printed (format : Format) (o : Options) (c : Catalog) (files : List FileReport) :
    Except Fault String :=
  match format with
  | .terminal => .ok (unlines (terminal o true files ++ summary o files))
  | .compact => .ok (unlines (compact o files ++ summary o files))
  | .json => (json o files).map (· ++ "\n")
  | .sarif => .ok (sarif o c files ++ "\n")

end Report

end AndroidLint
