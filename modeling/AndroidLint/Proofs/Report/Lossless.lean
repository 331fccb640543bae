/-
Lossless — a JSON report tells everything that was found.

The report is read back the way any reader of JSON would: the text as a
value, then each part by the name of its member.  `Contents` is what is
read, and `Contents.of` is what there is to say about some reports, with
every count spelled out.  Both agree for every report that can be written
at all (`read?_json`), so reports that differ in a finding differ in
their texts.

A value is read back from its text because all its numbers are natural
numbers (`parse?_pretty`), and a finding from its value member by member:
the one member that may be missing is the one for the edit, and an edit is
told by the member that names its kind.
-/
import AndroidLint.Proofs.Except
import AndroidLint.Proofs.Json.Lookup
import AndroidLint.Proofs.Report.Writable

namespace AndroidLint

namespace Report

open Json (Value Whole StandsFor)

/-! ## Reading a report -/

/-- The edit that a value stands for. -/
def fixOf? (v : Value) : Option Fix := do
  match ← v.field? Value.text? "type" with
  | "replace_text" =>
      return .replaceText (← v.field? Value.text? "name") (← v.field? Value.text? "old")
        (← v.field? Value.text? "new")
  | "replace_pattern" =>
      return .replacePattern (← v.field? Value.text? "pattern") (← v.field? Value.text? "with")
  | "set_attribute" =>
      return .setAttribute (← v.field? Value.text? "namespace") (← v.field? Value.text? "name")
        (← v.field? Value.text? "value")
  | "unset_attribute" =>
      return .unsetAttribute (← v.field? Value.text? "namespace") (← v.field? Value.text? "name")
  | _ => none

/-- The place that a value stands for. -/
def locationOf? (v : Value) : Option Location := do
  return {
    file := ⟨← v.field? Value.text? "file"⟩
    line := ← v.field? Value.natural? "line"
    column := ← v.field? Value.natural? "column"
    startByte := ← v.field? Value.natural? "start_byte"
    endByte := ← v.field? Value.natural? "end_byte" }

/-- The severity that a value names. -/
def severityOf? (v : Value) : Option Severity :=
  v.text?.bind Severity.ofName?

/-- The finding that a value stands for. -/
def findingOf? (v : Value) : Option Finding := do
  return {
    ruleId := ← v.field? Value.text? "rule_id"
    severity := ← v.field? severityOf? "severity"
    location := ← v.field? locationOf? "location"
    message := ← v.field? Value.text? "message"
    fix := ← v.optional? fixOf? "fix" }

/-- What a JSON report says. -/
structure Contents where
  filesAnalyzed? : Option Nat
  filesAffected : Nat
  errors : Nat
  warnings : Nat
  infos : Nat
  findings : List Finding
  failures? : Option (List String)

namespace Contents

/-- What a value says as a report. -/
def ofValue? (v : Value) : Option Contents := do
  let summary ← v.field? some "summary"
  return {
    filesAnalyzed? := ← summary.field? (Value.nullable? Value.natural?) "files_analyzed"
    filesAffected := ← summary.field? Value.natural? "files_affected"
    errors := ← summary.field? Value.natural? "errors"
    warnings := ← summary.field? Value.natural? "warnings"
    infos := ← summary.field? Value.natural? "infos"
    findings := ← v.field? (Value.items? findingOf?) "diagnostics"
    failures? := ← v.optional? (Value.items? Value.text?) "internal_errors" }

/-- What a text says as a report. -/
def read? (text : String) : Option Contents :=
  (Json.parse? text).bind ofValue?

/-- What there is to say about reports: the counts by severity, of files in
which something was found, the findings in order, and the failures, if
there are any. -/
def of (o : Options) (files : List FileReport) : Contents where
  filesAnalyzed? := o.filesAnalyzed?
  filesAffected := files.countP (·.findings ≠ [])
  errors := (files.flatMap (·.findings)).countP (·.severity = .error)
  warnings := (files.flatMap (·.findings)).countP (·.severity = .warning)
  infos := (files.flatMap (·.findings)).countP (·.severity = .info)
  findings := files.flatMap (·.findings)
  failures? :=
    match files.flatMap (·.failures) with
    | [] => none
    | es => some (es.map (·.text))

end Contents

/-! ## Part by part -/

theorem standsFor_fixValue {fix : Fix} {v : Value} (written : fixValue fix = .ok v) :
    StandsFor fixOf? v fix := by
  cases fix with
  | composite fixes => cases written
  | _ =>
      obtain rfl := Except.ok.inj written
      constructor
      · simp
      · simp [fixOf?, Value.field?, Value.named]

theorem standsFor_locationValue (l : Location) : StandsFor locationOf? (locationValue l) l where
  whole := by simp [locationValue]
  reads := by simp [locationOf?, locationValue, Value.field?, Value.named]

theorem severityOf?_name (s : Severity) : severityOf? (.string s.name) = some s := by
  cases s <;> rfl

theorem standsFor_findingValue {f : Finding} {v : Value} (written : findingValue f = .ok v) :
    StandsFor findingOf? v f := by
  obtain ⟨ruleId, severity, location, message, fix⟩ := f
  have place := standsFor_locationValue location
  obtain ⟨members, hfix, rfl⟩ := exists_of_map_eq_ok written
  cases fix with
  | none =>
      obtain rfl := Except.ok.inj hfix
      constructor
      · simp [place.whole]
      · simp [findingOf?, Value.field?, Value.optional?, Value.named, severityOf?_name, place.reads]
  | some fix =>
      obtain ⟨w, form, rfl⟩ := exists_of_map_eq_ok hfix
      have edit := standsFor_fixValue form
      constructor
      · simp [place.whole, edit.whole]
      · simp [findingOf?, Value.field?, Value.optional?, Value.named, severityOf?_name,
          place.reads, edit.reads]

theorem standsFor_findings {fs : List Finding} {vs : List Value}
    (written : fs.mapM findingValue = .ok vs) :
    StandsFor (Value.items? findingOf?) (.array vs) fs := by
  refine Json.standsFor_array ((Json.forall₂_of_mapM written).imp ?_)
  intro v f form
  exact standsFor_findingValue form

theorem standsFor_texts (texts : List String) :
    StandsFor (Value.items? Value.text?) (.array (texts.map .string)) texts := by
  have part : ∀ s : String, StandsFor Value.text? (.string s) (id s) := fun s => ⟨.string s, rfl⟩
  have told := Json.standsFor_map part texts
  rwa [List.map_id] at told

theorem standsFor_count? (count? : Option Nat) :
    StandsFor (Value.nullable? Value.natural?) ((count?.map Value.nat).getD .null) count? := by
  cases count? with
  | none => exact ⟨.null, rfl⟩
  | some n => exact ⟨.nat n, congrArg (Option.map some) (Value.natural?_nat n)⟩

/-! ## The whole report -/

section Written

variable (o : Options) (files : List FileReport)

theorem length_affected : (affected files).length = files.countP (·.findings ≠ []) := by
  rw [affected, ← List.countP_eq_length_filter]
  refine List.countP_congr fun file _ => ?_
  cases file.findings <;> simp

/-- What there is to say is what the report counts. -/
theorem of_eq_counts : Contents.of o files =
    { filesAnalyzed? := o.filesAnalyzed?
      filesAffected := (affected files).length
      errors := countOf files .error
      warnings := countOf files .warning
      infos := countOf files .info
      findings := findings files
      failures? := (Contents.of o files).failures? } := by
  rw [length_affected]
  rfl

theorem failureMembers_eq :
    failureMembers files = ((Contents.of o files).failures?.map fun texts =>
      ("internal_errors", Value.array (texts.map .string))).toList := by
  rw [failureMembers, failures, Contents.of]
  cases files.flatMap (·.failures) <;> simp

variable {o files}

theorem standsFor_json {v : Value} (written : jsonValue o files = .ok v) :
    StandsFor Contents.ofValue? v (.of o files) := by
  obtain ⟨vs, form, rfl⟩ := exists_of_map_eq_ok written
  have found := standsFor_findings form
  have count := standsFor_count? o.filesAnalyzed?
  rw [failureMembers_eq o, of_eq_counts]
  cases (Contents.of o files).failures? with
  | none =>
      constructor
      · simpa [summaryValue, count.whole] using found.whole
      · simp [Contents.ofValue?, Value.field?, Value.optional?, Value.named, summaryValue,
          count.reads, found.reads]
  | some texts =>
      have told := standsFor_texts texts
      constructor
      · simpa [summaryValue, count.whole] using found.whole
      · simp [Contents.ofValue?, Value.field?, Value.optional?, Value.named, summaryValue,
          count.reads, found.reads, told.reads]

/-- A report that was written is read as what there was to say. -/
theorem read?_json {text : String} (written : json o files = .ok text) :
    Contents.read? text = some (.of o files) := by
  obtain ⟨v, form, rfl⟩ := exists_of_map_eq_ok written
  exact (standsFor_json form).parse?

end Written

/-- **A JSON report loses nothing.**  If no finding proposes an edit made of
several, the report is written, and what is read from it is what there was
to say: every finding in order with all its parts, the failures, and the
counts.  So reports of different findings have different texts. -/
theorem json_readsBack (o : Options) (files : List FileReport)
    (simple : ∀ f ∈ findings files, f.hasCompositeFix = false) :
    ∃ text, json o files = .ok text ∧ Contents.read? text = some (.of o files) ∧
      ∀ o' files', json o' files' = .ok text → findings files' = findings files := by
  obtain ⟨text, written⟩ := (isOk_json_iff o files).mpr simple
  have told := read?_json written
  refine ⟨text, written, told, fun o' files' written' => ?_⟩
  have same : Contents.of o' files' = .of o files :=
    Option.some.inj ((read?_json written').symm.trans told)
  exact congrArg Contents.findings same

/-- A report whose texts hold what a string cannot hold as it is. -/
def markedReport : FileReport where
  path := ⟨"res/values/größe.xml"⟩
  findings := [
    { ruleId := "HardcodedValueInXML"
      severity := .warning
      location := ⟨⟨"res/values/größe.xml"⟩, 3, 9, 2 ^ 64 - 2, 2 ^ 64 - 1⟩
      message := "a \"quoted\" text, a \\ and\n\x01 a line → 😀"
      fix := some (.replaceText "Use \"@dimen\"" "\t4dp" "") },
    { ruleId := "SrcCompatUsage"
      severity := .error
      location := .top ⟨"res/values/größe.xml"⟩
      message := ""
      fix := none }]
  failures := [⟨"UnsupportedJava8Api", "no \x7f \x0c"⟩]

theorem json_readsBack_markedReport :
    (∀ f ∈ findings [markedReport], f.hasCompositeFix = false) ∧
      ∃ text, json ⟨false, none, some 2⟩ [markedReport] = .ok text ∧
        Contents.read? text = some (.of ⟨false, none, some 2⟩ [markedReport]) ∧
        ∀ o' files', json o' files' = .ok text → findings files' = markedReport.findings := by
  have simple : ∀ f ∈ findings [markedReport], f.hasCompositeFix = false := by decide
  exact ⟨simple, json_readsBack ⟨false, none, some 2⟩ [markedReport] simple⟩

end Report

end AndroidLint
