/-
Consistency — a SARIF log agrees with itself.

A log lists rules with their levels, and results that name rules and have
levels of their own.  The lists come from different places: the rules are
those of the catalog, the results are what was found before, graded there
and then.  They fit together for every selection of rules, because what is
found belongs to an active rule and is graded as the catalog grades that
rule (`of_mem_findings`), and the catalog holds exactly the active rules.

All of it is said of what is read from the text of the log, by the names
of the members.
-/
import AndroidLint.Proofs.Analysis.Selection
import AndroidLint.Proofs.Json.Lookup
import AndroidLint.Report.Exchange

namespace AndroidLint

namespace Report

open Json (Value Whole StandsFor)

/-! ## Reading a log -/

/-- A rule that a log lists, with its level. -/
structure ListedRule where
  id : String
  level : String

/-- A place that a result names. -/
structure Place where
  uri : String
  line : Nat
  column : Nat

/-- A result of a log; of its fixes what they do. -/
structure Result where
  ruleId : String
  level : String
  message : String
  places : List Place
  fixes : List String

/-- The rules of a log and its results. -/
structure Log where
  rules : List ListedRule
  results : List Result

/-- The text of a message. -/
def messageOf? (v : Value) : Option String :=
  v.field? Value.text? "text"

/-- The rule that a value lists. -/
def listedRuleOf? (v : Value) : Option ListedRule := do
  return {
    id := ← v.field? Value.text? "id"
    level := ← v.field? (·.field? Value.text? "level") "defaultConfiguration" }

/-- The place that a value names. -/
def placeOf? (v : Value) : Option Place := do
  let place ← v.field? some "physicalLocation"
  let region ← place.field? some "region"
  return {
    uri := ← place.field? (·.field? Value.text? "uri") "artifactLocation"
    line := ← region.field? Value.natural? "startLine"
    column := ← region.field? Value.natural? "startColumn" }

/-- What the fix that a value stands for does. -/
def fixDescriptionOf? (v : Value) : Option String :=
  v.field? messageOf? "description"

/-- The result that a value stands for. -/
def resultOf? (v : Value) : Option Result := do
  return {
    ruleId := ← v.field? Value.text? "ruleId"
    level := ← v.field? Value.text? "level"
    message := ← v.field? messageOf? "message"
    places := ← v.field? (Value.items? placeOf?) "locations"
    fixes := (← v.optional? (Value.items? fixDescriptionOf?) "fixes").getD [] }

/-- The rules and results of a run. -/
def runOf? (v : Value) : Option Log := do
  let driver ← v.field? (·.field? some "driver") "tool"
  return {
    rules := ← driver.field? (Value.items? listedRuleOf?) "rules"
    results := ← v.field? (Value.items? resultOf?) "results" }

namespace Log

/-- The log that a value stands for, if it has one run. -/
def ofValue? (v : Value) : Option Log :=
  match v.field? (Value.items? runOf?) "runs" with
  | some [run] => some run
  | _ => none

/-- The log that a text is. -/
def read? (text : String) : Option Log :=
  (Json.parse? text).bind ofValue?

end Log

/-! ## Part by part -/

/-- A rule as a catalog lists it. -/
def ListedRule.of (c : Catalog) (r : Rule) : ListedRule :=
  ⟨r.id, Report.level (c.severityOf r.info)⟩

/-- The place of a finding. -/
def Place.of (o : Options) (f : Finding) : Place :=
  ⟨o.shown f.location.file, f.location.line, f.location.column⟩

/-- A finding as a result. -/
def Result.of (o : Options) (f : Finding) : Result where
  ruleId := f.ruleId
  level := Report.level f.severity
  message := f.message
  places := [.of o f]
  fixes := f.fix.toList.map Fix.summary

theorem messageOf?_messageValue (text : String) : messageOf? (messageValue text) = some text := by
  simp [messageOf?, messageValue, Value.field?, Value.named]

theorem standsFor_ruleValue (c : Catalog) (r : Rule) :
    StandsFor listedRuleOf? (ruleValue c r) (.of c r) where
  whole := by simp [ruleValue, messageValue]
  reads := by simp [listedRuleOf?, ruleValue, ListedRule.of, Value.field?, Value.named]

theorem standsFor_physicalValue (o : Options) (f : Finding) :
    StandsFor placeOf? (physicalValue o f) (.of o f) where
  whole := by simp [physicalValue]
  reads := by simp [placeOf?, physicalValue, Place.of, Value.field?, Value.named]

theorem standsFor_fixValues (fix : Fix) :
    StandsFor (Value.items? fixDescriptionOf?)
      (.array [.object [("description", messageValue fix.summary)]]) [fix.summary] := by
  refine Json.standsFor_array (.cons ⟨?_, ?_⟩ .nil)
  · simp [messageValue]
  · simp [fixDescriptionOf?, Value.field?, Value.named, messageOf?_messageValue]

theorem standsFor_resultValue (o : Options) (f : Finding) :
    StandsFor resultOf? (resultValue o f) (.of o f) := by
  have places := Json.standsFor_array (.cons (standsFor_physicalValue o f) .nil)
  obtain ⟨ruleId, severity, location, message, fix⟩ := f
  cases fix with
  | none =>
      constructor
      · simpa [resultValue, messageValue, fixDescriptions] using places.whole
      · simp [resultOf?, resultValue, Result.of, fixDescriptions, Value.field?, Value.optional?,
          Value.named, messageOf?_messageValue, places.reads]
  | some fix =>
      have fixes := standsFor_fixValues fix
      constructor
      · simpa [resultValue, messageValue, fixDescriptions] using places.whole
      · simp [resultOf?, resultValue, Result.of, fixDescriptions, Value.field?, Value.optional?,
          Value.named, messageOf?_messageValue, places.reads, fixes.reads]

theorem standsFor_run {rules results : Value} {listed : List ListedRule} {found : List Result}
    (lists : StandsFor (Value.items? listedRuleOf?) rules listed)
    (finds : StandsFor (Value.items? resultOf?) results found) :
    StandsFor runOf?
      (.object [
        ("tool", .object [("driver", .object [
          ("name", .string programName), ("version", .string programVersion),
          ("rules", rules)])]),
        ("results", results)]) ⟨listed, found⟩ where
  whole := by simp [lists.whole, finds.whole]
  reads := by simp [runOf?, Value.field?, Value.named, lists.reads, finds.reads]

theorem standsFor_sarifValue (o : Options) (c : Catalog) (files : List FileReport) :
    StandsFor Log.ofValue? (sarifValue o c files)
      ⟨c.rules.map (.of c), (findings files).map (.of o)⟩ := by
  have rules := Json.standsFor_map (standsFor_ruleValue c) c.rules
  have results := Json.standsFor_map (standsFor_resultValue o) (findings files)
  have runs := Json.standsFor_array (.cons (standsFor_run rules results) .nil)
  constructor
  · simpa [sarifValue] using runs.whole
  · simp [Log.ofValue?, sarifValue, Value.field?, Value.named, runs.reads]

/-- The text of a log is read as the rules of the catalog and the findings. -/
theorem read?_sarif (o : Options) (c : Catalog) (files : List FileReport) :
    Log.read? (sarif o c files) = some ⟨c.rules.map (.of c), (findings files).map (.of o)⟩ :=
  (standsFor_sarifValue o c files).parse?

end Report

/-! ## Rules and results -/

/-- What is found belongs to a rule that the catalog lists with the level
of the finding. -/
theorem exists_listed_of_mem_findings {a : Analysis} {s : Selection} {files : List ParsedFile}
    {f : Finding} (mem : f ∈ Report.findings ((a.selecting s).run files)) :
    ∃ r ∈ Reference.active s, r.id = f.ruleId ∧
      (Catalog.ofSelection s).severityOf r.info = f.severity := by
  obtain ⟨report, hreport, hf⟩ := List.mem_flatMap.mp mem
  obtain ⟨file, -, rfl⟩ := List.mem_map.mp hreport
  obtain ⟨r, hall, hid, hactive, graded⟩ := of_mem_findings a hf
  refine ⟨r, List.mem_filter.mpr ⟨hall, decide_eq_true hactive⟩, hid, ?_⟩
  rw [graded, Catalog.severityOf_eq]
  rfl

theorem nodup_ids_active (s : Selection) : ((Reference.active s).map Rule.id).Nodup :=
  Rule.nodup_ids.sublist (List.filter_sublist.map _)

/-- **A SARIF log agrees with itself.**  For every analysis under every
selection and whatever files, the log with the catalog of the analysis can
be read; its results are what was found, in order; it lists each active
rule once; and every result names a listed rule and has its level. -/
theorem sarif_consistent (a : Analysis) (s : Selection) (o : Report.Options)
    (files : List ParsedFile) :
    ∃ log, Report.Log.read?
        (Report.sarif o (a.selecting s).catalog ((a.selecting s).run files)) = some log ∧
      log.results = (Report.findings ((a.selecting s).run files)).map (.of o) ∧
      log.rules.map (·.id) = (Reference.active s).map Rule.id ∧
      (log.rules.map (·.id)).Nodup ∧
      ∀ result ∈ log.results, ∃ rule ∈ log.rules,
        rule.id = result.ruleId ∧ rule.level = result.level := by
  let c : Catalog := .ofSelection s
  have hids : (c.rules.map (Report.ListedRule.of c)).map (·.id) =
      (Reference.active s).map Rule.id := by
    rw [List.map_map, rules_ofSelection]
    rfl
  refine ⟨_, Report.read?_sarif o c _, rfl, hids, hids ▸ nodup_ids_active s, ?_⟩
  intro result hresult
  obtain ⟨f, hf, rfl⟩ := List.mem_map.mp hresult
  obtain ⟨r, hr, hid, graded⟩ := exists_listed_of_mem_findings hf
  have listed : Report.ListedRule.of c r ∈ c.rules.map (.of c) :=
    List.mem_map.mpr ⟨r, rules_ofSelection s ▸ hr, rfl⟩
  exact ⟨_, listed, hid, congrArg Report.level graded⟩

end AndroidLint
