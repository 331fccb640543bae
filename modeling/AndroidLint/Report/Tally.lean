/-
Tally — how many findings there are, by severity and by rule.
-/
import AndroidLint.Analysis.Dispatch

namespace AndroidLint

namespace Report

/-- All findings, file by file. -/
def findings (files : List FileReport) : List Finding :=
  files.flatMap (·.findings)

/-- All failures, file by file. -/
def failures (files : List FileReport) : List Rule.Failure :=
  files.flatMap (·.failures)

/-- The number of findings of a severity. -/
def countOf (files : List FileReport) (s : Severity) : Nat :=
  (findings files).countP (·.severity == s)

/-- The number of findings. -/
def total (files : List FileReport) : Nat :=
  (findings files).length

/-- The files in which something was found. -/
def affected (files : List FileReport) : List FileReport :=
  files.filter (!·.findings.isEmpty)

/-- The rules that found something, in the order of their ids. -/
def rulesMet (files : List FileReport) : List String :=
  ((findings files).map (·.ruleId)).eraseDups.mergeSort (· ≤ ·)

/-- The rules that found something, each with the number of findings. -/
def byRule (files : List FileReport) : List (String × Nat) :=
  (rulesMet files).map fun id => (id, (findings files).countP (·.ruleId == id))

end Report

end AndroidLint
