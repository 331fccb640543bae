/-
Listing — the reports for people: by file, by line, and the summary that
ends both.

A listing is a list of lines.  Paths are shown as seen from a base that
they lie below.
-/
import AndroidLint.Report.Ink
import AndroidLint.Report.Tally

namespace AndroidLint

namespace Report

/-- What a report depends on besides the findings. -/
structure Options where
  colored : Bool
  base? : Option FilePath
  filesAnalyzed? : Option Nat

namespace Options

/-- A path as seen from the base. -/
def shown (o : Options) (p : FilePath) : String :=
  ((o.base?.bind p.below?).getD p).text

/-- A text in an ink. -/
def paint (o : Options) (i : Ink) (text : String) : String :=
  painted o.colored i text

end Options

/-! ## By file -/

/-- The line for a finding in the listing by file. -/
def itemLine (o : Options) (f : Finding) : String :=
  let place := s!"{Text.padLeft 5 (toString f.location.line)}:"
    ++ Text.padRight 3 (toString f.location.column)
  s!"  {o.paint .dimmed place} {o.paint (severityInk f.severity) (severitySign f.severity)} "
    ++ s!"[{o.paint .magenta f.ruleId}] {f.message}"

/-- The line for a fix in the listing by file. -/
def fixLine (o : Options) (fix : Fix) : String :=
  "    " ++ o.paint .dimmed "→ fix:" ++ " " ++ o.paint .green fix.summary

/-- The lines for a finding. -/
def itemLines (o : Options) (withFixes : Bool) (f : Finding) : List String :=
  itemLine o f ::
    if withFixes then f.fix.toList.map (fixLine o) else []

/-- The lines for a file. -/
def fileLines (o : Options) (withFixes : Bool) (file : FileReport) : List String :=
  o.paint .cyanBold (o.shown file.path) ::
    (file.findings.flatMap (itemLines o withFixes) ++ [""])

/-- The findings file by file, in the order of the paths. -/
def terminal (o : Options) (withFixes : Bool) (files : List FileReport) : List String :=
  if total files = 0 then [o.paint .greenBold "No issues found!"]
  else
    ["", s!"Found {o.paint .whiteBold (toString (total files))} issues:", ""]
      ++ ((affected files).mergeSort fun a b => a.path.le b.path).flatMap (fileLines o withFixes)

/-! ## By line -/

/-- The line for a finding, with the parts that are colored. -/
def compactLine (o : Options) (f : Finding) : String :=
  s!"{o.paint .cyanBold (o.shown f.location.file)}:{f.location.line}:{f.location.column}: "
    ++ s!"{o.paint (severityInk f.severity) f.severity.name} "
    ++ s!"[{o.paint .magenta f.ruleId}] {f.message}"

/-- The line for a finding without colors. -/
def formatLine (base? : Option FilePath) (f : Finding) : String :=
  compactLine ⟨false, base?, none⟩ f

/-- Whether a finding comes no later by path, line and column. -/
def placedNoLater (a b : Finding) : Bool :=
  (((a.location.file.compare b.location.file).then
    (compare a.location.line b.location.line)).then
      (compare a.location.column b.location.column)).isLE

/-- The findings one a line, by path, line and column. -/
def compact (o : Options) (files : List FileReport) : List String :=
  ((findings files).mergeSort placedNoLater).map (compactLine o)

/-! ## Summary -/

/-- The width of a bar. -/
def barWidth : Nat := 20

/-- The filled part of a bar: a share of the width, halves rounded up. -/
def barFill (count total : Nat) : Nat :=
  (2 * barWidth * count + total) / (2 * total)

/-- A bar for a share. -/
def bar (count total : Nat) : String :=
  let filled := barFill count total
  Text.repeated filled "█" ++ Text.repeated (barWidth - filled) "░"

/-- The line for a rule in the summary. -/
def ruleLine (o : Options) (width all : Nat) (rule : String × Nat) : String :=
  s!"  {o.paint .magenta (Text.padRight width rule.1)}  {o.paint .dimmed (bar rule.2 all)} "
    ++ o.paint .whiteBold (toString rule.2)

/-- The lines for the rules, if there are more than one. -/
def ruleLines (o : Options) (files : List FileReport) : List String :=
  let rules := byRule files
  let width := (rules.map (·.1.length)).foldl max 0
  if 1 < rules.length then rules.map (ruleLine o width (total files)) ++ [""] else []

/-- The line with the counts. -/
def countLine (o : Options) (files : List FileReport) : String :=
  let infos := countOf files .info
  s!"{o.paint .redBold (toString (countOf files .error))} errors, "
    ++ s!"{o.paint .yellow (toString (countOf files .warning))} warnings"
    ++ (if infos = 0 then "" else s!", {infos} infos")
    ++ s!" in {(affected files).length} files"
    ++ (match o.filesAnalyzed? with
        | some n => s!" ({n} analyzed)"
        | none => "")

/-- The line about failures, if there are any. -/
def failureLines (o : Options) (files : List FileReport) : List String :=
  match (failures files).length with
  | 0 => []
  | n => [o.paint .red s!"{n} internal rule errors, rerun with --verbose for details"]

/-- The summary; nothing if nothing was found and nothing failed. -/
def summary (o : Options) (files : List FileReport) : List String :=
  if total files = 0 ∧ (failures files).length = 0 then []
  else ruleLines o files ++ [countLine o files] ++ failureLines o files

/-- Lines as a text, each ended by a line break. -/
def unlines (ls : List String) : String :=
  String.join (ls.map (· ++ "\n"))

end Report

end AndroidLint
