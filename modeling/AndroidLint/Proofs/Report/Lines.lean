/-
Lines — how many lines the listing by line has.

A line ends with its line feed, so lines are counted by their ends.  The line
for a finding has one end of its own and those of what it repeats: of the path
as it is shown and of the message.  Neither the colors nor the numbers, the
severity and the rule add any.

The message has none unless it repeats a text of the project that has some
(`Rule.oneLine_judge_iff`), and then it has them all: nothing folds what the
boundary between the languages puts into its messages.
-/
import Mathlib.Algebra.GroupWithZero.Nat
import AndroidLint.Proofs.Analysis.Selection
import AndroidLint.Proofs.Except
import AndroidLint.Proofs.Rule.Calls
import AndroidLint.Proofs.Rule.Wording
import AndroidLint.Report.Listing

namespace AndroidLint

/-! ## Line feeds -/

/-- How many lines end in a text. -/
def lineEnds (s : String) : Nat :=
  s.toList.count '\n'

@[simp]
theorem lineEnds_append (s t : String) : lineEnds (s ++ t) = lineEnds s + lineEnds t := by
  rw [lineEnds, String.toList_append, List.count_append]
  rfl

@[simp]
theorem lineEnds_toString (s : String) : lineEnds (toString s) = lineEnds s :=
  rfl

/-- In one line, no line ends. -/
theorem OneLine.lineEnds {s : String} (line : OneLine s) : lineEnds s = 0 := by
  refine List.count_eq_zero.mpr fun mem => ?_
  exact absurd (line '\n' mem) (by decide)

theorem oneLine_toString_nat (n : Nat) : OneLine (toString n) := by
  intro c mem
  rw [Nat.toString_eq_ofList_toDigits, String.toList_ofList] at mem
  have digit := Nat.isDigit_of_mem_toDigits (by decide) (by decide) mem
  rw [Char.isDigit_iff_toNat] at digit
  rw [← Bool.not_eq_true, isLineBreak, List.contains_iff_mem]
  simp only [List.mem_cons, List.not_mem_nil, or_false]
  have zero : '0'.toNat = 48 := rfl
  have nine : '9'.toNat = 57 := rfl
  omega

namespace Report

/-- Each line of a listing ends once more than it does by itself. -/
theorem lineEnds_unlines (ls : List String) :
    lineEnds (unlines ls) = (ls.map fun l => 1 + lineEnds l).sum := by
  induction ls with
  | nil => rfl
  | cons l ls ih =>
      rw [unlines] at ih ⊢
      rw [List.map_cons, String.join_cons, lineEnds_append, ih, lineEnds_append, List.map_cons,
        List.sum_cons, Nat.add_comm 1]
      rfl

/-- What stands between the parts of a line for a finding is a line, and so are
the names of the severities. -/
@[simp]
theorem oneLine_signs :
    OneLine "" ∧ OneLine ";" ∧ OneLine "\x1b[" ∧ OneLine ":" ∧ OneLine " [" ∧ OneLine "[" ∧
      OneLine "] " ∧ OneLine "error" ∧ OneLine "warning" ∧ OneLine "info" := by
  decide +kernel

/-! ## Colors -/

theorem oneLine_code (i : Ink) : OneLine (String.ofList i.code) := by
  have codes : OneLine (";".intercalate (i.codes.map toString)) := by
    refine oneLine_intercalate (by simp) fun part mem => ?_
    obtain ⟨n, -, rfl⟩ := List.mem_map.mp mem
    exact oneLine_toString_nat n
  have opening : OneLine "\x1b[" := by simp
  rw [OneLine, String.toList_ofList, Ink.code]
  simp only [List.forall_mem_append, List.forall_mem_singleton]
  exact ⟨⟨opening, codes⟩, by decide⟩

/-- What is put in after each end of a coloring has no line ends of its own. -/
theorem count_resumed {code : List Char} (line : code.count '\n' = 0) (skip : Nat)
    (cs : List Char) : (resumed code skip cs).count '\n' = cs.count '\n' := by
  fun_induction resumed code skip cs with
  | case1 => rfl
  | case2 c r ends ih => rw [List.count_cons, List.count_cons, ih]
  | case3 c r _ ih => rw [List.count_cons, List.count_cons, ih]
  | case4 c r ih => rw [List.count_cons, List.count_append, line, ih, Nat.zero_add, List.count_cons]
  | case5 n c r ih => rw [List.count_cons, List.count_cons, ih]

/-- A text in an ink has the line ends of the text. -/
@[simp]
theorem lineEnds_painted (colored : Bool) (i : Ink) (text : String) :
    lineEnds (painted colored i text) = lineEnds text := by
  have code : i.code.count '\n' = 0 := by
    simpa [lineEnds] using (oneLine_code i).lineEnds
  have plain : plainCode.count '\n' = 0 := by decide
  rw [painted]
  split
  · rw [lineEnds, String.toList_ofList, List.count_append, List.count_append, code, plain,
      count_resumed code, Nat.zero_add, Nat.add_zero]
    rfl
  · rfl

/-! ## The listing by line -/

theorem oneLine_severity_name (s : Severity) : OneLine s.name := by
  cases s <;> simp [Severity.name]

/-- The ends in the line for a finding: those of its path, its rule and its
message. -/
theorem lineEnds_compactLine (o : Options) (f : Finding) :
    lineEnds (compactLine o f) =
      lineEnds (o.shown f.location.file) + lineEnds f.ruleId + lineEnds f.message := by
  have lines : ∀ s ∈ ["", ":", ": ", " ", " [", "[", "] "], OneLine s := by simp
  have fixed := fun s mem => (lines s mem).lineEnds
  simp only [List.forall_mem_cons] at fixed
  have number (n : Nat) : lineEnds n.repr = 0 := (oneLine_toString_nat n).lineEnds
  have severity : lineEnds f.severity.name = 0 := (oneLine_severity_name _).lineEnds
  unfold compactLine
  simp [Options.paint, fixed, number, severity, Nat.add_assoc]

/-- The lines of the listing: for each finding one, and those that end in its
path and its message. -/
theorem lineEnds_compact (o : Options) (a : Analysis) (s : Selection) (files : List ParsedFile) :
    lineEnds (unlines (compact o ((a.selecting s).run files))) =
      ((findings ((a.selecting s).run files)).map fun f =>
        1 + lineEnds (o.shown f.location.file) + lineEnds f.message).sum := by
  have ids : ∀ r ∈ Rule.all, OneLine r.id := by decide +kernel
  have sorted := List.mergeSort_perm (findings ((a.selecting s).run files)) placedNoLater
  rw [lineEnds_unlines, compact, List.map_map, (sorted.map _).sum_nat]
  refine congrArg List.sum (List.map_congr_left fun f mem => ?_)
  obtain ⟨report, hreport, found⟩ := List.mem_flatMap.mp mem
  obtain ⟨file, -, rfl⟩ := List.mem_map.mp hreport
  obtain ⟨r, hall, id, -⟩ := of_mem_findings a found
  have rule : lineEnds f.ruleId = 0 := id ▸ (ids r hall).lineEnds
  rw [Function.comp_apply, lineEnds_compactLine, rule, Nat.add_zero, Nat.add_assoc]

end Report

/-- **A finding is told in one line if what it repeats is.**  Where the names
of the two annotations are lines, the message of whatever a rule of the catalog
finds at a node is one line exactly if the texts of the project that it repeats
are.  In the listing by line, however it is colored, every finding has one line
and those that end in its path, as it is shown, and in its message. -/
theorem message_oneLine_iff {x : Rule.Context} (javaOnly : OneLine x.settings.javaOnly)
    (kotlinOnly : OneLine x.settings.kotlinOnly) :
    (∀ r ∈ Rule.all, ∀ (n : Rule.Node) (f : Finding), r.judge x n = .ok (some f) →
      (OneLine f.message ↔ ∀ t ∈ r.repeated x n, OneLine t)) ∧
    ∀ (o : Report.Options) (a : Analysis) (s : Selection) (files : List ParsedFile),
      lineEnds (Report.unlines (Report.compact o ((a.selecting s).run files))) =
        ((Report.findings ((a.selecting s).run files)).map fun f =>
          1 + lineEnds (o.shown f.location.file) + lineEnds f.message).sum :=
  ⟨fun _ mem _ _ found => Rule.oneLine_judge_iff mem javaOnly kotlinOnly found,
    Report.lineEnds_compact⟩

/-- A function that is restricted to Java for a reason, and a call of it. -/
def restrictedText (reason : String) : String :=
  "@com.uber.lintchecks.recipes.guardrails.JavaOnly(\"\"\"" ++ reason
    ++ "\"\"\")\nfun create() \x7b\x7d\n\nfun start() = create()\n"

theorem message_oneLine_shortReason :
    let f := Code.Language.kotlin.read ⟨"src/A.kt"⟩ (restrictedText "Use build()")
    let x := Rule.contextIn [f] f
    OneLine x.settings.javaOnly ∧ OneLine x.settings.kotlinOnly ∧
      (∃ n found, Rule.languageBoundary.judge x n = .ok (some found) ∧
        (∀ t ∈ Rule.languageBoundary.repeated x n, OneLine t) ∧ OneLine found.message) ∧
      lineEnds (Report.unlines (Report.compact ⟨true, none, none⟩
          ((aloneAnalysis.selecting .none).run [imageLayout]))) =
        ((Report.findings ((aloneAnalysis.selecting .none).run [imageLayout])).map fun found =>
          1 + lineEnds (Report.Options.shown ⟨true, none, none⟩ found.location.file)
            + lineEnds found.message).sum := by
  intro f x
  have javaOnly : OneLine x.settings.javaOnly := by decide +kernel
  have kotlinOnly : OneLine x.settings.kotlinOnly := by decide +kernel
  -- in one go, so that the text is read once
  have called : f.calls.toList.map (fun c =>
      ((Rule.languageBoundary.judge x (.call c)).toOption.join.isSome,
        decide (∀ t ∈ Rule.languageBoundary.repeated x (.call c), OneLine t))) =
      [(true, true)] := by
    decide +kernel
  obtain ⟨c, -, judged⟩ := List.mem_map.mp (called ▸ List.mem_singleton_self _)
  obtain ⟨reported, lines⟩ := Prod.mk.inj judged
  obtain ⟨found, hfound⟩ := Option.isSome_iff_exists.mp reported
  have judged : Rule.languageBoundary.judge x (.call c) = .ok (some found) :=
    eq_ok_of_toOption_eq_some (Option.join_eq_some_iff.mp hfound)
  have repeated := of_decide_eq_true lines
  obtain ⟨messages, listing⟩ := message_oneLine_iff javaOnly kotlinOnly
  exact ⟨javaOnly, kotlinOnly, ⟨.call c, found, judged, repeated,
    (messages _ (by simp [Rule.all]) _ _ judged).mpr repeated⟩, listing _ _ _ _⟩

/-- A reason of two lines makes the message two lines, and so the line for the
finding. -/
theorem message_repeats_lines :
    let f := Code.Language.kotlin.read ⟨"src/A.kt"⟩ (restrictedText "Use\nbuild()")
    let x := Rule.contextIn [f] f
    OneLine x.settings.javaOnly ∧ OneLine x.settings.kotlinOnly ∧
      f.calls.toList.map (fun c =>
        (Rule.languageBoundary.judge x (.call c)).toOption.join.map fun found =>
          (found.message, found.location.file.text,
            lineEnds (Report.unlines [Report.compactLine ⟨false, none, none⟩ found]))) =
        [some ("This method should not be called from Kotlin: Use\nbuild()", "src/A.kt", 2)] := by
  intro f x
  exact ⟨by decide +kernel, by decide +kernel, by decide +kernel⟩

end AndroidLint
