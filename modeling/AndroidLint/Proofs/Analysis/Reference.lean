/-
Reference — what there is to find in a file, without any shortcut.

The reference offers every node of a file to every active rule, whether or
not the rule asks for its kind.  A rule finds something, finds nothing or
fails; what is silenced where it was found is left out, the rest is graded
and listed by line, column and rule.

An analysis goes another way: it looks up the rules for a node by what
they ask for.  Both reports are the same.  At a node this is so because
the rules that are looked up are the active rules that ask for it
(`rulesFor_eq_filter`) and the others have nothing to say there; over a
file it follows node by node.
-/
import Mathlib.Data.Prod.Lex
import Mathlib.Data.String.Basic
import AndroidLint.Analysis.Dispatch
import AndroidLint.Proofs.Analysis.Catalog
import AndroidLint.Proofs.Rule.Replies
import AndroidLint.Proofs.StableSort

namespace AndroidLint

open Code (SourceFile)
open Rule (Node Context)

/-! ## The reference -/

namespace Reference

/-- The nodes of a source file below the file itself, list by list; the
class that stands for its top level is no node. -/
def listed (f : SourceFile) : List Node :=
  f.imports.toList.map .imported
    ++ (f.classes.toList.filter (·.kind ≠ .facade)).map .type
    ++ f.methods.toList.map .method
    ++ f.calls.toList.map .call
    ++ f.references.toList.map .reference
    ++ f.lambdas.toList.map .lambda

/-- The nodes of a file: those of a source file by where they start, those
of a resource file element by element. -/
def nodes : ParsedFile → List Node
  | .source f => .file f :: sortBy (·.location.startByte) (listed f)
  | .resource d => d.elements.toList.zipIdx.flatMap fun (e, index) =>
      .element d index e :: e.attributes.map (.attribute d index)

/-- Whether a rule is active: on by default or turned on, and not turned
off. -/
def IsActive (s : Selection) (r : Rule) : Prop :=
  (r.info.onByDefault = true ∨ "all" ∈ s.enable ∨ r.id ∈ s.enable) ∧ r.id ∉ s.disable

instance (s : Selection) (r : Rule) : Decidable (IsActive s r) :=
  inferInstanceAs (Decidable (_ ∧ _))

/-- The active rules, in catalog order. -/
def active (s : Selection) : List Rule :=
  Rule.all.filter (IsActive s ·)

/-- Every node of a file with every active rule. -/
def offers (s : Selection) (file : ParsedFile) : List (Node × Rule) :=
  (nodes file).flatMap fun n => (active s).map (n, ·)

/-- How serious a rule is: as set, or else its own severity. -/
def severity (s : Selection) (r : Rule) : Severity :=
  (s.severities.lookup r.id).getD r.info.severity

/-- What a rule finds at a node that it is offered, unless it is silenced
there. -/
def finding? (s : Selection) (x : Context) (offer : Node × Rule) : Option Finding :=
  match offer.2.judge x offer.1 with
  | .ok (some f) =>
      if Suppression.isSilenced x offer.1 offer.2.id then none
      else some { f with severity := severity s offer.2 }
  | _ => none

/-- The failure of a rule at a node that it is offered. -/
def failure? (x : Context) (offer : Node × Rule) : Option Rule.Failure :=
  match offer.2.judge x offer.1 with
  | .error e => some e
  | .ok _ => none

/-- Where a finding stands in the report of its file. -/
def rank (f : Finding) : Nat ×ₗ Nat ×ₗ String :=
  toLex (f.location.line, toLex (f.location.column, f.ruleId))

/-- The report on a file. -/
def report (s : Selection) (x : Context) (file : ParsedFile) : FileReport :=
  { path := file.path
    findings := sortBy rank ((offers s file).filterMap (finding? s x))
    failures := (offers s file).filterMap (failure? x) }

end Reference

/-! ## Node by node -/

section Equal

variable {s : Selection}

theorem rules_ofSelection (s : Selection) : (Catalog.ofSelection s).rules = Reference.active s := by
  refine List.filter_congr fun r _ => ?_
  rw [Bool.eq_iff_iff, decide_eq_true_iff]
  simp only [Selection.activates, Selection.turnsOn, Reference.IsActive, Bool.and_eq_true,
    Bool.or_eq_true, Bool.not_eq_true', List.contains_eq_mem, decide_eq_true_eq,
    decide_eq_false_iff_not]
  rw [or_comm (a := "all" ∈ s.enable), or_assoc]

theorem rulesFor_ofSelection (s : Selection) (k : Rule.NodeKind) :
    (Catalog.ofSelection s).rulesFor k = (Reference.active s).filter (·.asksFor k) := by
  rw [Catalog.rulesFor_eq_filter ?_ k, rules_ofSelection]
  intro r mem
  exact Rule.nodup_kinds_of_mem_all (List.mem_filter.mp mem).1

/-- A rule that does not ask for a node finds nothing there, and does not
fail. -/
theorem pass_of_not_asked {r : Rule} (mem : r ∈ Reference.active s) (x : Context) {n : Node}
    (other : r.asksFor n.kind = false) :
    Reference.finding? s x (n, r) = none ∧ Reference.failure? x (n, r) = none := by
  have hpass : r.judge x n = Rule.pass :=
    Rule.judge_eq_pass (List.mem_filter.mp mem).1 other
  simp only [Reference.finding?, Reference.failure?, hpass]
  exact ⟨rfl, rfl⟩

theorem found_outcome (x : Context) (n : Node) (r : Rule) :
    Analysis.found (Analysis.outcome (.ofSelection s) x n r) =
      (Reference.finding? s x (n, r)).toList := by
  rw [Analysis.outcome, Reference.finding?]
  cases r.judge x n with
  | error e => rfl
  | ok found? =>
      cases found? with
      | none => rfl
      | some f =>
          simp only [Analysis.found, Analysis.graded, Catalog.severityOf_eq]
          split <;> rfl

theorem failure?_outcome (x : Context) (n : Node) (r : Rule) :
    Analysis.failure? (Analysis.outcome (.ofSelection s) x n r) =
      Reference.failure? x (n, r) := by
  rw [Analysis.outcome, Reference.failure?]
  cases r.judge x n with
  | error e => rfl
  | ok found? => cases found? <;> rfl

/-- Offering a node to the rules that ask for it is as good as offering it
to all. -/
theorem filterMap_filter_asksFor {β : Type} {n : Node} {rules : List Rule} {g : Rule → Option β}
    (pass : ∀ r ∈ rules, r.asksFor n.kind = false → g r = none) :
    (rules.filter (·.asksFor n.kind)).filterMap g = rules.filterMap g := by
  rw [List.filterMap_filter]
  refine List.filterMap_congr fun r mem => ?_
  cases h : r.asksFor n.kind with
  | true => rfl
  | false => exact (pass r mem h).symm

theorem found_outcomesAt (s : Selection) (x : Context) (n : Node) :
    (Analysis.outcomesAt (.ofSelection s) x n).flatMap Analysis.found =
      ((Reference.active s).map (n, ·)).filterMap (Reference.finding? s x) := by
  have hrules : ∀ rules : List Rule,
      (rules.map (Analysis.outcome (.ofSelection s) x n)).flatMap Analysis.found =
        rules.filterMap fun r => Reference.finding? s x (n, r) := by
    intro rules
    rw [List.flatMap_map, List.filterMap_eq_flatMap_toList]
    exact List.flatMap_congr fun r _ => found_outcome x n r
  rw [Analysis.outcomesAt, rulesFor_ofSelection, hrules, List.filterMap_map]
  exact filterMap_filter_asksFor fun r mem other => (pass_of_not_asked mem x other).1

theorem failures_outcomesAt (s : Selection) (x : Context) (n : Node) :
    (Analysis.outcomesAt (.ofSelection s) x n).filterMap Analysis.failure? =
      ((Reference.active s).map (n, ·)).filterMap (Reference.failure? x) := by
  have hrules : ∀ rules : List Rule,
      (rules.map (Analysis.outcome (.ofSelection s) x n)).filterMap Analysis.failure? =
        rules.filterMap fun r => Reference.failure? x (n, r) := by
    intro rules
    rw [List.filterMap_map]
    exact List.filterMap_congr fun r _ => failure?_outcome x n r
  rw [Analysis.outcomesAt, rulesFor_ofSelection, hrules, List.filterMap_map]
  exact filterMap_filter_asksFor fun r mem other => (pass_of_not_asked mem x other).2

/-! ## File by file -/

theorem nodes_eq_reference (file : ParsedFile) : file.nodes = Reference.nodes file := by
  cases file with
  | source f =>
      have hlisted : ParsedFile.listed f false = Reference.listed f := by
        have hkind : ∀ c : Code.ClassDecl,
            (false || c.kind != .facade) = decide (c.kind ≠ .facade) := by
          intro c
          cases c.kind <;> rfl
        rw [ParsedFile.listed, funext hkind, Reference.listed]
      have hsorted : ParsedFile.sorted (Reference.listed f) =
          sortBy (·.location.startByte) (Reference.listed f) :=
        mergeSort_eq_sortBy (fun a b => decide_eq_true_iff) _
      rw [ParsedFile.nodes, hlisted, hsorted, Reference.nodes]
  | resource d =>
      rw [ParsedFile.nodes, ParsedFile.documentNodes, ← List.flatMap_def, Reference.nodes]
      rfl

theorem found_nodes (s : Selection) (x : Context) (file : ParsedFile) :
    (file.nodes.flatMap (Analysis.outcomesAt (.ofSelection s) x)).flatMap Analysis.found =
      (Reference.offers s file).filterMap (Reference.finding? s x) := by
  rw [List.flatMap_assoc, nodes_eq_reference, Reference.offers, List.filterMap_flatMap]
  exact List.flatMap_congr fun n _ => found_outcomesAt s x n

theorem failures_nodes (s : Selection) (x : Context) (file : ParsedFile) :
    (file.nodes.flatMap (Analysis.outcomesAt (.ofSelection s) x)).filterMap Analysis.failure? =
      (Reference.offers s file).filterMap (Reference.failure? x) := by
  rw [List.filterMap_flatMap, nodes_eq_reference, Reference.offers, List.filterMap_flatMap]
  exact List.flatMap_congr fun n _ => failures_outcomesAt s x n

theorem noLater_iff (a b : Finding) :
    Analysis.noLater a b = true ↔ Reference.rank a ≤ Reference.rank b := by
  have hid : (compare a.ruleId b.ruleId).isLE = true ↔ a.ruleId ≤ b.ruleId := by
    rw [← Ordering.ne_gt_iff_isLE]
    exact compare_le_iff_le
  rw [Analysis.noLater, Reference.rank, Reference.rank, Prod.Lex.toLex_le_toLex,
    Prod.Lex.toLex_le_toLex, Ordering.isLE_then_iff_or, Ordering.then_eq_lt, Ordering.then_eq_eq,
    Nat.compare_eq_lt, Nat.compare_eq_lt, Nat.compare_eq_eq, Nat.compare_eq_eq, hid]
  show _ ↔ _ ∨ _ ∧ (_ ∨ _ ∧ _)
  tauto

end Equal

/-- **An analysis finds what there is to find.**  For every selection of
rules, every file and whatever is consulted about it, the report is that
of the reference: no finding is lost or added, none is out of its place,
and a failure takes nothing away beside itself. -/
theorem reportOn_eq_reference (s : Selection) (settings : Rule.Settings)
    (resolver : Symbol.Resolver) (presence : Resource.Presence) (file : ParsedFile) :
    Analysis.reportOn ⟨.ofSelection s, settings, resolver, presence⟩ file =
      Reference.report s ⟨settings, resolver, presence, file.surroundings⟩ file := by
  rw [Analysis.reportOn, Analysis.outcomes, Analysis.context, found_nodes, failures_nodes,
    mergeSort_eq_sortBy noLater_iff, Reference.report]

end AndroidLint
