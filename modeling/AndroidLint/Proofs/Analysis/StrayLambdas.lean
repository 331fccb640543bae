/-
StrayLambdas — which files an analysis fails on.

An analysis fails in a source file once for each stray lambda of its tree,
unless the rule about newer libraries is left out, and on nothing else.
So what stands at the top of a file decides: where headers, classes,
functions and properties are all there is, nothing fails.

A getter on a line of its own is no part of the property before it.  At the
top of a file that leaves its lambdas outside every class
(`getter_failures`).
-/
import AndroidLint.Proofs.Analysis.Selection
import AndroidLint.Proofs.Code.Stray

namespace AndroidLint

open Code (SourceFile Language Lambda Origin)
open Rule (Node Failure newerInfo strayLambda)

theorem lambda_mem_nodes_iff {f : SourceFile} {l : Lambda} :
    Node.lambda l ∈ Reference.nodes (.source f) ↔ l ∈ f.lambdas := by
  simp [Reference.nodes, Reference.listed, mem_sortBy]

/-- The failures in a source file. -/
theorem mem_failures_iff (a : Analysis) (s : Selection) (f : SourceFile) (e : Failure) :
    e ∈ ((a.selecting s).reportOn (.source f)).failures ↔
      newerInfo.id ∉ s.disable ∧
        ∃ l ∈ f.lambdas, l.scope.class?.bind f.class? = none ∧ e = strayLambda l := by
  have asked : (a.context (.source f)).source? = some f := rfl
  rw [reportOn_selecting, List.mem_filterMap]
  constructor
  · rintro ⟨⟨n, r⟩, offered, failed⟩
    obtain ⟨hall, hactive⟩ := mem_all_of_offered offered
    have failed : r.judge (a.context (.source f)) n = .error e := by
      rw [Reference.failure?] at failed
      split at failed
      case h_1 e' hjudge => rw [hjudge, Option.some.inj failed]
      case h_2 => cases failed
    obtain ⟨rfl, f', l, hsource, rfl, outside, he⟩ := (Rule.judge_eq_error_iff hall).mp failed
    obtain rfl := Option.some.inj (asked.symm.trans hsource)
    obtain ⟨n', mem, hn⟩ := List.mem_flatMap.mp offered
    obtain ⟨r, -, hpair⟩ := List.mem_map.mp hn
    obtain ⟨rfl, -⟩ := Prod.mk.inj hpair
    exact ⟨hactive.2, l, lambda_mem_nodes_iff.mp mem, outside, he⟩
  · rintro ⟨active, l, mem, outside, he⟩
    have hall : Rule.unsupportedJava8Api ∈ Rule.all := by simp [Rule.all]
    refine ⟨(.lambda l, Rule.unsupportedJava8Api), ?_, ?_⟩
    · refine List.mem_flatMap.mpr ⟨_, lambda_mem_nodes_iff.mpr mem, List.mem_map.mpr ⟨_, ?_, rfl⟩⟩
      exact List.mem_filter.mpr ⟨hall, decide_eq_true ⟨.inl rfl, active⟩⟩
    · rw [Reference.failure?,
        (Rule.judge_eq_error_iff hall).mpr ⟨rfl, f, l, asked, rfl, outside, he⟩]

/-- In a well-scoped file these are the lambdas that name no class. -/
theorem mem_failures_iff_loose (a : Analysis) (s : Selection) {f : SourceFile}
    (well : f.WellScoped) (e : Failure) :
    e ∈ ((a.selecting s).reportOn (.source f)).failures ↔
      newerInfo.id ∉ s.disable ∧ ∃ p, f.Loose p ∧
        e = ⟨newerInfo.id, s!"lambda at {p.file.text}:{p.line} has no enclosing class"⟩ := by
  rw [mem_failures_iff]
  refine and_congr_right fun _ => ?_
  constructor
  · rintro ⟨l, mem, outside, rfl⟩
    refine ⟨l.location, ⟨l, mem, ?_, rfl⟩, rfl⟩
    have held : f.Holds l.scope := well.holds _ (SourceFile.mem_scopes_of_lambda mem)
    cases hclass : l.scope.class? with
    | none => rfl
    | some c =>
        obtain ⟨d, found⟩ := held.class? c hclass
        rw [hclass, Option.bind_some, found] at outside
        cases outside
  · rintro ⟨p, ⟨l, mem, hclass, rfl⟩, rfl⟩
    exact ⟨l, mem, by rw [hclass, Option.bind_none], rfl⟩

/-- `FailsOnStrays a s l o t f`: in the file `f` there is a failure for each stray
lambda of the tree `t`, with the line of the lambda, unless the rule about newer
libraries is left out, and there is no other failure.  There is none if all that
stands at the top of the tree are headers, classes, functions and properties,
and nodes that hold nothing. -/
structure FailsOnStrays (a : Analysis) (s : Selection) (l : Language) (o : Origin)
    (t : Syntax.Tree) (f : SourceFile) : Prop where
  failures : ∀ e, e ∈ ((a.selecting s).reportOn (.source f)).failures ↔
    "UnsupportedJava8Api" ∉ s.disable ∧ ∃ u, l.Stray t u ∧
      let line := (LineColumn.ofOffset o.text u.span.start).line
      e = ⟨"UnsupportedJava8Api", s!"lambda at {o.path.text}:{line} has no enclosing class"⟩
  sheltered : t.isKind .file = true →
    (∀ u ∈ t.children, l.shelters u = true ∨ (u.children = [] ∧ l.isLambda u = false)) →
      ((a.selecting s).reportOn (.source f)).failures = []

theorem failsOnStrays_ofTree (a : Analysis) (s : Selection) (l : Language) (o : Origin)
    (t : Syntax.Tree) : FailsOnStrays a s l o t (.ofTree l o t) := by
  have failures (e : Failure) : e ∈ ((a.selecting s).reportOn (.source (.ofTree l o t))).failures ↔
      newerInfo.id ∉ s.disable ∧ ∃ u, l.Stray t u ∧
        let line := (LineColumn.ofOffset o.text u.span.start).line
        e = ⟨newerInfo.id, s!"lambda at {o.path.text}:{line} has no enclosing class"⟩ := by
    rw [mem_failures_iff_loose a s (SourceFile.wellScoped_ofTree l o t) e]
    simp only [Code.loose_ofTree]
    refine and_congr_right fun _ => ⟨?_, ?_⟩
    · rintro ⟨_, ⟨u, stray, rfl⟩, rfl⟩
      exact ⟨u, stray, rfl⟩
    · rintro ⟨u, stray, rfl⟩
      exact ⟨_, ⟨u, stray, rfl⟩, rfl⟩
  refine ⟨failures, fun file top => List.eq_nil_iff_forall_not_mem.mpr fun e mem => ?_⟩
  obtain ⟨-, u, stray, -⟩ := (failures e).mp mem
  exact Language.not_stray_of_top file top stray

/-- **Stray lambdas are what an analysis fails on.**  In the file that is made of
any tree, wherever the tree comes from, the failures are the stray lambdas of the
tree; and so they are in the file that is read from any text with a tree. -/
theorem failures_iff_stray (a : Analysis) (s : Selection) (l : Language) :
    (∀ o t, FailsOnStrays a s l o t (.ofTree l o t)) ∧
      ∀ (path : FilePath) (text : String) (t : Syntax.Tree),
        l.grammar.parse? text.toList = some t →
          FailsOnStrays a s l ⟨path, text.toList⟩ t (l.read path text) := by
  have made := failsOnStrays_ofTree a s l
  refine ⟨made, fun path text t parsed => ?_⟩
  rw [Language.read]
  simp only [parsed]
  exact made ⟨path, text.toList⟩ t

/-- The path of a Kotlin file. -/
def kotlinPath : FilePath :=
  ⟨"src/A.kt"⟩

/-- A file with a lambda in a property and one in a class. -/
def shelteredText : String :=
  "package a\n\nval f = \x7b 1 \x7d\n\nclass A \x7b\n  val g = \x7b 2 \x7d\n\x7d\n"

theorem failures_iff_stray_shelteredText :
    (Language.kotlin.read kotlinPath shelteredText).lambdas.size = 2 ∧
      ∃ t, Language.kotlin.grammar.parse? shelteredText.toList = some t ∧
        (∀ e, e ∈ ((aloneAnalysis.selecting .none).reportOn
            (.source (Language.kotlin.read kotlinPath shelteredText))).failures ↔
          "UnsupportedJava8Api" ∉ Selection.none.disable ∧ ∃ u, Language.kotlin.Stray t u ∧
            let line := (LineColumn.ofOffset shelteredText.toList u.span.start).line
            e = ⟨"UnsupportedJava8Api",
              s!"lambda at {kotlinPath.text}:{line} has no enclosing class"⟩) ∧
        ((aloneAnalysis.selecting .none).reportOn
          (.source (Language.kotlin.read kotlinPath shelteredText))).failures = [] := by
  refine ⟨by decide +kernel, ?_⟩
  have top : (Language.kotlin.grammar.parse? shelteredText.toList).any (fun t =>
      t.isKind .file && t.children.all fun u =>
        Language.kotlin.shelters u ||
          (u.children.isEmpty && !Language.kotlin.isLambda u)) = true := by
    decide +kernel
  cases hparse : Language.kotlin.grammar.parse? shelteredText.toList with
  | none =>
      rw [hparse] at top
      cases top
  | some t =>
      rw [hparse, Option.any_some, Bool.and_eq_true, List.all_eq_true] at top
      obtain ⟨file, top⟩ := top
      obtain ⟨failures, sheltered⟩ :=
        (failures_iff_stray aloneAnalysis .none .kotlin).2 kotlinPath shelteredText t hparse
      refine ⟨t, rfl, failures, sheltered file fun u mem => ?_⟩
      simpa using top u mem

/-- A property with its getter on a line of its own. -/
def getterText : String :=
  "val x: Int\n  get() = run \x7b 1 \x7d\n"

/-- The lambda in the getter lies in no class, and the analysis fails on it. -/
theorem getter_failures :
    ((aloneAnalysis.selecting .none).reportOn
        (.source (Language.kotlin.read kotlinPath getterText))).failures.map (·.text) =
      ["UnsupportedJava8Api: lambda at src/A.kt:2 has no enclosing class"] := by
  rw [reportOn_selecting]
  decide +kernel

end AndroidLint
