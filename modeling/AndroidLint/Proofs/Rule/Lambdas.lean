/-
Lambdas — what a lambda of an interface is judged by.

A lambda stands for the one method of its interface that is left to be
implemented.  The rule about what only Java may use takes the first method of
the interface for it.  Methods that bring a body may stand before it, though,
and then the lambda is judged by one of these: it comes out as it should only
if the two methods are marked alike, as far as the package leaves a
difference (`judge_lambda_iff_first`).
-/
import AndroidLint.Proofs.Rule.Calls
import AndroidLint.Proofs.Symbol.Build

namespace AndroidLint

open Code (SourceFile ClassDecl ClassId MethodDecl Lambda Language)
open AndroidLint.Symbol (Index Resolver TypeSymbol carried?)

namespace Rule

namespace Boundary

/-- What is said of a lambda that stands for a restricted method. -/
def lambdaFinding (l : Lambda) (reason : String) : Finding :=
  info.finding l.location (restrictionMessage "expressed as a lambda in Kotlin" reason) none

/-- `JudgedBy own package l verdict`: the lambda is judged by a method that is
restricted for the reason `own`, in a package that is for the reason
`package`.  The reason of the method is the one that is shown. -/
structure JudgedBy (own package : Option String) (l : Lambda) (verdict : Verdict) : Prop where
  reported : verdict.isFinding = true ↔ own.isSome = true ∨ package.isSome = true
  shown : ∀ reason, own = some reason → verdict = .ok (some (lambdaFinding l reason))

/-- `Agree first own package`: one gets the same judgement by a method that is
restricted for the reason `first` as by one that is for the reason `own`. -/
structure Agree (first own package : Option String) : Prop where
  spared : own = none → first.isSome = true → package.isSome = true
  alike : ∀ reason, own = some reason → ∃ other, first.or package = some other ∧
    restrictionMessage "expressed as a lambda in Kotlin" reason =
      restrictionMessage "expressed as a lambda in Kotlin" other

section Agreement

variable {first own package : Option String} {l : Lambda}

theorem lambdaFinding_inj {reason other : String} :
    lambdaFinding l reason = lambdaFinding l other ↔
      restrictionMessage "expressed as a lambda in Kotlin" reason =
        restrictionMessage "expressed as a lambda in Kotlin" other := by
  simp [lambdaFinding, Info.finding]

theorem isFinding_ok_map {α : Type} (a? : Option α) (finding : α → Finding) :
    Verdict.isFinding (.ok (a?.map finding)) = a?.isSome := by
  cases a? <;> rfl

theorem judgedBy_iff_agree :
    JudgedBy own package l
        (.ok ((first.or package).map (lambdaFinding l))) ↔
      Agree first own package := by
  constructor
  · rintro ⟨reported, shown⟩
    refine ⟨fun free restricted => ?_, fun reason given => ?_⟩
    · rw [isFinding_ok_map, Option.isSome_or, restricted, free] at reported
      exact (reported.mp rfl).resolve_left nofun
    · obtain ⟨other, found, same⟩ :=
        Option.map_eq_some_iff.mp (Except.ok.inj (shown reason given))
      exact ⟨other, found, lambdaFinding_inj.mp same.symm⟩
  · rintro ⟨spared, alike⟩
    refine ⟨?_, fun reason given => ?_⟩
    · rw [isFinding_ok_map, Option.isSome_or, Bool.or_eq_true]
      cases own with
      | none =>
          exact ⟨fun h => .inr (h.elim (spared rfl) fun h => h), fun h => .inr (h.resolve_left nofun)⟩
      | some reason =>
          obtain ⟨other, found, -⟩ := alike reason rfl
          refine ⟨fun _ => .inl rfl, fun _ => ?_⟩
          rw [← Bool.or_eq_true, ← Option.isSome_or, found]
          rfl
    · obtain ⟨other, found, same⟩ := alike reason given
      rw [found, Option.map_some, lambdaFinding_inj.mpr same]

/-- Every method agrees with itself. -/
theorem Agree.refl (own package : Option String) : Agree own own package where
  spared := fun none some => by simp [none] at some
  alike := fun reason given => ⟨reason, by rw [given]; rfl, rfl⟩

end Agreement

section Interfaces

variable {files : List SourceFile} {g : SourceFile} {i : ClassId} {c : ClassDecl}
  (mem : g ∈ files) (found : g.class? i = some c) (interface : c.kind = .interface)
  (once : (Index.declaredNames files).count c.qualifiedName = 1)
  {x : Context} (answers : x.resolver = (Index.build files).resolver)
  (unmarked : carried? (x.resolver.annotations g c.annotations) x.settings.javaOnly = none)

include mem found interface once answers unmarked in
/-- What an interface that is not restricted itself is judged by. -/
theorem judgeInterface_symbol (l : Lambda) :
    judgeInterface x l.location (Index.symbol (Index.knownIn files) g c i) =
      ((g.methods.toList.filter (·.class? == some i)).head?.bind fun m =>
        (reason? (x.resolver.annotations g m.annotations) x.settings.javaOnly).or
          ((packageOf? x.resolver c.qualifiedName).bind (packageRestriction? x))).map
        (lambdaFinding l) := by
  have named : c.isNamed := by simp [ClassDecl.isNamed, interface]
  have hfind := Index.find?_build_of_once mem found named once
  have reflects := Index.reflects_symbol (Index.knows_build files) g i c
  have marks := reflects.annotations
  -- only the first method is looked at, so the two lists are compared by their heads
  have hmethods := congrArg List.head? reflects.methods
  rw [← answers] at marks hmethods
  rw [List.head?_map, List.head?_map] at hmethods
  rw [judgeInterface, marks, unmarked]
  simp only
  cases hfirst : (g.methods.toList.filter (·.class? == some i)).head? with
  | none =>
      rw [hfirst, Option.map_none, Option.map_eq_none_iff] at hmethods
      rw [hmethods]
      rfl
  | some m =>
      rw [hfirst, Option.map_some] at hmethods
      obtain ⟨s, hs, same⟩ := Option.map_eq_some_iff.mp hmethods
      simp only [Prod.mk.injEq] at same
      obtain ⟨-, -, annotations⟩ := same
      have own : reason? (x.resolver.annotations g c.annotations) x.settings.javaOnly = none := by
        rw [reason?, unmarked, Option.map_none]
      rw [hs, Option.bind_some, Option.bind_some, memberRestriction?, TypeSymbol.member, annotations,
        reflects.name, congrArg Resolver.types answers, Index.resolver_types, hfind,
        Option.bind_some, marks, own, Option.orElse_eq_or, Option.orElse_eq_or, Option.none_or]
      rfl

end Interfaces

/-- **A lambda is judged by the first method.**  Take a Java interface that is
the only type of its name in the files and is not restricted itself, and a
lambda of it in a Kotlin file, not returned from a restricted method.  The
lambda is judged by the first method that the interface declares, and by its
package.  So it is judged by another method, such as the one that is left to be
implemented, exactly if that one agrees with the first. -/
theorem judge_lambda_iff_first {files : List SourceFile} {g : SourceFile} {i : ClassId}
    {c : ClassDecl} (mem : g ∈ files) (found : g.class? i = some c)
    (interface : c.kind = .interface)
    (once : (Index.declaredNames files).count c.qualifiedName = 1)
    {x : Context} (answers : x.resolver = (Index.build files).resolver)
    (unmarked : carried? (x.resolver.annotations g c.annotations) x.settings.javaOnly = none)
    {f : SourceFile} (source : x.source? = some f) (kotlin : f.language = .kotlin) {l : Lambda}
    (kept : isReturnedToJava x f l.inReturnPosition l.scope.method? = false)
    (converts : l.functionalInterface?.bind (x.resolver.typeName? f) = some c.qualifiedName) :
    let methods := g.methods.toList.filter (·.class? == some i)
    let own := fun m : MethodDecl =>
      reason? (x.resolver.annotations g m.annotations) x.settings.javaOnly
    let package := (packageOf? x.resolver c.qualifiedName).bind (packageRestriction? x)
    let verdict := languageBoundary.judge x (.lambda l)
    (methods = [] → verdict = pass) ∧
      ∀ first, methods.head? = some first →
        JudgedBy (own first) package l verdict ∧
          ∀ m ∈ methods, JudgedBy (own m) package l verdict ↔ Agree (own first) (own m) package := by
  intro methods own package verdict
  have named : c.isNamed := by simp [ClassDecl.isNamed, interface]
  have known : knownType? x f l.functionalInterface? =
      some (Index.symbol (Index.knownIn files) g c i) := by
    rw [knownType?, converts, Option.bind_some, answers, Index.resolver_types]
    exact Index.find?_build_of_once mem found named once
  have judged : verdict =
      .ok ((methods.head?.bind fun m => (own m).or package).map (lambdaFinding l)) := by
    simp only [verdict, languageBoundary, source, kotlin, if_true, judgeNode, judgeLambda, kept,
      Bool.false_eq_true, if_false, known, Option.bind_some]
    rw [judgeInterface_symbol mem found interface once answers unmarked]
  refine ⟨fun empty => ?_, fun first hfirst => ?_⟩
  · rw [judged, empty]
    rfl
  · rw [hfirst, Option.bind_some] at judged
    rw [judged]
    exact ⟨judgedBy_iff_agree.mpr (.refl _ _), fun m _ => judgedBy_iff_agree⟩

/-- An interface with some methods. -/
def taskFile (methods : String) : SourceFile :=
  Language.java.read ⟨"src/p/Task.java"⟩
    ("package p;\n\nimport com.uber.lintchecks.recipes.guardrails.JavaOnly;\n\n"
      ++ "interface Task \x7b\n" ++ methods ++ "\x7d\n")

/-- A lambda of that interface. -/
def startFile : SourceFile :=
  Language.kotlin.read ⟨"src/p/Start.kt"⟩ "package p\n\nval task: Task = Task \x7b \x7d\n"

/-- A method to be implemented that is restricted, and one with a body. -/
def runBeforeLog : String :=
  "  @JavaOnly(\"Use a class\") void run();\n  default void log() \x7b\x7d\n"

theorem judge_lambda_runBeforeLog :
    let g := taskFile runBeforeLog
    let x := contextIn [g, startFile] startFile
    ∃ m ∈ g.methods.toList, m.name = "run" ∧ ∃ l, startFile.lambdas[0]? = some l ∧
      languageBoundary.judge x (.lambda l) = .ok (some (lambdaFinding l "Use a class")) := by
  intro g x
  -- in one go, so that the texts are read once
  obtain ⟨declared, methods, lambda, kotlin⟩ :
      (g.class? 0).map (fun c => (c.qualifiedName, c.kind,
          (Index.declaredNames [g, startFile]).count c.qualifiedName,
          (carried? (x.resolver.annotations g c.annotations) x.settings.javaOnly).isNone)) =
        some ("p.Task", .interface, 1, true)
      ∧ (g.methods.toList.filter (·.class? == some 0)).head?.map (fun m => (m.name,
          reason? (x.resolver.annotations g m.annotations) x.settings.javaOnly)) =
        some ("run", some "Use a class")
      ∧ startFile.lambdas[0]?.map (fun l =>
          (isReturnedToJava x startFile l.inReturnPosition l.scope.method?,
            l.functionalInterface?.bind (x.resolver.typeName? startFile))) =
        some (false, some "p.Task")
      ∧ startFile.language = .kotlin := by
    decide +kernel
  obtain ⟨c, found, hc⟩ := Option.map_eq_some_iff.mp declared
  obtain ⟨m, first, hm⟩ := Option.map_eq_some_iff.mp methods
  obtain ⟨l, listed, hl⟩ := Option.map_eq_some_iff.mp lambda
  simp only [Prod.mk.injEq] at hc hm hl
  obtain ⟨name, interface, once, unmarked⟩ := hc
  have mem : g ∈ [g, startFile] := List.mem_cons_self
  have answers : x.resolver = (Index.build [g, startFile]).resolver := rfl
  have source : x.source? = some startFile := rfl
  obtain ⟨-, judged⟩ := judge_lambda_iff_first mem found interface once answers
    (Option.isNone_iff_eq_none.mp unmarked) source kotlin hl.1
    (hl.2.trans (congrArg some name.symm))
  refine ⟨m, (List.mem_filter.mp (List.mem_of_mem_head? first)).1, hm.1, l, listed, ?_⟩
  exact (judged m first).1.shown _ hm.2

/-- The same methods, the one with a body first. -/
def logBeforeRun : String :=
  "  default void log() \x7b\x7d\n  @JavaOnly(\"Use a class\") void run();\n"

/-- The only method to be implemented is restricted, and the lambda is not
reported. -/
theorem judge_lambda_logBeforeRun :
    let g := taskFile logBeforeRun
    let x := contextIn [g, startFile] startFile
    g.methods.toList.map (fun m => (m.name, m.modifiers,
        reason? (x.resolver.annotations g m.annotations) x.settings.javaOnly)) =
      [("log", "default", none), ("run", "@JavaOnly(\"Use a class\")", some "Use a class")]
    ∧ startFile.lambdas.toList.map (fun l =>
        (l.functionalInterface?.bind (x.resolver.typeName? startFile),
          languageBoundary.reports x (.lambda l))) =
      [(some "p.Task", false)] := by
  decide +kernel

end Boundary

end Rule

end AndroidLint
