/-
Unresolved — what is not understood is not reported.

The resolver does not always know where a call goes or what a reference
points at.  The rules that look at calls and references take no answer for
"does not apply" and pass.  One of them has a second way to fire: the rule
for the case of strings also asks for the type of what the call is made on,
and that can be known where the member is not.

`judge_unresolved` says exactly when that happens.  It is put together from
the rules one by one (`ignoresUnresolved_of_mem_all`); the condition of the
exception is `changesCase_of_unresolved`.
-/
import AndroidLint.Proofs.Analysis.Catalog
import AndroidLint.Proofs.Rule.Calls
import AndroidLint.Proofs.Rule.Replies

namespace AndroidLint

open Code (SourceFile Call MemberReference Language)

namespace Rule

/-! ## Calls -/

/-- `IgnoresUnresolved r`: the rule `r` passes on calls of which it is not
known where they go. -/
def IgnoresUnresolved (r : Rule) : Prop :=
  ∀ x c, x.call? c = none → r.judge x (.call c) = pass

/-- A rule that does not look at calls ignores those too. -/
theorem ignoresUnresolved_of_not_asked {r : Rule} (mem : r ∈ all)
    (other : r.asksFor .call = false) : IgnoresUnresolved r := by
  intro x c _
  exact judge_eq_pass mem other

theorem callOf_of_unresolved {x : Context} {c : Call} (unresolved : x.call? c = none)
    (names owners : List String) : callOf names owners x c = false := by
  rw [callOf, unresolved, Bool.and_false]

theorem reportIf_false (info : Info) (location : Location) (message : String) (fix : Option Fix) :
    info.reportIf false location message fix = pass :=
  rfl

theorem ignoresUnresolved_ruleForCalls (info : Info) (names owners : List String)
    (message : String) (fix : Option Fix) :
    IgnoresUnresolved (ruleForCalls info names owners message fix) := by
  intro x c unresolved
  dsimp only [ruleForCalls]
  rw [callOf_of_unresolved unresolved, reportIf_false]

theorem ignoresUnresolved_stringFormatNoLocale : IgnoresUnresolved stringFormatNoLocale := by
  intro x c unresolved
  dsimp only [stringFormatNoLocale]
  rw [formatsWithoutLocale, callOf_of_unresolved unresolved, Bool.false_and, reportIf_false]

theorem ignoresUnresolved_unsupportedJava8Api : IgnoresUnresolved unsupportedJava8Api := by
  intro x c unresolved
  dsimp only [unsupportedJava8Api]
  rw [callsNewerMember, unresolved, Option.any_none, Bool.and_false, reportIf_false]

theorem judgeUse_none (x : Context) (location : Location) :
    Boundary.judgeUse x location none = none :=
  rfl

theorem ignoresUnresolved_languageBoundary : IgnoresUnresolved languageBoundary := by
  intro x c unresolved
  dsimp only [languageBoundary]
  split
  case h_1 f source =>
    rw [Context.call?_of_source source] at unresolved
    rw [Boundary.judgeNode, unresolved, judgeUse_none, ite_self]
    rfl
  case h_2 => rfl

/-- All rules but the one for the case of strings ignore calls that are not
understood. -/
theorem ignoresUnresolved_of_mem_all :
    ∀ r ∈ all, r = stringToCaseNoLocale ∨ r.IgnoresUnresolved := by
  have silent : ∀ r ∈ all, r.asksFor .call = false → r.IgnoresUnresolved :=
    fun r => ignoresUnresolved_of_not_asked
  refine forall_mem_all ?resources ?members ?sources ?newer ?boundary
  case resources =>
    simp only [List.forall_mem_cons]
    exact ⟨.inr (silent _ (by simp [all]) rfl), .inr (silent _ (by simp [all]) rfl),
      .inr (silent _ (by simp [all]) rfl), .inr (silent _ (by simp [all]) rfl),
      fun r h => absurd h List.not_mem_nil⟩
  case members =>
    exact forall_mem_members fun _ _ _ _ _ => .inr (ignoresUnresolved_ruleForCalls _ _ _ _ _)
  case sources =>
    simp only [List.forall_mem_cons]
    exact ⟨.inr (silent _ (by simp [all]) rfl), .inr ignoresUnresolved_stringFormatNoLocale,
      .inl trivial, .inr (silent _ (by simp [all]) rfl), fun r h => absurd h List.not_mem_nil⟩
  case newer => exact .inr ignoresUnresolved_unsupportedJava8Api
  case boundary => exact .inr ignoresUnresolved_languageBoundary

section Source

variable {x : Context} {f : SourceFile} (source : x.source? = some f)
include source

theorem isString_iff (c : Call) (e : Code.Expr) :
    isString x c e = true ↔ ∃ type ∈ x.resolver.typeOf? f c.scope e, type ∈ stringTypes := by
  rw [isString, source, Option.bind_some]
  cases x.resolver.typeOf? f c.scope e with
  | none => simp
  | some type => simp

/-- Where a call goes to nothing known, it changes the case of a string by
what it is made on alone. -/
theorem changesCase_of_unresolved {c : Call} (unresolved : x.resolver.call? f c = none) :
    changesCase x c = true ↔ c.methodName ∈ caseNames ∧ c.arguments = [] ∧
      ∃ e ∈ c.receiver?, ∃ type ∈ x.resolver.typeOf? f c.scope e, type ∈ stringTypes := by
  have hcall : x.call? c = none := (Context.call?_of_source source c).trans unresolved
  rw [changesCase, callOf_of_unresolved hcall, Bool.false_or, source, Option.isSome_some,
    Bool.and_true, Bool.and_eq_true, Bool.and_eq_true, List.contains_iff_mem,
    List.isEmpty_iff, and_assoc]
  cases c.receiver? with
  | none => simp
  | some e => simp [isString_iff source]

/-! ## References -/

theorem judge_reference_languageBoundary {ref : MemberReference}
    (unresolved : x.resolver.reference? f ref = none) :
    languageBoundary.judge x (.reference ref) = pass := by
  dsimp only [languageBoundary]
  rw [source]
  dsimp only
  rw [Boundary.judgeNode, unresolved, judgeUse_none, ite_self]
  rfl

/-- No rule has anything to say about a reference that is not understood. -/
theorem judge_reference_of_unresolved {r : Rule} (mem : r ∈ all) {ref : MemberReference}
    (unresolved : x.resolver.reference? f ref = none) : r.judge x (.reference ref) = pass := by
  -- the boundary between the languages is the one rule that asks for references
  have alone : ∀ r ∈ all, r.asksFor .reference = true → r.id = languageBoundary.id := by decide
  cases asks : r.asksFor .reference with
  | true =>
      obtain rfl := eq_of_id_eq mem (by simp [all]) (alone r mem asks)
      exact judge_reference_languageBoundary source unresolved
  | false => exact judge_eq_pass mem asks

/-- **Unresolvable symbols never fire.**  Whatever the file, the resolver, the
settings and the other files are, no rule reports a reference or a call that
the resolver has no answer for, and none fails on it; only the rule for the
case of strings reports such a call, and exactly if it is by one of two names,
without arguments, and made on what has the type of a string. -/
theorem judge_unresolved {r : Rule} (mem : r ∈ all) :
    (∀ ref, x.resolver.reference? f ref = none → r.judge x (.reference ref) = pass)
      ∧ ∀ c, x.resolver.call? f c = none →
        (r.judge x (.call c) ≠ pass ↔
          r = stringToCaseNoLocale ∧ c.methodName ∈ caseNames ∧ c.arguments = [] ∧
            ∃ e ∈ c.receiver?, ∃ type ∈ x.resolver.typeOf? f c.scope e, type ∈ stringTypes) := by
  refine ⟨fun ref => judge_reference_of_unresolved source mem, fun c unresolved => ?_⟩
  have judged : stringToCaseNoLocale.judge x (.call c) ≠ pass ↔ changesCase x c = true := by
    dsimp only [stringToCaseNoLocale]
    cases changesCase x c with
    | true => simp [Info.reportIf, pass]
    | false => simp [reportIf_false]
  rw [← changesCase_of_unresolved source unresolved]
  constructor
  · intro spoke
    rcases ignoresUnresolved_of_mem_all r mem with rfl | ignores
    · exact ⟨rfl, judged.mp spoke⟩
    · have hcall : x.call? c = none := (Context.call?_of_source source c).trans unresolved
      exact absurd (ignores x c hcall) spoke
  · rintro ⟨rfl, changes⟩
    exact judged.mpr changes

end Source

/-- Uses of members of a type that is a string by its name and otherwise not
known. -/
def foreignText : String :=
  "fun f(s: kotlin.text.StringsKt__StringsJVMKt) = s.toUpperCase()\n\n"
    ++ "fun g(s: kotlin.text.StringsKt__StringsJVMKt) = s::toUpperCase\n"

/-- Nobody knows where the call and the reference go; the call is reported,
the reference is not. -/
theorem judge_unresolved_foreign :
    let f := Language.kotlin.read ⟨"src/A.kt"⟩ foreignText
    let x := contextIn [f] f
    ∃ c ref, f.calls[0]? = some c ∧ f.references[0]? = some ref
      ∧ stringToCaseNoLocale.judge x (.call c) ≠ pass
      ∧ stringToCaseNoLocale.judge x (.reference ref) = pass := by
  intro f x
  have mem : stringToCaseNoLocale ∈ all := by simp [all]
  -- in one go, so that the text is read once
  obtain ⟨goes, conditions⟩ :
      f.references[0]?.map (fun ref => (x.resolver.reference? f ref).isSome) = some false
        ∧ f.calls[0]?.map (fun c => ((x.resolver.call? f c).isSome,
            caseNames.contains c.methodName && c.arguments.isEmpty,
            c.receiver?.bind (x.resolver.typeOf? f c.scope))) =
          some (false, true, some "kotlin.text.StringsKt__StringsJVMKt") := by
    decide +kernel
  obtain ⟨ref, href, unknown⟩ := Option.map_eq_some_iff.mp goes
  obtain ⟨c, hc, hconditions⟩ := Option.map_eq_some_iff.mp conditions
  simp only [Prod.mk.injEq, Bool.and_eq_true, List.contains_iff_mem, List.isEmpty_iff,
    Option.bind_eq_some_iff] at hconditions
  obtain ⟨unresolved, ⟨name, arguments⟩, e, receiver, type⟩ := hconditions
  obtain ⟨references, calls⟩ := judge_unresolved (x := x) (f := f) rfl mem
  refine ⟨c, ref, hc, href, (calls c (by simpa using unresolved)).mpr ?_,
    references ref (by simpa using unknown)⟩
  exact ⟨rfl, name, arguments, e, receiver, _, type, by decide⟩

end Rule

end AndroidLint
