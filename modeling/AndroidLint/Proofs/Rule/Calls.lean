/-
Calls — which calls the rules for certain members report.

Six rules discourage members of the platform and of libraries: each has a
list of them, by the types that declare them and their names.  None of them
goes by that list alone.  A rule first asks how the call is written, and
looks at the member that the call goes to only if some member of the list is
written so.

As long as a call is written with the name of the member, this comes to the
same.  A call that an index understands is written otherwise only if the
member got another name by an import (`name_of_call?`).  There the rules part
from their lists; `GoesBy` says how far.
-/
import AndroidLint.Analysis.Catalog
import AndroidLint.Code.Reader
import AndroidLint.Proofs.Symbol.Members

namespace AndroidLint

open Code (SourceFile Call Language)
open AndroidLint.Symbol (Index Member)

namespace Rule

/-- Whether a verdict is a finding. -/
def Verdict.isFinding : Verdict → Bool
  | .ok (some _) => true
  | _ => false

/-- Whether a rule reports a node. -/
def reports (r : Rule) (x : Context) (n : Node) : Bool :=
  (r.judge x n).isFinding

@[simp] theorem isFinding_pass : Verdict.isFinding pass = false :=
  rfl

@[simp] theorem isFinding_reportIf (info : Info) (fires : Bool) (location : Location)
    (message : String) (fix : Option Fix) :
    Verdict.isFinding (info.reportIf fires location message fix) = fires := by
  cases fires with
  | true => rfl
  | false => rfl

/-- In a source file, a call goes where the resolver says. -/
theorem Context.call?_of_source {x : Context} {f : SourceFile} (source : x.source? = some f)
    (c : Call) : x.call? c = x.resolver.call? f c := by
  rw [Context.call?, source, Option.bind_some]

/-! ## The lists of discouraged members -/

/-- The members of some types by some names. -/
def membersOf (owners names : List String) : List (String × String) :=
  owners.flatMap fun owner => names.map (owner, ·)

@[simp] theorem mem_membersOf {owners names : List String} {owner name : String} :
    (owner, name) ∈ membersOf owners names ↔ owner ∈ owners ∧ name ∈ names := by
  simp [membersOf]

/-- The members that older platforms lack, each with its type. -/
def newerPairs : List (String × String) :=
  newerMembers.flatMap fun (owner, names) => membersOf [owner] names

/-- The rules for calls of certain members, each with the members it
discourages: the types that declare them, and their names. -/
def discouraged : List (Rule × List (String × String)) :=
  [(getDrawable,
      membersOf ["androidx.core.content.ContextCompat", "androidx.core.content.res.ResourcesCompat"]
        ["getDrawable"]),
    (resCompatGetColor, membersOf ["androidx.core.content.res.ResourcesCompat"] ["getColor"]),
    (systemCurrentTimeMillis, membersOf ["java.lang.System"] ["currentTimeMillis"]),
    (rxJavaDistinct, membersOf streamTypes ["distinct"]),
    (rxJavaToSingle,
      membersOf ("io.reactivex.Maybe" :: streamTypes)
        ["single", "singleOrError", "singleElement", "toSingle"]),
    (unsupportedJava8Api, newerPairs)]

/-- `r.GoesBy members x c m`: how the rule `r` judges a call `c` that goes to
`m`, compared with a list of members. -/
structure GoesBy (r : Rule) (members : List (String × String)) (x : Context) (c : Call)
    (m : Member) : Prop where
  /-- Written with its own name, a member is reported exactly if it is in the
  list. -/
  plain : m.name = c.methodName →
    (r.reports x (.call c) = true ↔ (m.declaringType, m.name) ∈ members)
  /-- However written, a member of the list is reported exactly if the name
  written is one in the list. -/
  listed : (m.declaringType, m.name) ∈ members →
    (r.reports x (.call c) = true ↔ ∃ owner, (owner, c.methodName) ∈ members)
  /-- A member that is not in the list is reported only for being written like
  one of its type that is. -/
  unlisted : (m.declaringType, m.name) ∉ members → r.reports x (.call c) = true →
    (m.declaringType, c.methodName) ∈ members

section Judgements

variable {x : Context} {c : Call} {m : Member}

/-- The condition of a rule that is made for calls, once it is known where the
call goes. -/
theorem reports_ruleForCalls (info : Info) (names owners : List String) (message : String)
    (fix : Option Fix) (goes : x.call? c = some m) :
    (ruleForCalls info names owners message fix).reports x (.call c) = true ↔
      (m.declaringType, c.methodName) ∈ membersOf owners names := by
  simp [reports, ruleForCalls, callOf, goes, and_comm]

theorem goesBy_ruleForCalls (info : Info) (names owners : List String) (message : String)
    (fix : Option Fix) (goes : x.call? c = some m) :
    GoesBy (ruleForCalls info names owners message fix) (membersOf owners names) x c m where
  plain := by
    intro written
    rw [reports_ruleForCalls _ _ _ _ _ goes, written]
  listed := by
    intro mem
    have owner := (mem_membersOf.mp mem).1
    rw [reports_ruleForCalls _ _ _ _ _ goes, mem_membersOf]
    constructor
    · rintro ⟨-, name⟩
      exact ⟨m.declaringType, mem_membersOf.mpr ⟨owner, name⟩⟩
    · rintro ⟨other, listed⟩
      exact ⟨owner, (mem_membersOf.mp listed).2⟩
  unlisted := fun _ => (reports_ruleForCalls _ _ _ _ _ goes).mp

/-- The condition of the rule about newer libraries, once it is known where
the call goes. -/
theorem reports_unsupportedJava8Api (goes : x.call? c = some m) :
    unsupportedJava8Api.reports x (.call c) = true ↔
      (∃ owner, (owner, c.methodName) ∈ newerPairs) ∧ (m.declaringType, m.name) ∈ newerPairs := by
  simp only [reports, unsupportedJava8Api, isFinding_reportIf, callsNewerMember, goes,
    Option.any_some, Bool.and_eq_true, isNewerName, isNewerMember, List.any_eq_true,
    List.contains_iff_mem, beq_iff_eq, newerPairs, List.mem_flatMap, mem_membersOf, List.mem_singleton]
  constructor
  · rintro ⟨⟨entry, mem, name⟩, entry', mem', owner, name'⟩
    exact ⟨⟨entry.1, entry, mem, rfl, name⟩, entry', mem', owner.symm, name'⟩
  · rintro ⟨⟨-, entry, mem, -, name⟩, entry', mem', owner, name'⟩
    exact ⟨⟨entry, mem, name⟩, entry', mem', owner.symm, name'⟩

theorem goesBy_unsupportedJava8Api (goes : x.call? c = some m) :
    GoesBy unsupportedJava8Api newerPairs x c m where
  plain := by
    intro written
    rw [reports_unsupportedJava8Api goes, ← written]
    exact ⟨fun h => h.2, fun listed => ⟨⟨_, listed⟩, listed⟩⟩
  listed := by
    intro mem
    rw [reports_unsupportedJava8Api goes]
    exact ⟨fun h => h.1, fun written => ⟨written, mem⟩⟩
  unlisted := fun absent reported => absurd ((reports_unsupportedJava8Api goes).mp reported).2 absent

end Judgements

theorem goesBy_of_mem_discouraged {r : Rule} {members : List (String × String)}
    (mem : (r, members) ∈ discouraged) {x : Context} {c : Call} {m : Member}
    (goes : x.call? c = some m) : r.GoesBy members x c m := by
  simp only [discouraged, List.mem_cons, List.not_mem_nil, or_false, Prod.mk.injEq] at mem
  rcases mem with ⟨rfl, rfl⟩ | ⟨rfl, rfl⟩ | ⟨rfl, rfl⟩ | ⟨rfl, rfl⟩ | ⟨rfl, rfl⟩ | ⟨rfl, rfl⟩
  · exact goesBy_ruleForCalls _ _ _ _ _ goes
  · exact goesBy_ruleForCalls _ _ _ _ _ goes
  · exact goesBy_ruleForCalls _ _ _ _ _ goes
  · exact goesBy_ruleForCalls _ _ _ _ _ goes
  · exact goesBy_ruleForCalls _ _ _ _ _ goes
  · exact goesBy_unsupportedJava8Api goes

/-- **Members are judged as they are written.**  Whatever the resolver says of
a call, the rules that discourage members go by their lists as long as the
call is written with the name of the member; a member of the list that is
called otherwise is reported only if that name stands in the list too, and a
member that is not in it is reported only if one of its type is listed by that
name.  With an index for resolver, a call is written otherwise only if it is
made on nothing, and by a name that an import of the file gave the member. -/
theorem reports_call_iff_of_mem_discouraged {r : Rule} {members : List (String × String)}
    (mem : (r, members) ∈ discouraged) {x : Context} {c : Call} {m : Member}
    (goes : x.call? c = some m) :
    r.GoesBy members x c m ∧
      ∀ (y : Index) (f : SourceFile), x.resolver = y.resolver → x.source? = some f →
        m.name ≠ c.methodName → c.receiver? = none ∧ y.Aliased f c.methodName m := by
  refine ⟨goesBy_of_mem_discouraged mem goes, fun y f answers source renamed => ?_⟩
  rw [Context.call?_of_source source, answers, Index.resolver_call?] at goes
  exact (Index.name_of_call? goes).resolve_left renamed

/-- What rules may consult about one of the files of a project that sets
nothing. -/
def contextIn (files : List SourceFile) (f : SourceFile) : Context :=
  ⟨.default, (Index.build files).resolver, fun _ => false, .source f⟩

/-- A function that reads the clock. -/
def clockText : String :=
  "fun now() = System.currentTimeMillis()\n"

theorem reports_call_clock :
    let f := Language.kotlin.read ⟨"src/A.kt"⟩ clockText
    let x := contextIn [f] f
    ∃ c m, f.calls[0]? = some c ∧ x.call? c = some m
      ∧ systemCurrentTimeMillis.reports x (.call c) = true := by
  intro f x
  -- in one go, so that the text is read once
  obtain ⟨written, goes⟩ :
      f.calls[0]?.map (·.methodName) = some "currentTimeMillis"
        ∧ (f.calls[0]?.bind x.call?).map (fun m => (m.declaringType, m.name)) =
          some ("java.lang.System", "currentTimeMillis") := by
    decide +kernel
  obtain ⟨c, hc, hname⟩ := Option.map_eq_some_iff.mp written
  rw [hc, Option.bind_some] at goes
  obtain ⟨m, hm, pair⟩ := Option.map_eq_some_iff.mp goes
  have mem : (systemCurrentTimeMillis, membersOf ["java.lang.System"] ["currentTimeMillis"])
      ∈ discouraged := by
    simp [discouraged]
  obtain ⟨judged, -⟩ := reports_call_iff_of_mem_discouraged mem hm
  have plain : m.name = c.methodName := (Prod.mk.inj pair).2.trans hname.symm
  refine ⟨c, m, hc, hm, (judged.plain plain).mpr ?_⟩
  rw [pair]
  simp

/-- A function that reads the clock by a name that an import gave it. -/
def aliasText : String :=
  "import java.lang.System.currentTimeMillis as cmt\n\nfun now() = cmt()\n"

/-- The call goes to the clock and is not reported. -/
theorem reports_alias :
    let f := Language.kotlin.read ⟨"src/A.kt"⟩ aliasText
    let x := contextIn [f] f
    f.calls.toList.map (fun c => ((x.call? c).map fun m => (m.declaringType, m.name),
        systemCurrentTimeMillis.reports x (.call c))) =
      [(some ("java.lang.System", "currentTimeMillis"), false)] := by
  decide +kernel

end Rule

end AndroidLint
