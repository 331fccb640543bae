/-
Renaming — what an edit that replaces a name changes in a call.

The edit for `distinct` replaces every match of the name within the reported
range, and that is the whole call, with all that it is made on and is given.  The
name of the call is one match.  It is the only one, and the edit changes nothing
else, just if the name occurs neither before nor behind it
(`renamesCall_of_mem_findings`): a word that holds it, a string, or another such
call in the chain is rewritten too.
-/
import AndroidLint.Proofs.Analysis.Selection
import AndroidLint.Proofs.Code.CallNames
import AndroidLint.Proofs.Rule.Calls
import AndroidLint.Proofs.Text.Gaps

namespace AndroidLint

open Code (Call Language Origin SourceFile)
open Syntax (Tree)
open Text (byteCount)

namespace Rule

/-- What a rule that is made for calls reports is a call by one of its names. -/
theorem exists_call_of_ruleForCalls {info : Info} {names owners : List String} {message : String}
    {fix : Option Fix} {x : Context} {n : Node} {f : Finding}
    (found : (ruleForCalls info names owners message fix).judge x n = .ok (some f)) :
    ∃ c, n = .call c ∧ c.methodName ∈ names ∧ f = info.finding c.location message fix := by
  cases n with
  | call c =>
      have fires : (if callOf names owners x c then some (info.finding c.location message fix)
          else none) = some f := Except.ok.inj found
      split at fires
      case isTrue holds =>
        have named := ((Bool.and_eq_true _ _).mp holds).1
        exact ⟨c, rfl, List.contains_iff_mem.mp named, (Option.some.inj fires).symm⟩
      case isFalse => cases fires
  | _ => cases found

end Rule

/-- A call among the nodes of a source file is one that the file lists. -/
theorem Reference.mem_calls_of_mem_nodes {f : SourceFile} {c : Call}
    (mem : .call c ∈ Reference.nodes (.source f)) : c ∈ f.calls := by
  simpa [Reference.nodes, Reference.listed, mem_sortBy] using mem

/-- `f.RenamesCall old new text v before behind`: the edit of a finding replaces the
matches of a name by another; its range is `before`, that name, where the node `v`
is, and `behind`. -/
structure Finding.RenamesCall (f : Finding) (old new : String) (text : List Char) (v : Tree)
    (before behind : List Char) : Prop where
  fix : f.fix = some (.replacePattern old new)
  range : Text.slice? f.location.startByte f.location.endByte text =
    some (before ++ (old.toList ++ behind))
  start : v.span.start = f.location.startByte + byteCount before
  stop : v.span.stop = v.span.start + byteCount old.toList
  /-- The name is a match, and the others are those on either side of it. -/
  matched : Text.gaps old.toList (before ++ (old.toList ++ behind)) =
    Text.gaps old.toList before ++ Text.gaps old.toList behind
  /-- It is the only one just if it occurs on neither side. -/
  once : Text.gaps old.toList (before ++ (old.toList ++ behind)) = [before, behind] ↔
    ¬ old.toList <:+: before ∧ ¬ old.toList <:+: behind
  /-- Then, and only then, the edit changes nothing else. -/
  alone : Text.replaced old.toList new.toList (before ++ (old.toList ++ behind)) =
      before ++ (new.toList ++ behind) ↔
    ¬ old.toList <:+: before ∧ ¬ old.toList <:+: behind

/-- A call that spells its name within its range can be renamed there. -/
theorem Finding.renamesCall_of_spelledIn {f : Finding} {c : Call} {new : String}
    {text : List Char} {v : Tree} {before behind : List Char} (place : f.location = c.location)
    (fix : f.fix = some (.replacePattern c.methodName new))
    (spelled : c.SpelledIn text v before behind) (nonempty : c.methodName.toList ≠ [])
    (apart : Text.Borderless c.methodName.toList)
    (longer : c.methodName.toList.length < new.toList.length) :
    f.RenamesCall c.methodName new text v before behind where
  fix := fix
  range := place ▸ spelled.range
  start := place ▸ spelled.start
  stop := spelled.stop
  matched := Text.gaps_append nonempty apart before behind
  once := Text.gaps_append_eq_iff nonempty apart
  alone := Text.replaced_append_eq_iff nonempty apart longer

theorem borderless_distinct : Text.Borderless "distinct".toList := by
  unfold Text.Borderless
  decide

/-- Whatever is found of the rule for `distinct` is about a listed call by that name. -/
theorem exists_call_of_mem_findings {file : SourceFile} {a : Analysis} {s : Selection}
    {f : Finding} (found : f ∈ ((a.selecting s).reportOn (.source file)).findings)
    (rule : f.ruleId = Rule.rxJavaDistinct.id) :
    ∃ c ∈ file.calls, c.methodName = "distinct" ∧ f.location = c.location ∧
      f.fix = some (.replacePattern "distinct" "distinctUntilChanged") := by
  obtain ⟨n, hn, r, hall, -, g, judged, rfl⟩ := exists_judge_of_mem_findings a found
  have signed := (Rule.reply_of_judge hall judged).signed
  obtain rfl : r = Rule.rxJavaDistinct :=
    Rule.eq_of_id_eq hall (by simp [Rule.all]) (signed.symm.trans rule)
  obtain ⟨c, rfl, named, rfl⟩ := Rule.exists_call_of_ruleForCalls judged
  have listed := Reference.mem_calls_of_mem_nodes hn
  exact ⟨c, listed, List.mem_singleton.mp named, rfl, rfl⟩

/-- **The edit for `distinct` rewrites what holds the name.**  Whatever is found of
that rule in a Kotlin or a Java file is about a call that the file lists, and stands
where the node of the call does.  The pattern of the edit matches the name of the
call, and beside that what it matches before and behind the name by themselves.  The
name is the only match, and to replace all matches changes nothing else, exactly if
the name occurs neither before nor behind it. -/
theorem renamesCall_of_mem_findings {l : Language} {path : FilePath} {text : String} {a : Analysis}
    {s : Selection} {f : Finding}
    (found : f ∈ ((a.selecting s).reportOn (.source (l.read path text))).findings)
    (rule : f.ruleId = Rule.rxJavaDistinct.id) :
    ∃ c ∈ (l.read path text).calls, f.location = c.location ∧
      ∃ t, l.grammar.parse? text.toList = some t ∧ ∃ w ∈ t.nodes, ∃ v,
        c.ReadFrom l ⟨path, text.toList⟩ w v ∧ ∃ before behind,
          f.RenamesCall "distinct" "distinctUntilChanged" text.toList v before behind := by
  obtain ⟨c, listed, name, place, fix⟩ := exists_call_of_mem_findings found rule
  obtain ⟨t, parsed, w, mem, v, read, before, behind, spelled⟩ :=
    Code.exists_spelledIn listed (by rw [name]; decide)
  refine ⟨c, listed, place, t, parsed, w, mem, v, read, before, behind, ?_⟩
  rw [← name] at fix ⊢
  refine Finding.renamesCall_of_spelledIn place fix spelled ?_ ?_ ?_
  · rw [name]
    decide
  · rw [name]
    exact borderless_distinct
  · rw [name]
    decide

/-- A function that makes a stream of its parameter. -/
def streamText (ids : String) : String :=
  "import io.reactivex.Observable\n\nfun values(" ++ ids ++ ": List<Int>) = Observable.just("
    ++ ids ++ ").distinct()\n"

/-- What is found in the file with that function, the only one of its project. -/
def streamFindings (ids : String) : List Finding :=
  let file := Language.kotlin.read ⟨"src/A.kt"⟩ (streamText ids)
  let a : Analysis := ⟨.standard, .default, (Symbol.Index.build [file]).resolver, fun _ => false⟩
  ((a.selecting .none).reportOn (.source file)).findings

/-- The gaps that the matches of the name leave in the range of a finding, and what
replacing them makes of it. -/
def Finding.renamed (f : Finding) (text : String) : List String × String :=
  let range := (Text.slice? f.location.startByte f.location.endByte text.toList).getD []
  ((Text.gaps "distinct".toList range).map String.ofList,
    String.ofList (Text.replaced "distinct".toList "distinctUntilChanged".toList range))

theorem renamesCall_of_mem_findings_plainIds :
    ∃ f ∈ streamFindings "ids", f.ruleId = Rule.rxJavaDistinct.id ∧
      ∃ c ∈ (Language.kotlin.read ⟨"src/A.kt"⟩ (streamText "ids")).calls, f.location = c.location ∧
        ∃ t, Language.kotlin.grammar.parse? (streamText "ids").toList = some t ∧
          ∃ w ∈ t.nodes, ∃ v,
            c.ReadFrom .kotlin ⟨⟨"src/A.kt"⟩, (streamText "ids").toList⟩ w v ∧ ∃ before behind,
              f.RenamesCall "distinct" "distinctUntilChanged" (streamText "ids").toList v
                before behind ∧
              Text.replaced "distinct".toList "distinctUntilChanged".toList
                  (before ++ ("distinct".toList ++ behind)) =
                before ++ ("distinctUntilChanged".toList ++ behind) := by
  have findings : (streamFindings "ids").map (fun f => (f.ruleId, f.renamed (streamText "ids"))) =
      [("RxJavaDistinct",
        ["Observable.just(ids).", "()"], "Observable.just(ids).distinctUntilChanged()")] := by
    rw [streamFindings, reportOn_selecting]
    decide +kernel
  obtain ⟨f, found, same⟩ := List.mem_map.mp (findings ▸ List.mem_singleton_self _)
  obtain ⟨rule, edited⟩ := Prod.mk.inj same
  obtain ⟨c, listed, place, t, parsed, w, mem, v, read, before, behind, renames⟩ :=
    renamesCall_of_mem_findings found rule
  refine ⟨f, found, rule, c, listed, place, t, parsed, w, mem, v, read, before, behind, renames, ?_⟩
  -- two gaps in all are one on either side
  have two := congrArg List.length (Prod.mk.inj edited).1
  rw [List.length_map, renames.range, Option.getD_some, renames.matched, List.length_append] at two
  have first := Text.length_gaps_pos "distinct".toList before
  have last := Text.length_gaps_pos "distinct".toList behind
  simp only [List.length_cons, List.length_nil] at two
  have some : "distinct".toList ≠ [] := by decide
  refine renames.alone.mpr ⟨?_, ?_⟩
  · exact (Text.length_gaps_eq_one_iff some).mp (by omega)
  · exact (Text.length_gaps_eq_one_iff some).mp (by omega)

/-- A parameter whose name begins with the word is renamed too. -/
theorem renaming_rewrites_argument :
    (streamFindings "distinctIds").map
        (fun f => (f.ruleId, f.renamed (streamText "distinctIds"))) =
      [("RxJavaDistinct", ["Observable.just(", "Ids).", "()"],
        "Observable.just(distinctUntilChangedIds).distinctUntilChanged()")] := by
  rw [streamFindings, reportOn_selecting]
  decide +kernel

end AndroidLint
