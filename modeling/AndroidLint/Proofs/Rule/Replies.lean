/-
Replies — what a rule can say about a node.

A judgement gives any verdict, and nothing in its type says that a rule has
nothing to say about nodes it does not ask for, that it signs what it finds
with its own id, or where that lies.  For the rules of the catalog all of
this holds, in whatever file the node is judged: the verdict is a reply to
the node (`Verdict.IsReply`).  The rules are gone through only here
(`isReply_judge`); what holds of every rule is read off its replies.

Most judgements are one call of `reportIf`, for which `isReply_reportIf`
answers.  The judgement of the boundary between the languages is built from
searches instead; there a predicate on optional findings
(`Boundary.Reported`) is carried through each way of searching.
-/
import AndroidLint.Analysis.Catalog

namespace AndroidLint

/-- Whether an edit is made of several. -/
def Fix.isComposite : Fix → Bool
  | .composite _ => true
  | _ => false

/-- Whether a finding proposes an edit that is made of several. -/
def Finding.hasCompositeFix (f : Finding) : Bool :=
  f.fix.any Fix.isComposite

open Code (SourceFile ClassDecl MethodDecl Lambda)
open AndroidLint.Symbol (Member TypeSymbol)

namespace Rule

/-- The places at which something may be found for a node: its own and, if
it is an element, those of the elements around it. -/
def Node.places : Node → List Location
  | .element d index e => e.location :: (d.ancestorsOrSelf index).map (·.location)
  | n => [n.location]

theorem Node.location_mem_places (n : Node) : n.location ∈ n.places := by
  cases n <;> exact List.mem_cons_self

/-- The messages that say the same about every project. -/
def fixedMessages : List String :=
  [Text.oneLine colorExplanation, Text.oneLine hardcodedExplanation, sourceMessage,
    Text.oneLine webViewExplanation, Text.oneLine pairExplanation, drawableMessage,
    getColorMessage, Text.oneLine formatExplanation, caseInfo.brief, Text.oneLine clockExplanation,
    Text.oneLine newerExplanation, newerInfo.brief, Text.oneLine lambdaExplanation,
    packageExplanation, distinctMessage, singleInfo.brief]

/-- `Reply r n f`: the finding `f` is one that the rule `r` can have for the
node `n`. -/
structure Reply (r : Rule) (n : Node) (f : Finding) : Prop where
  asked : r.asksFor n.kind = true
  signed : f.ruleId = r.id
  lies : f.location ∈ n.places
  /-- Only the rule for the sources of images proposes edits made of several, and
  it always does. -/
  kind : f.hasCompositeFix = (r.id == srcCompatUsage.id)
  /-- Only the boundary between the languages has messages that depend on the
  project. -/
  worded : r.id ≠ languageBoundary.id → f.message ∈ fixedMessages

/-- `v.IsReply r n`: the verdict `v` is one that the rule `r` can give on the
node `n`.  Only the rule about newer libraries fails, on lambdas. -/
inductive Verdict.IsReply (r : Rule) (n : Node) : Verdict → Prop
  | pass : IsReply r n (.ok none)
  | finding {f : Finding} (reply : Reply r n f) : IsReply r n (.ok (some f))
  | failure {l : Lambda} (newer : r = unsupportedJava8Api) (about : n = .lambda l) :
      IsReply r n (.error (strayLambda l))

/-- `Replies r`: whatever the rule `r` says about any node is a reply to it. -/
def Replies (r : Rule) : Prop :=
  ∀ x n, (r.judge x n).IsReply r n

theorem isReply_reportIf {r : Rule} {n : Node} {fires : Bool} {location : Location}
    {message : String} {fix : Option Fix} (asked : r.asksFor n.kind = true)
    (lies : location ∈ n.places) (kind : fix.any Fix.isComposite = (r.id == srcCompatUsage.id))
    (worded : message ∈ fixedMessages) :
    (r.info.reportIf fires location message fix).IsReply r n := by
  cases fires with
  | true => exact .finding ⟨asked, rfl, lies, kind, fun _ => worded⟩
  | false => exact .pass

/-! ## The rules that report on a condition -/

theorem replies_webViewInsideScrollView : Replies webViewInsideScrollView := by
  intro x n
  dsimp only [webViewInsideScrollView]
  split
  case h_1 d index e =>
    split
    case h_1 container around =>
      have outward : container ∈ d.ancestorsOrSelf index := List.mem_of_find?_eq_some around
      exact isReply_reportIf rfl (List.mem_cons_of_mem _ (List.mem_map_of_mem outward)) rfl
        (by simp [fixedMessages])
    case h_2 => exact .pass
  case h_2 => exact .pass

theorem replies_resources :
    ∀ r ∈ [colorResourceUsage, hardcodedValue, srcCompatUsage, webViewInsideScrollView],
      Replies r := by
  simp only [List.forall_mem_cons]
  refine ⟨?_, ?_, ?_, replies_webViewInsideScrollView, fun r h => absurd h List.not_mem_nil⟩
  all_goals
    intro x n
    dsimp only [colorResourceUsage, hardcodedValue, srcCompatUsage]
    split
    · exact isReply_reportIf rfl (Node.location_mem_places _) rfl (by simp [fixedMessages])
    · exact .pass

/-- A rule that is made for calls replies with the message and the edit it was
given. -/
theorem replies_ruleForCalls {info : Info} {message : String} {fix : Option Fix}
    (kind : fix.any Fix.isComposite = (info.id == srcCompatUsage.id))
    (worded : message ∈ fixedMessages) (names owners : List String) :
    Replies (ruleForCalls info names owners message fix) := by
  intro x n
  dsimp only [ruleForCalls]
  split
  · exact isReply_reportIf rfl (Node.location_mem_places _) kind worded
  · exact .pass

theorem replies_members :
    ∀ r ∈ [getDrawable, resCompatGetColor, systemCurrentTimeMillis, rxJavaDistinct,
      rxJavaToSingle], Replies r := by
  simp only [List.forall_mem_cons]
  refine ⟨?_, ?_, ?_, ?_, ?_, fun r h => absurd h List.not_mem_nil⟩
  all_goals exact replies_ruleForCalls rfl (by simp [fixedMessages]) _ _

theorem replies_sources :
    ∀ r ∈ [frameworkPair, stringFormatNoLocale, stringToCaseNoLocale, packageName],
      Replies r := by
  simp only [List.forall_mem_cons]
  refine ⟨?_, ?_, ?_, ?_, fun r h => absurd h List.not_mem_nil⟩
  all_goals
    intro x n
    dsimp only [frameworkPair, stringFormatNoLocale, stringToCaseNoLocale, packageName]
    split
    · exact isReply_reportIf rfl (Node.location_mem_places _) rfl (by simp [fixedMessages])
    · exact .pass

theorem replies_unsupportedJava8Api : Replies unsupportedJava8Api := by
  intro x n
  dsimp only [unsupportedJava8Api]
  split
  · exact isReply_reportIf rfl (Node.location_mem_places _) rfl (by simp [fixedMessages])
  · exact isReply_reportIf rfl (Node.location_mem_places _) rfl (by simp [fixedMessages])
  · rw [judgeLambda]
    split
    · exact .failure rfl rfl
    · exact isReply_reportIf rfl (Node.location_mem_places _) rfl (by simp [fixedMessages])
  · exact .pass

/-! ## The boundary between the languages -/

namespace Boundary

/-- `Reported location found?`: what was found, if anything, is a finding of
the boundary at a place, with no edit or a simple one. -/
def Reported (location : Location) (found? : Option Finding) : Prop :=
  ∀ f ∈ found?, f.location = location ∧ f.ruleId = info.id ∧ f.hasCompositeFix = false

section Searching

variable {location : Location}

theorem reported_none : Reported location none := by
  intro f mem
  cases mem

theorem reported_finding {fix : Option Fix} (kind : fix.any Fix.isComposite = false)
    (message : String) : Reported location (some (info.finding location message fix)) := by
  rintro f ⟨⟩
  exact ⟨rfl, rfl, kind⟩

theorem reported_bind {α : Type} {g : α → Option Finding} (own : ∀ a, Reported location (g a))
    (o : Option α) : Reported location (o.bind g) := by
  cases o with
  | none => exact reported_none
  | some a => exact own a

theorem reported_map {α : Type} {g : α → Finding} (own : ∀ a, Reported location (some (g a)))
    (o : Option α) : Reported location (o.map g) := by
  cases o with
  | none => exact reported_none
  | some a => exact own a

theorem reported_findSome? {α : Type} {g : α → Option Finding}
    (own : ∀ a, Reported location (g a)) (l : List α) : Reported location (l.findSome? g) := by
  intro f mem
  obtain ⟨a, -, ha⟩ := List.exists_of_findSome?_eq_some mem
  exact own a f ha

theorem reported_judgeMarks {unmarked : Option Finding} (own : Reported location unmarked)
    (x : Context) (what : String) (m : Marks) :
    Reported location (judgeMarks x location what unmarked m) := by
  rw [judgeMarks.eq_def]
  split
  · exact reported_finding rfl _
  · exact own
  · exact reported_none

end Searching

section Judging

variable (x : Context) (f : SourceFile)

theorem reported_judgeAnonymous (c : ClassDecl) : Reported c.location (judgeAnonymous x f c) := by
  rw [judgeAnonymous]
  split
  · exact reported_none
  · exact reported_bind (fun base => reported_map (fun _ => reported_finding rfl _) _) _

theorem reported_judgeSubtype (c : ClassDecl) : Reported c.location (judgeSubtype x f c) := by
  rw [judgeSubtype]
  exact reported_findSome? (fun target => reported_map (fun _ => reported_finding rfl _) _) _

theorem reported_judgeClass (c : ClassDecl) : Reported c.location (judgeClass x f c) := by
  rw [judgeClass]
  refine reported_judgeMarks ?_ _ _ _
  split
  · exact reported_judgeSubtype x f c
  · exact reported_judgeAnonymous x f c

theorem reported_judgeMethod (m : MethodDecl) : Reported m.location (judgeMethod x f m) := by
  rw [judgeMethod, judgeOverride]
  refine reported_judgeMarks ?_ _ _ _
  exact reported_bind (fun overridden => reported_map (fun _ => reported_finding rfl _) _) _

theorem reported_judgeInterface (location : Location) (t : TypeSymbol) :
    Reported location (judgeInterface x location t) := by
  rw [judgeInterface]
  split
  · exact reported_finding rfl _
  · exact reported_map (fun _ => reported_finding rfl _) _

theorem reported_judgeLambda (l : Lambda) : Reported l.location (judgeLambda x f l) := by
  rw [judgeLambda]
  split
  · exact reported_none
  · exact reported_bind (reported_judgeInterface x l.location) _

theorem reported_judgeUse (location : Location) (m? : Option Member) :
    Reported location (judgeUse x location m?) :=
  reported_map (fun _ => reported_finding rfl _) _

/-- The boundary reports a node where the node is. -/
theorem reported_judgeNode (n : Node) : Reported n.location (judgeNode x f n) := by
  cases n with
  | type c => exact reported_judgeClass x f c
  | method m => exact reported_judgeMethod x f m
  | lambda l => exact reported_judgeLambda x f l
  | call c => exact reported_judgeUse x _ _
  | reference r => exact reported_judgeUse x _ _
  | _ => exact reported_none

end Judging

/-- The boundary asks for the nodes that it judges. -/
theorem asksFor_of_judgeNode {x : Context} {f : SourceFile} {n : Node} {found : Finding}
    (judged : judgeNode x f n = some found) : languageBoundary.asksFor n.kind = true := by
  cases n <;> first | rfl | cases judged

end Boundary

theorem replies_languageBoundary : Replies languageBoundary := by
  intro x n
  dsimp only [languageBoundary]
  split
  case h_1 f source =>
    split
    case isTrue =>
      cases judged : Boundary.judgeNode x f n with
      | none => exact .pass
      | some found =>
          obtain ⟨place, signed, kind⟩ := Boundary.reported_judgeNode x f n found judged
          exact .finding ⟨Boundary.asksFor_of_judgeNode judged, signed,
            place ▸ n.location_mem_places, kind, absurd rfl⟩
    case isFalse => exact .pass
  case h_2 => exact .pass

/-! ## The catalog -/

section Catalog

variable {r : Rule} (mem : r ∈ all) {x : Context} {n : Node}

include mem

/-- Every rule gives replies. -/
theorem isReply_judge : (r.judge x n).IsReply r n :=
  forall_mem_all replies_resources replies_members replies_sources replies_unsupportedJava8Api
    replies_languageBoundary r mem x n

theorem reply_of_judge {f : Finding} (found : r.judge x n = .ok (some f)) : Reply r n f := by
  have h := isReply_judge mem (x := x) (n := n)
  rw [found] at h
  cases h with
  | finding reply => exact reply

/-- Rules have nothing to say about nodes that they do not ask for. -/
theorem judge_eq_pass (other : r.asksFor n.kind = false) : r.judge x n = pass := by
  have h := isReply_judge mem (x := x) (n := n)
  generalize r.judge x n = v at h ⊢
  cases h with
  | pass => rfl
  | finding reply =>
      rw [reply.asked] at other
      cases other
  | failure newer about =>
      subst newer about
      cases other

end Catalog

/-- The rule about newer libraries fails on lambdas without a class. -/
theorem unsupportedJava8Api_eq_error_iff {x : Context} {n : Node} {e : Failure} :
    unsupportedJava8Api.judge x n = .error e ↔
      ∃ f l, x.source? = some f ∧ n = .lambda l ∧ l.scope.class?.bind f.class? = none ∧
        e = strayLambda l := by
  constructor
  · intro failed
    dsimp only [unsupportedJava8Api] at failed
    split at failed
    case h_3 l f hsource =>
      rw [judgeLambda] at failed
      split at failed
      case h_1 outside => exact ⟨f, l, hsource, rfl, outside, (Except.error.inj failed).symm⟩
      case h_2 => cases failed
    all_goals cases failed
  · rintro ⟨f, l, hsource, rfl, outside, rfl⟩
    dsimp only [unsupportedJava8Api]
    rw [hsource]
    dsimp only
    rw [judgeLambda, outside]

/-- No other rule fails. -/
theorem judge_eq_error_iff {r : Rule} (mem : r ∈ all) {x : Context} {n : Node} {e : Failure} :
    r.judge x n = .error e ↔ r = unsupportedJava8Api ∧
      ∃ f l, x.source? = some f ∧ n = .lambda l ∧ l.scope.class?.bind f.class? = none ∧
        e = strayLambda l := by
  rw [← unsupportedJava8Api_eq_error_iff]
  constructor
  · intro failed
    have h := isReply_judge mem (x := x) (n := n)
    rw [failed] at h
    cases h with
    | failure newer => exact ⟨newer, newer ▸ failed⟩
  · rintro ⟨rfl, failed⟩
    exact failed

end Rule

end AndroidLint
