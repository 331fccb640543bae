/-
Wording — which texts of a project a message repeats.

Most rules have one message, which is a line of its own.  The rule for the
boundary between the languages puts texts of the project into its messages: the
reason that an annotation gives, the names of a type and of the file it is
declared in, the name of a method and that of its type.  It puts them in as they
are, so its message is one line exactly if they all are
(`oneLine_judge_iff`).  The names of the two annotations come from the
settings, and the last segment of a line is a line.

A reason that is blank is left out of the message, even if it has lines.
-/
import AndroidLint.Proofs.Analysis.Catalog
import AndroidLint.Proofs.Rule.Replies
import AndroidLint.Proofs.Text.Parts

namespace AndroidLint

/-! ## Lines -/

/-- Whether a character ends a line: line feed and carriage return, the tabulation
and the form feed that move down, and the three of Unicode. -/
def isLineBreak (c : Char) : Bool :=
  [0xA, 0xB, 0xC, 0xD, 0x85, 0x2028, 0x2029].contains c.toNat

/-- `OneLine s`: no character of the text ends a line. -/
def OneLine (s : String) : Prop :=
  ∀ c ∈ s.toList, isLineBreak c = false

instance (s : String) : Decidable (OneLine s) :=
  List.decidableBAll _ s.toList

/-- To decide whether a literal is a line, its characters need not be read back from
their bytes. -/
theorem oneLine_ofList {cs : List Char} :
    OneLine (String.ofList cs) ↔ cs.any isLineBreak = false := by
  rw [OneLine, String.toList_ofList, List.any_eq_false]
  simp only [Bool.not_eq_true]

@[simp]
theorem oneLine_append {s t : String} : OneLine (s ++ t) ↔ OneLine s ∧ OneLine t := by
  simp only [OneLine, String.toList_append, List.forall_mem_append]

@[simp]
theorem oneLine_toString {s : String} : OneLine (toString s) ↔ OneLine s :=
  Iff.rfl

/-- The last segment of a line is a line. -/
theorem OneLine.simpleName {name : String} (line : OneLine name) :
    OneLine (Code.simpleName name) := by
  intro c mem
  obtain ⟨-, whole | ⟨front, whole⟩⟩ := Text.isLastSegment_afterLast '.' name
  · exact line c (whole ▸ mem)
  · exact line c (whole ▸ List.mem_append_right _ (List.mem_cons_of_mem _ mem))

theorem oneLine_intercalate {between : String} (line : OneLine between) {parts : List String}
    (lines : ∀ part ∈ parts, OneLine part) : OneLine (between.intercalate parts) := by
  induction parts with
  | nil => exact fun c mem => absurd mem List.not_mem_nil
  | cons part parts ih =>
      obtain ⟨first, others⟩ := List.forall_mem_cons.mp lines
      by_cases last : parts = []
      · rw [last, String.intercalate_singleton]
        exact first
      · rw [String.intercalate_cons_of_ne_nil last]
        exact oneLine_append.mpr ⟨oneLine_append.mpr ⟨first, line⟩, ih others⟩

/-- The words that messages are put together of are lines. -/
@[simp]
theorem oneLine_phrases :
    OneLine " " ∧ OneLine ": " ∧ OneLine "@" ∧ OneLine " in " ∧ OneLine "(in " ∧
      OneLine "types" ∧ OneLine "functions" ∧ OneLine "anonymous" ∧ OneLine "lambda" ∧
      OneLine "called from Kotlin" ∧ OneLine "expressed as a lambda in Kotlin" ∧
      OneLine "This method should not be " ∧ OneLine ", see its documentation for details." ∧
      OneLine "Cannot create " ∧ OneLine " instances of @" ∧ OneLine "-annotated type " ∧
      OneLine ") in Kotlin. Make a concrete class instead." ∧
      OneLine "Type subclasses/implements " ∧ OneLine "Function overrides " ∧
      OneLine " which is annotated " ∧ OneLine ", it should also be annotated." ∧
      OneLine "Cannot annotate " ∧ OneLine " with both @" ∧ OneLine " and @" := by
  and_intros <;> exact oneLine_ofList.mpr (by decide)

/-- A text that is folded is one line. -/
theorem oneLine_folded (s : String) : OneLine (Text.oneLine s) := by
  refine oneLine_intercalate oneLine_phrases.1 fun word mem c within => ?_
  obtain ⟨run, kept, rfl⟩ := List.mem_map.mp mem
  have solid := Text.eq_false_of_mem_pieces (List.mem_filter.mp kept).1 c (by simpa using within)
  -- whatever ends a line is blank
  rw [← Bool.not_eq_true]
  intro ends
  simp only [isLineBreak, List.contains_eq_mem, decide_eq_true_eq, List.mem_cons,
    List.not_mem_nil, or_false] at ends
  rcases ends with h | h | h | h | h | h | h <;> simp [Text.isBlank, h] at solid

namespace Rule

open Code (SourceFile ClassDecl MethodDecl Lambda)
open AndroidLint.Symbol (Member TypeSymbol carried?)

theorem Info.message_finding (info : Info) (location : Location) (message : String)
    (fix : Option Fix) : (info.finding location message fix).message = message :=
  rfl

/-! ## Messages that are fixed -/

/-- The messages that are not folded are lines. -/
theorem oneLine_messages :
    OneLine sourceMessage ∧ OneLine drawableMessage ∧ OneLine getColorMessage ∧
      OneLine distinctMessage ∧ OneLine singleInfo.brief ∧ OneLine caseInfo.brief ∧
      OneLine packageExplanation ∧ OneLine newerInfo.brief := by
  unfold drawableMessage getColorMessage distinctMessage singleInfo packageExplanation
  simp only [oneLine_append]
  and_intros <;> exact oneLine_ofList.mpr (by decide +kernel)

theorem oneLine_fixedMessages : ∀ message ∈ fixedMessages, OneLine message := by
  obtain ⟨source, drawable, getColor, distinct, single, changed, package, brief⟩ :=
    oneLine_messages
  simp only [fixedMessages, List.forall_mem_cons]
  exact ⟨oneLine_folded _, oneLine_folded _, source, oneLine_folded _, oneLine_folded _, drawable,
    getColor, oneLine_folded _, changed, oneLine_folded _, oneLine_folded _, brief,
    oneLine_folded _, package, distinct, single, fun message h => absurd h List.not_mem_nil⟩

/-! ## What the boundary repeats -/

namespace Boundary

/-- The part of a reason that a message repeats: all of it, unless it is
blank. -/
def given (reason : String) : List String :=
  if (Text.trim reason).isEmpty then [] else [reason]

/-- What is repeated of a restricted type: its name, and that of its file. -/
def typeTexts (t : TypeSymbol) : List String :=
  [t.simpleName, fileOf t]

/-- What is repeated about the use of a member. -/
def useTexts (x : Context) (m? : Option Member) : List String :=
  ((m?.bind (memberRestriction? x)).map given).getD []

/-- What is repeated about a lambda that stands for a type. -/
def interfaceTexts (x : Context) (t : TypeSymbol) : List String :=
  match carried? t.annotations x.settings.javaOnly with
  | some _ => typeTexts t
  | none => useTexts x (t.methods.head?.map t.member)

/-- What is repeated about a class without marks: of the type above it that is
restricted. -/
def classTexts (x : Context) (f : SourceFile) (c : ClassDecl) : List String :=
  if c.isNamed then
    let above := (x.resolver.superTypes f c).filterMap x.resolver.types.find?
    (((inherited x.settings).findSome? fun target =>
      above.find? fun t => (carried? t.annotations target).isSome).map typeTexts).getD []
  else ((knownType? x f c.superClass?).map typeTexts).getD []

/-- What is repeated about a method without marks: of the method that it
overrides. -/
def overrideTexts (x : Context) (f : SourceFile) (m : MethodDecl) : List String :=
  ((x.resolver.superMember? f m).map fun o => [o.name, Code.simpleName o.declaringType]).getD []

/-- What is repeated about something with marks, and without. -/
def Marks.texts (unmarked : List String) : Marks → List String
  | ⟨true, true⟩ => []
  | _ => unmarked

/-- The texts of the project that a message about a node of a Kotlin file
repeats. -/
def texts (x : Context) (f : SourceFile) : Node → List String
  | .type c => (marks x f c.annotations).texts (classTexts x f c)
  | .method m => (marks x f m.annotations).texts (overrideTexts x f m)
  | .lambda l => ((knownType? x f l.functionalInterface?).map (interfaceTexts x)).getD []
  | .call c => useTexts x (x.resolver.call? f c)
  | .reference r => useTexts x (x.resolver.reference? f r)
  | _ => []

/-- `Repeats texts found?`: the message of what was found, if anything, is one
line exactly if the texts are. -/
def Repeats (texts : List String) (found? : Option Finding) : Prop :=
  ∀ f ∈ found?, (OneLine f.message ↔ ∀ t ∈ texts, OneLine t)

section Messages

variable {s : Settings} (javaOnly : OneLine s.javaOnly) (kotlinOnly : OneLine s.kotlinOnly)

theorem oneLine_restrictionMessage {what : String} (line : OneLine what) (reason : String) :
    OneLine (restrictionMessage what reason) ↔ ∀ t ∈ given reason, OneLine t := by
  rw [restrictionMessage, given]
  split
  · simp [line]
  · simp [line]

include javaOnly in
theorem oneLine_instanceMessage {kind : String} (line : OneLine kind) (t : TypeSymbol) :
    OneLine (instanceMessage s kind t) ↔ ∀ u ∈ typeTexts t, OneLine u := by
  unfold instanceMessage
  simp [typeTexts, line, javaOnly.simpleName]

theorem oneLine_subtypeMessage {target : String} (line : OneLine target) (t : TypeSymbol) :
    OneLine (subtypeMessage target t) ↔ ∀ u ∈ typeTexts t, OneLine u := by
  unfold subtypeMessage
  simp [typeTexts, line.simpleName]

theorem oneLine_overrideMessage {target : String} (line : OneLine target) (m : Member) :
    OneLine (overrideMessage target m) ↔
      ∀ u ∈ [m.name, Code.simpleName m.declaringType], OneLine u := by
  unfold overrideMessage
  simp [line.simpleName]

include javaOnly kotlinOnly in
theorem oneLine_bothMessage {what : String} (line : OneLine what) :
    OneLine (bothMessage s what) := by
  unfold bothMessage
  simp [line, javaOnly.simpleName, kotlinOnly.simpleName]

end Messages

section Searching

theorem repeats_none {texts : List String} : Repeats texts none :=
  nofun

theorem repeats_bind {α : Type} {textsOf : α → List String} {g : α → Option Finding}
    (each : ∀ a, Repeats (textsOf a) (g a)) (o : Option α) :
    Repeats ((o.map textsOf).getD []) (o.bind g) := by
  cases o with
  | none => exact repeats_none
  | some a => exact each a

theorem repeats_map {α : Type} {textsOf : α → List String} {g : α → Finding}
    (each : ∀ a, OneLine (g a).message ↔ ∀ t ∈ textsOf a, OneLine t) (o : Option α) :
    Repeats ((o.map textsOf).getD []) (o.map g) := by
  cases o with
  | none => exact repeats_none
  | some a =>
      rintro f ⟨⟩
      exact each a

theorem repeats_some {texts : List String} {f : Finding}
    (said : OneLine f.message ↔ ∀ t ∈ texts, OneLine t) : Repeats texts (some f) := by
  rintro g ⟨⟩
  exact said

theorem repeats_findSome? {α β : Type} {h : α → Option β} {textsOf : β → List String}
    {g : α → β → Finding} {l : List α}
    (each : ∀ a ∈ l, ∀ b, OneLine (g a b).message ↔ ∀ t ∈ textsOf b, OneLine t) :
    Repeats (((l.findSome? h).map textsOf).getD []) (l.findSome? fun a => (h a).map (g a)) := by
  induction l with
  | nil => exact repeats_none
  | cons a l ih =>
      rw [List.findSome?_cons, List.findSome?_cons]
      cases h a with
      | none => exact ih fun a' later => each a' (List.mem_cons_of_mem a later)
      | some b =>
          rintro f ⟨⟩
          exact each a List.mem_cons_self b

end Searching

section Judging

variable {x : Context} (javaOnly : OneLine x.settings.javaOnly)
  (kotlinOnly : OneLine x.settings.kotlinOnly) (f : SourceFile)

include javaOnly kotlinOnly in
theorem repeats_judgeMarks {unmarked : Option Finding} {texts : List String}
    (own : Repeats texts unmarked) (location : Location) {what : String} (line : OneLine what)
    (m : Marks) : Repeats (m.texts texts) (judgeMarks x location what unmarked m) := by
  obtain ⟨java, kotlin⟩ := m
  cases java <;> cases kotlin
  case false.false => exact own
  case true.true =>
    rw [judgeMarks]
    refine repeats_some (iff_of_true ?_ nofun)
    rw [Info.message_finding]
    exact oneLine_bothMessage javaOnly kotlinOnly line
  all_goals exact repeats_none

include javaOnly kotlinOnly in
theorem oneLine_of_mem_inherited : ∀ target ∈ inherited x.settings, OneLine target := by
  simp only [inherited, List.forall_mem_cons]
  exact ⟨kotlinOnly, javaOnly, nofun⟩

include javaOnly kotlinOnly in
theorem repeats_judgeSubtype (c : ClassDecl) (named : c.isNamed = true) :
    Repeats (classTexts x f c) (judgeSubtype x f c) := by
  rw [classTexts, if_pos named, judgeSubtype]
  refine repeats_findSome? fun target mem t => ?_
  rw [Info.message_finding]
  exact oneLine_subtypeMessage (oneLine_of_mem_inherited javaOnly kotlinOnly target mem) t

include javaOnly in
theorem repeats_judgeAnonymous (c : ClassDecl) (unnamed : ¬ c.isNamed = true) :
    Repeats (classTexts x f c) (judgeAnonymous x f c) := by
  have kind : OneLine "anonymous" := by simp
  rw [classTexts, if_neg unnamed, judgeAnonymous]
  split
  · exact repeats_none
  · refine repeats_bind (fun base => ?_) _
    cases carried? base.annotations x.settings.javaOnly with
    | none => exact repeats_none
    | some _ =>
        refine repeats_some ?_
        rw [Info.message_finding]
        exact oneLine_instanceMessage javaOnly kind base

include javaOnly kotlinOnly in
theorem repeats_judgeClass (c : ClassDecl) :
    Repeats ((marks x f c.annotations).texts (classTexts x f c)) (judgeClass x f c) := by
  have what : OneLine "types" := by simp
  rw [judgeClass]
  refine repeats_judgeMarks javaOnly kotlinOnly ?_ _ what _
  split
  case isTrue named => exact repeats_judgeSubtype javaOnly kotlinOnly f c named
  case isFalse unnamed => exact repeats_judgeAnonymous javaOnly f c unnamed

include javaOnly kotlinOnly in
theorem repeats_judgeMethod (m : MethodDecl) :
    Repeats ((marks x f m.annotations).texts (overrideTexts x f m)) (judgeMethod x f m) := by
  have what : OneLine "functions" := by simp
  rw [judgeMethod]
  refine repeats_judgeMarks javaOnly kotlinOnly ?_ _ what _
  rw [judgeOverride, overrideTexts]
  refine repeats_bind (fun overridden => ?_) _
  cases found : (inherited x.settings).find? fun t => (carried? overridden.annotations t).isSome with
  | none => exact repeats_none
  | some target =>
      have mem := List.mem_of_find?_eq_some found
      refine repeats_some ?_
      rw [Info.message_finding]
      exact oneLine_overrideMessage (oneLine_of_mem_inherited javaOnly kotlinOnly target mem) _

theorem repeats_restriction (location : Location) {what : String} (line : OneLine what)
    (reason? : Option String) : Repeats ((reason?.map given).getD []) (reason?.map fun reason =>
      info.finding location (restrictionMessage what reason) none) := by
  refine repeats_map (fun reason => ?_) _
  rw [Info.message_finding]
  exact oneLine_restrictionMessage line reason

theorem repeats_judgeUse (location : Location) (m? : Option Member) :
    Repeats (useTexts x m?) (judgeUse x location m?) := by
  have what : OneLine "called from Kotlin" := by simp
  exact repeats_restriction location what _

include javaOnly in
theorem repeats_judgeInterface (location : Location) (t : TypeSymbol) :
    Repeats (interfaceTexts x t) (judgeInterface x location t) := by
  have kind : OneLine "lambda" := by simp
  have what : OneLine "expressed as a lambda in Kotlin" := by simp
  rw [interfaceTexts, judgeInterface]
  cases carried? t.annotations x.settings.javaOnly with
  | some _ =>
      refine repeats_some ?_
      rw [Info.message_finding]
      exact oneLine_instanceMessage javaOnly kind t
  | none =>
      have restricted : (t.methods.head?.map t.member).bind (memberRestriction? x) =
          t.methods.head?.bind fun m => memberRestriction? x (t.member m) := by
        cases t.methods.head? <;> rfl
      rw [useTexts, restricted]
      exact repeats_restriction location what _

include javaOnly in
theorem repeats_judgeLambda (l : Lambda) :
    Repeats (((knownType? x f l.functionalInterface?).map (interfaceTexts x)).getD [])
      (judgeLambda x f l) := by
  rw [judgeLambda]
  split
  · exact repeats_none
  · exact repeats_bind (repeats_judgeInterface javaOnly l.location) _

include javaOnly kotlinOnly in
/-- The boundary says what it finds at a node in one line if the texts that it
repeats are lines. -/
theorem repeats_judgeNode (n : Node) : Repeats (texts x f n) (judgeNode x f n) := by
  cases n with
  | type c => exact repeats_judgeClass javaOnly kotlinOnly f c
  | method m => exact repeats_judgeMethod javaOnly kotlinOnly f m
  | lambda l => exact repeats_judgeLambda javaOnly f l
  | call c => exact repeats_judgeUse _ _
  | reference r => exact repeats_judgeUse _ _
  | _ => exact repeats_none

end Judging

end Boundary

/-! ## The catalog -/

/-- The texts of the project that a rule's message about a node repeats: only
the boundary repeats any. -/
def repeated (r : Rule) (x : Context) (n : Node) : List String :=
  if r.id = languageBoundary.id then (x.source?.map (Boundary.texts x · n)).getD [] else []

theorem repeats_languageBoundary {x : Context} (javaOnly : OneLine x.settings.javaOnly)
    (kotlinOnly : OneLine x.settings.kotlinOnly) {n : Node} {f : Finding}
    (found : languageBoundary.judge x n = .ok (some f)) :
    OneLine f.message ↔ ∀ t ∈ (x.source?.map (Boundary.texts x · n)).getD [], OneLine t := by
  dsimp only [languageBoundary] at found
  cases read : x.source? with
  | none =>
      rw [read] at found
      cases found
  | some source =>
      rw [read] at found
      have judged := Except.ok.inj found
      split at judged
      · exact Boundary.repeats_judgeNode javaOnly kotlinOnly source n f judged
      · cases judged

/-- What a rule says is one line exactly if the texts that it repeats are. -/
theorem oneLine_judge_iff {r : Rule} (mem : r ∈ all) {x : Context}
    (javaOnly : OneLine x.settings.javaOnly) (kotlinOnly : OneLine x.settings.kotlinOnly)
    {n : Node} {f : Finding} (found : r.judge x n = .ok (some f)) :
    OneLine f.message ↔ ∀ t ∈ r.repeated x n, OneLine t := by
  rw [repeated]
  split
  case isTrue same =>
    obtain rfl := eq_of_id_eq mem (by simp [all]) same
    exact repeats_languageBoundary javaOnly kotlinOnly found
  case isFalse other =>
    have worded := (reply_of_judge mem found).worded other
    exact iff_of_true (oneLine_fixedMessages f.message worded) fun _ mem => by cases mem

end Rule

end AndroidLint
