/-
Suggestion — what becomes of the annotation that a fix suggests.

Something unmarked that extends or overrides something marked is reported, with
a fix that writes the mark's full name in front of it.  One more annotation
changes the judgement by its full name only (`marks_append`): the judgement is
gone if the name is read as one of the two marks, and the same as before if not
(`judge_annotated`).

A known name with a dot is read as itself, as long as it is read to its end
(`typeName?_of_known`).  What ends a written type ends the name, though, also
where it is a part of it, as it can be of a name between backquotes.
-/
import AndroidLint.Proofs.Rule.Calls
import AndroidLint.Proofs.Text.Parts

namespace AndroidLint

open Code (SourceFile ClassDecl MethodDecl Language)
open AndroidLint.Symbol (Index carried?)

/-! ## Names that are read to their end -/

namespace Text

theorem eq_of_splitFirst? {c : Char} {s head rest : String}
    (cut : splitFirst? c s = some (head, rest)) : s = head ++ String.singleton c ++ rest := by
  rw [splitFirst?] at cut
  split at cut
  case h_1 => cases cut
  case h_2 d r hr =>
    obtain ⟨rfl, rfl⟩ := Prod.mk.inj (Option.some.inj cut)
    have hd : d = c := by
      simpa using head?_dropWhile (· != c) s.toList d (by rw [hr]; rfl)
    have whole : s.toList.takeWhile (· != c) ++ s.toList.dropWhile (· != c) = s.toList :=
      List.takeWhile_append_dropWhile
    rw [hr, hd] at whole
    apply String.toList_inj.mp
    simpa using whole.symm

theorem exists_splitFirst? {c : Char} {s : String} (mem : c ∈ s.toList) :
    ∃ head rest, splitFirst? c s = some (head, rest) := by
  rw [splitFirst?]
  split
  case h_1 none =>
    have all := List.dropWhile_eq_nil_iff.mp none c mem
    simp at all
  case h_2 => exact ⟨_, _, rfl⟩

end Text

namespace Symbol

/-- A name without anything that ends a written type is all there is of it. -/
theorem erase_eq_self {written : String} (whole : ∀ c ∈ written.toList, endsName c = false) :
    erase written = written := by
  have blank (c : Char) (mem : c ∈ written.toList) : Text.isBlank c = false := by
    have := whole c mem
    rw [endsName, Bool.or_eq_false_iff] at this
    exact this.2
  have trimmed : Text.trim written = written := by
    rw [Text.trim, Text.strip_eq_iff.mpr, String.ofList_toList]
    exact
      { around := ⟨[], [], by simp, nofun, nofun⟩
        first := fun c mem => blank c (List.mem_of_mem_head? mem)
        last := fun c mem => blank c (List.mem_of_mem_getLast? mem) }
  rw [erase, trimmed, List.takeWhile_eq_self_iff.mpr fun c mem => by rw [whole c mem]; rfl,
    String.ofList_toList]

/-- A known name with a dot is read as itself if it is read to its end. -/
theorem typeName?_of_known {known : Known} {name : String} (knows : known name = true)
    (dotted : '.' ∈ name.toList) (whole : ∀ c ∈ name.toList, endsName c = false)
    (f : SourceFile) : typeName? known f name = some name := by
  obtain ⟨head, rest, cut⟩ := Text.exists_splitFirst? dotted
  have same : within head rest = name := (Text.eq_of_splitFirst? cut).symm
  rw [typeName?, erase_eq_self whole]
  simp only [cut, dottedTypeName?, same, knows, if_true]

end Symbol

namespace Rule

/-! ## One more annotation -/

/-- The annotations that a class or a method is written with. -/
def Node.annotations : Node → List Code.Annotation
  | .type c => c.annotations
  | .method m => m.annotations
  | _ => []

/-- A class or a method with one more annotation. -/
def Node.annotated (a : Code.Annotation) : Node → Node
  | .type c => .type { c with annotations := c.annotations ++ [a] }
  | .method m => .method { m with annotations := m.annotations ++ [a] }
  | n => n

namespace Boundary

/-- `Suggests target n fix`: the fix writes the annotation in front of the class,
or in front of the modifiers of the method. -/
def Suggests (target : String) : Node → Fix → Prop
  | .type c, fix => fix = annotateFix target c.text s!"@{target} {c.text}"
  | .method m, fix =>
      fix = annotateFix target m.modifiers (Text.trimEnd s!"@{target} {m.modifiers}")
  | _, _ => False

/-- The full name that an annotation's name is read as. -/
def fullName (x : Context) (f : SourceFile) (name : String) : String :=
  (x.resolver.typeName? f name).getD name

section Judgement

variable {x : Context} {f : SourceFile}

theorem isSome_carried? (x : Context) (f : SourceFile) (as : List Code.Annotation)
    (name : String) :
    (carried? (x.resolver.annotations f as) name).isSome =
      as.any fun a => fullName x f a.name == name := by
  rw [carried?, List.isSome_find?, Symbol.Resolver.annotations, Symbol.annotationsBy, List.any_map]
  rfl

/-- One more annotation adds the mark that its full name is. -/
theorem marks_append (x : Context) (f : SourceFile) (as : List Code.Annotation)
    (a : Code.Annotation) :
    marks x f (as ++ [a]) =
      ⟨(marks x f as).javaOnly || fullName x f a.name == x.settings.javaOnly,
        (marks x f as).kotlinOnly || fullName x f a.name == x.settings.kotlinOnly⟩ := by
  simp only [marks, isSome_carried?, List.any_append, List.any_cons, List.any_nil, Bool.or_false]

/-- What comes with a fix is about something unmarked. -/
theorem of_judgeMarks {location : Location} {what : String} {unmarked : Option Finding}
    {found : Finding} {fix : Fix} {ms : Marks}
    (judged : judgeMarks x location what unmarked ms = some found) (fixed : found.fix = some fix) :
    ms = ⟨false, false⟩ ∧ unmarked = some found := by
  obtain ⟨_ | _, _ | _⟩ := ms
  · exact ⟨rfl, judged⟩
  · cases judged
  · cases judged
  · obtain rfl := Option.some.inj judged
    cases fixed

/-- Something unmarked with one more annotation is judged as before, unless the
annotation is read as one of the marks. -/
theorem judgeMarks_append (distinct : x.settings.javaOnly ≠ x.settings.kotlinOnly)
    {as : List Code.Annotation} (none : marks x f as = ⟨false, false⟩) (a : Code.Annotation)
    (location : Location) (what : String) (unmarked : Option Finding) :
    judgeMarks x location what unmarked (marks x f (as ++ [a])) =
      if fullName x f a.name ∈ inherited x.settings then Option.none else unmarked := by
  rw [marks_append, none, Bool.false_or, Bool.false_or]
  by_cases java : fullName x f a.name = x.settings.javaOnly
  · rw [java]
    simp [inherited, judgeMarks, distinct]
  · by_cases kotlin : fullName x f a.name = x.settings.kotlinOnly
    · simp [inherited, judgeMarks, kotlin, distinct.symm]
    · rw [beq_eq_false_iff_ne.mpr java, beq_eq_false_iff_ne.mpr kotlin,
        if_neg (by simp [inherited, java, kotlin])]
      rfl

/-- The annotation that is suggested is one of the two. -/
theorem suggests_judgeSubtype {c : ClassDecl} {found : Finding} {fix : Fix}
    (judged : judgeSubtype x f c = some found) (fixed : found.fix = some fix) :
    ∃ target ∈ inherited x.settings, Suggests target (.type c) fix := by
  obtain ⟨target, mem, judged⟩ := List.exists_of_findSome?_eq_some judged
  obtain ⟨t, -, rfl⟩ := Option.map_eq_some_iff.mp judged
  exact ⟨target, mem, (Option.some.inj fixed).symm⟩

theorem suggests_judgeOverride {m : MethodDecl} {found : Finding} {fix : Fix}
    (judged : judgeOverride x f m = some found) (fixed : found.fix = some fix) :
    ∃ target ∈ inherited x.settings, Suggests target (.method m) fix := by
  obtain ⟨overridden, -, judged⟩ := Option.bind_eq_some_iff.mp judged
  obtain ⟨target, among, rfl⟩ := Option.map_eq_some_iff.mp judged
  exact ⟨target, List.mem_of_find?_eq_some among, (Option.some.inj fixed).symm⟩

/-- Nothing is suggested about an object. -/
theorem fix_judgeAnonymous {c : ClassDecl} {found : Finding}
    (judged : judgeAnonymous x f c = some found) : found.fix = none := by
  rw [judgeAnonymous] at judged
  split at judged
  · cases judged
  · obtain ⟨base, -, judged⟩ := Option.bind_eq_some_iff.mp judged
    obtain ⟨a, -, rfl⟩ := Option.map_eq_some_iff.mp judged
    rfl

/-- Nothing is suggested about a use or a lambda. -/
theorem fix_judgeUse {location : Location} {m? : Option Symbol.Member} {found : Finding}
    (judged : judgeUse x location m? = some found) : found.fix = none := by
  obtain ⟨reason, -, rfl⟩ := Option.map_eq_some_iff.mp judged
  rfl

theorem fix_judgeLambda {l : Code.Lambda} {found : Finding}
    (judged : judgeLambda x f l = some found) : found.fix = none := by
  rw [judgeLambda] at judged
  split at judged
  · cases judged
  · obtain ⟨t, -, judged⟩ := Option.bind_eq_some_iff.mp judged
    rw [judgeInterface] at judged
    split at judged
    · obtain rfl := Option.some.inj judged
      rfl
    · obtain ⟨reason, -, rfl⟩ := Option.map_eq_some_iff.mp judged
      rfl

/-- What is suggested about a node, and what becomes of the judgement. -/
structure Suggestion (x : Context) (f : SourceFile) (n : Node) (found : Finding) (fix : Fix)
    (target : String) : Prop where
  unmarked : marks x f n.annotations = ⟨false, false⟩
  among : target ∈ inherited x.settings
  suggests : Suggests target n fix
  judged : ∀ a : Code.Annotation, judgeNode x f (n.annotated a) =
    if fullName x f a.name ∈ inherited x.settings then none else some found

theorem exists_suggestion {n : Node} {found : Finding} {fix : Fix}
    (distinct : x.settings.javaOnly ≠ x.settings.kotlinOnly)
    (judged : judgeNode x f n = some found) (fixed : found.fix = some fix) :
    ∃ target, Suggestion x f n found fix target := by
  cases n with
  | type c =>
      obtain ⟨none, own⟩ := of_judgeMarks judged fixed
      have again (a : Code.Annotation) : judgeNode x f ((Node.type c).annotated a) =
          if fullName x f a.name ∈ inherited x.settings then Option.none else some found :=
        own ▸ judgeMarks_append distinct none a c.location "types" _
      split at own
      case isTrue =>
        obtain ⟨target, among, suggests⟩ := suggests_judgeSubtype own fixed
        exact ⟨target, none, among, suggests, again⟩
      case isFalse => cases (fix_judgeAnonymous own).symm.trans fixed
  | method m =>
      obtain ⟨none, own⟩ := of_judgeMarks judged fixed
      have again (a : Code.Annotation) : judgeNode x f ((Node.method m).annotated a) =
          if fullName x f a.name ∈ inherited x.settings then Option.none else some found :=
        own ▸ judgeMarks_append distinct none a m.location "functions" _
      obtain ⟨target, among, suggests⟩ := suggests_judgeOverride own fixed
      exact ⟨target, none, among, suggests, again⟩
  | lambda l => cases (fix_judgeLambda judged).symm.trans fixed
  | call c => cases (fix_judgeUse judged).symm.trans fixed
  | reference r => cases (fix_judgeUse judged).symm.trans fixed
  | _ => cases judged

/-- A mark whose name is read to its end is read as itself. -/
theorem fullName_of_known {y : Index} (answers : x.resolver = y.resolver) {name : String}
    (knows : y.types.knows name = true) (dotted : '.' ∈ name.toList)
    (whole : ∀ c ∈ name.toList, Symbol.endsName c = false) : fullName x f name = name := by
  rw [fullName, answers, Index.resolver_typeName?, Index.typeName?,
    Symbol.typeName?_of_known knows dotted whole, Option.getD_some]

end Judgement

/-- **A suggested annotation settles what it is suggested for, if it is read.**
Let both marks be known types with a dot in their names, and not one type.  What is
reported with a fix is unmarked, and the fix writes one of the marks in front of
it.  With this annotation, nothing is reported any more if the name is read as one
of the marks, as it is if nothing in it ends a written type; and if it is read as
another name, the same is reported again. -/
theorem judge_annotated {x : Context} {y : Index} (answers : x.resolver = y.resolver)
    (known : ∀ name ∈ inherited x.settings, y.types.knows name = true ∧ '.' ∈ name.toList)
    (distinct : x.settings.javaOnly ≠ x.settings.kotlinOnly) {n : Node} {found : Finding}
    {fix : Fix} (judged : languageBoundary.judge x n = .ok (some found))
    (fixed : found.fix = some fix) :
    ∃ f target, x.source? = some f ∧ target ∈ inherited x.settings ∧ Suggests target n fix ∧
      marks x f n.annotations = ⟨false, false⟩ ∧ ∀ value?,
        languageBoundary.judge x (n.annotated ⟨target, value?⟩) =
            (if fullName x f target ∈ inherited x.settings then pass else .ok (some found)) ∧
          ((∀ c ∈ target.toList, Symbol.endsName c = false) →
            languageBoundary.judge x (n.annotated ⟨target, value?⟩) = pass) := by
  obtain ⟨f, source, kotlin, judged⟩ : ∃ f, x.source? = some f ∧ f.language = .kotlin ∧
      judgeNode x f n = some found := by
    simp only [languageBoundary] at judged
    cases source : x.source? with
    | none =>
        rw [source] at judged
        cases judged
    | some f =>
        rw [source] at judged
        have judged := Except.ok.inj judged
        split at judged
        case isTrue kotlin => exact ⟨f, rfl, kotlin, judged⟩
        case isFalse => cases judged
  obtain ⟨target, suggestion⟩ := exists_suggestion distinct judged fixed
  refine ⟨f, target, source, suggestion.among, suggestion.suggests, suggestion.unmarked,
    fun value? => ?_⟩
  have again : languageBoundary.judge x (n.annotated ⟨target, value?⟩) =
      (if fullName x f target ∈ inherited x.settings then pass else .ok (some found)) := by
    simp only [languageBoundary, source, kotlin, if_true, suggestion.judged]
    split
    · rfl
    · rfl
  refine ⟨again, fun whole => ?_⟩
  obtain ⟨knows, dotted⟩ := known target suggestion.among
  rw [again, fullName_of_known answers knows dotted whole, if_pos suggestion.among]

/-- A class that extends a type. -/
def subFile : SourceFile :=
  Language.kotlin.read ⟨"src/Sub.kt"⟩ "package p\n\nclass Sub : Base\n"

/-- What rules may consult about that file, if marks of two names are set, and
the type carries the first. -/
def markedContext (java kotlin : String) : Context :=
  let marksFile := Language.kotlin.read ⟨"src/Marks.kt"⟩
    ("package p\n\nannotation class " ++ java ++ "\n\nannotation class " ++ kotlin ++ "\n")
  let baseFile := Language.kotlin.read ⟨"src/Base.kt"⟩
    ("package p\n\nimport p." ++ java ++ " as Marked\n\n@Marked interface Base\n")
  { contextIn [marksFile, baseFile, subFile] subFile with
    settings := { Settings.default with javaOnly := "p." ++ java, kotlinOnly := "p." ++ kotlin } }

theorem judge_annotated_sub :
    let x := markedContext "JavaOnly" "KotlinOnly"
    ∃ c found, subFile.classes[0]? = some c ∧
      languageBoundary.judge x (.type c) = .ok (some found) ∧
      ∃ target ∈ inherited x.settings,
        languageBoundary.judge x ((Node.type c).annotated ⟨target, none⟩) = pass := by
  intro x
  -- in one go, so that the texts are read once
  obtain ⟨knows, reported⟩ :
      (inherited x.settings).all x.resolver.types.knows = true ∧
        subFile.classes[0]?.any (fun c =>
          (languageBoundary.judge x (.type c)).toOption.join.any (·.fix.isSome)) = true := by
    decide +kernel
  obtain ⟨y, answers⟩ : ∃ y : Index, x.resolver = y.resolver := ⟨_, rfl⟩
  have names : inherited x.settings = ["p.KotlinOnly", "p.JavaOnly"] := rfl
  -- what the files are does not matter any more
  clear_value x
  obtain ⟨c, hc, reported⟩ := (Option.any_eq_true _ _).mp reported
  obtain ⟨found, found?, fixed⟩ := (Option.any_eq_true _ _).mp reported
  obtain ⟨fix, fixed⟩ := Option.isSome_iff_exists.mp fixed
  have judged : languageBoundary.judge x (.type c) = .ok (some found) := by
    cases verdict : languageBoundary.judge x (.type c) with
    | error e =>
        rw [verdict] at found?
        cases found?
    | ok found' =>
        rw [verdict] at found?
        exact congrArg Except.ok found?
  have plain : ∀ name ∈ inherited x.settings,
      '.' ∈ name.toList ∧ ∀ c ∈ name.toList, Symbol.endsName c = false := by
    rw [names]
    simp [Symbol.endsName, Text.isBlank]
  have known : ∀ name ∈ inherited x.settings,
      y.types.knows name = true ∧ '.' ∈ name.toList := by
    rw [answers, Index.resolver_types] at knows
    exact fun name mem => ⟨List.all_eq_true.mp knows name mem, (plain name mem).1⟩
  have distinct : x.settings.javaOnly ≠ x.settings.kotlinOnly := by
    simp only [inherited, List.cons.injEq] at names
    rw [names.1, names.2.1]
    decide
  obtain ⟨f, target, -, among, -, -, settled⟩ := judge_annotated answers known distinct judged fixed
  exact ⟨c, found, hc, judged, target, among, (settled none).2 (plain target among).2⟩

/-- What the fix that is reported for a node replaces, and by what. -/
def suggested? (x : Context) (n : Node) : Option (String × String) :=
  match (languageBoundary.judge x n).toOption.join.bind (·.fix) with
  | some (.replaceText _ old new) => some (old, new)
  | _ => none

/-- Names between backquotes with a question mark: the annotation that is suggested
does not settle anything, and is suggested once more. -/
theorem judge_annotated_backquoted :
    let x := markedContext "`Java?`" "`Kotlin?`"
    (inherited x.settings).all x.resolver.types.knows = true ∧
      subFile.classes.toList.map (fun c =>
        (c.name, languageBoundary.reports x (.type c), suggested? x (.type c))) =
        [("Sub", true, some ("class Sub : Base", "@p.`Java?` class Sub : Base"))] ∧
      subFile.classes.toList.map (fun c =>
        let marked := (Node.type c).annotated ⟨x.settings.javaOnly, none⟩
        (c.name, languageBoundary.reports x marked, suggested? x marked)) =
        [("Sub", true, some ("class Sub : Base", "@p.`Java?` class Sub : Base"))] := by
  decide +kernel

end Boundary

end Rule

end AndroidLint
