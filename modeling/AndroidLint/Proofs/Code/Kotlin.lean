/-
Kotlin — what one node of a Kotlin file adds.

A node takes one step, in its scope or, if it is a function or a property,
in that of the facade (`isStepFrom_enter`).  The facade is made when the
first of them is met outside every class, so a draft knows whether it is
there, and there is no second one (`Draft.Sound`).
-/
import AndroidLint.Proofs.Code.Step

namespace AndroidLint

namespace Code

namespace Kotlin

open Syntax (Tree)

/-! ## Expressions -/

theorem mem_listScopes_append {s : Scope} {es es' : List Expr} :
    s ∈ listScopes (es ++ es') ↔ s ∈ listScopes es ∨ s ∈ listScopes es' := by
  induction es with
  | nil => simp [listScopes]
  | cons e es ih => simp [listScopes, ih, or_assoc]

section Expressions

variable (o : Origin) (s : Scope)

/-- A call is read from a node with arguments behind a name, and every part of it from
that node. -/
theorem expr_eq_call_iff {o s} {t : Tree} {c : Call} (kind : t.kind? = some .call) :
    expr o s t = .call c ↔ t.children.any (Tree.isKind .callSuffix) = true ∧
      ∃ name, calledName? o t = some name ∧
        c = ⟨name, receiver? o s t.children, arguments o s t.children, s, o.location t⟩ := by
  cases t with
  | word => cases kind
  | node k r p ts =>
      obtain rfl : k = .call := Option.some.inj kind
      simp only [expr, Tree.children]
      cases calledName? o (.node .call r p ts) with
      | none => simp
      | some name =>
          cases ts.any (Tree.isKind .callSuffix) with
          | false => simp
          | true => simp [eq_comm, Origin.location, Tree.span]

mutual

theorem scopes_expr : (t : Tree) → ∀ s' ∈ (expr o s t).scopes, s' = s
  | .word .. => fun _ mem => by
      rw [expr] at mem
      cases mem
  | .node k r p ts => by
      intro s' mem
      rw [expr.eq_def] at mem
      simp only at mem
      split at mem
      case h_2 => split at mem <;> cases mem
      case h_6 =>
        split at mem
        case h_1 =>
          rw [Expr.scopes, Call.scopes, List.mem_cons, List.mem_append] at mem
          obtain here | mem | mem := mem
          · exact here
          · exact scopes_receiver? ts s' mem
          · exact scopes_arguments ts s' mem
        case h_2 => cases mem
      case h_7 => exact scopes_first ts s' mem
      all_goals cases mem

theorem scopes_first : (ts : List Tree) → ∀ s' ∈ (first o s ts).scopes, s' = s
  | [] => fun _ mem => by
      rw [first] at mem
      cases mem
  | .word .. :: ts => fun s' mem => by
      rw [first] at mem
      exact scopes_first ts s' mem
  | .node k r p us :: _ => fun s' mem => by
      rw [first] at mem
      exact scopes_expr (.node k r p us) s' mem

theorem scopes_receiver? : (ts : List Tree) → ∀ s' ∈ optionScopes (receiver? o s ts), s' = s
  | [] => fun _ mem => by
      rw [receiver?] at mem
      cases mem
  | .word .. :: ts => fun s' mem => by
      rw [receiver?] at mem
      exact scopes_receiver? ts s' mem
  | .node k _ _ us :: _ => fun s' mem => by
      rw [receiver?] at mem
      split at mem
      case isTrue => exact scopes_first us s' mem
      case isFalse => cases mem

theorem scopes_arguments : (ts : List Tree) → ∀ s' ∈ listScopes (arguments o s ts), s' = s
  | [] => fun _ mem => by
      rw [arguments] at mem
      cases mem
  | .word .. :: ts => fun s' mem => by
      rw [arguments] at mem
      exact scopes_arguments ts s' mem
  | .node k _ _ us :: ts => fun s' mem => by
      rw [arguments] at mem
      split at mem
      case isTrue =>
        obtain mem | mem := mem_listScopes_append.mp mem
        · exact scopes_listed us s' mem
        · split at mem <;> cases mem
      case isFalse => exact scopes_arguments ts s' mem

theorem scopes_listed : (ts : List Tree) → ∀ s' ∈ listScopes (listed o s ts), s' = s
  | [] => fun _ mem => by
      rw [listed] at mem
      cases mem
  | .word .. :: ts => fun s' mem => by
      rw [listed] at mem
      exact scopes_listed ts s' mem
  | .node k _ _ us :: ts => fun s' mem => by
      rw [listed] at mem
      split at mem
      case isTrue => exact scopes_values us s' mem
      case isFalse => exact scopes_listed ts s' mem

theorem scopes_values : (ts : List Tree) → ∀ s' ∈ listScopes (values o s ts), s' = s
  | [] => fun _ mem => by
      rw [values] at mem
      cases mem
  | .word .. :: ts => fun s' mem => by
      rw [values] at mem
      exact scopes_values ts s' mem
  | .node k _ _ us :: ts => fun s' mem => by
      rw [values] at mem
      split at mem
      case isTrue =>
        obtain mem | mem := mem_listScopes_append.mp mem
        · exact scopes_last? us s' mem
        · exact scopes_values ts s' mem
      case isFalse => exact scopes_values ts s' mem

theorem scopes_last? : (ts : List Tree) → ∀ s' ∈ listScopes (last? o s ts).toList, s' = s
  | [] => fun _ mem => by
      rw [last?] at mem
      cases mem
  | .word .. :: ts => fun s' mem => by
      rw [last?] at mem
      exact scopes_last? ts s' mem
  | .node k r p us :: ts => fun s' mem => by
      rw [last?] at mem
      cases hlast : last? o s ts with
      | none =>
          rw [hlast] at mem
          exact scopes_expr (.node k r p us) s' (by simpa [listScopes] using mem)
      | some e =>
          rw [hlast] at mem
          exact scopes_last? ts s' (by rw [hlast]; exact mem)

end

end Expressions

/-! ## What is left alone -/

/-- `d.SameLists d'`: the files of two drafts are in one language and list the same
methods, calls and lambdas. -/
structure Draft.SameLists (d d' : Draft) : Prop where
  language : d'.file.language = d.file.language
  methods : d'.file.methods = d.file.methods
  calls : d'.file.calls = d.file.calls
  lambdas : d'.file.lambdas = d.file.lambdas

theorem Draft.SameLists.trans {d d' d'' : Draft} (first : d.SameLists d')
    (second : d'.SameLists d'') : d.SameLists d'' :=
  ⟨second.language.trans first.language, second.methods.trans first.methods,
    second.calls.trans first.calls, second.lambdas.trans first.lambdas⟩

section SameLists

variable {o : Origin} {s : Scope} {d : Draft} {t : Tree}

theorem sameLists_addImport : d.SameLists (addImport o d t) := by
  rw [addImport]
  split <;> exact ⟨rfl, rfl, rfl, rfl⟩

theorem sameLists_inFacade : d.SameLists (inFacade d s).1 := by
  rw [inFacade]
  split <;> exact ⟨rfl, rfl, rfl, rfl⟩

theorem sameLists_declare (name? : Option Tree) (type? : Option String) :
    d.SameLists (declare o d s name? type?) := by
  rw [declare.eq_def]
  split <;> exact ⟨rfl, rfl, rfl, rfl⟩

theorem sameLists_declareProperty : d.SameLists (declareProperty o d s t) := by
  rw [declareProperty]
  split
  · exact ⟨rfl, rfl, rfl, rfl⟩
  · exact sameLists_declare _ _

theorem sameLists_addPlainReference : d.SameLists (addPlainReference o d s t) := by
  rw [addPlainReference]
  split <;> exact ⟨rfl, rfl, rfl, rfl⟩

theorem sameLists_addMemberReference : d.SameLists (addMemberReference o d s t) := by
  rw [addMemberReference]
  split
  · exact ⟨rfl, rfl, rfl, rfl⟩
  · split <;> exact ⟨rfl, rfl, rfl, rfl⟩

end SameLists

/-! ## Entries -/

section Entries

variable {o : Origin} {s : Scope} {d : Draft} {t : Tree}

/-- `IsStepFrom d s e`: the entry takes one step from the draft and makes no
facade; a part outside every class lies in the scope of the node. -/
structure IsStepFrom (d : Draft) (s : Scope) (e : Entry Draft) : Prop where
  isStep : e.IsStep Draft.file s d.file
  facade? : e.state.facade? = d.facade?
  outside : ∀ u s', e.scope? u = some s' → s'.class? = none → s' = s

theorem isStepFrom_closed {d' : Draft} (same : d.file.SameNodes d'.file)
    (facade? : d'.facade? = d.facade?) : IsStepFrom d s (.closed d') :=
  ⟨Entry.isStep_closed same, facade?, fun _ _ part => by cases part⟩

theorem isStepFrom_within {d' : Draft} {s' : Scope} (step : d.file.Step s d'.file s')
    (facade? : d'.facade? = d.facade?) (outside : s'.class? = none → s' = s) :
    IsStepFrom d s (.within d' s') :=
  ⟨Entry.isStep_within step, facade?, fun _ _ part => Option.some.inj part ▸ outside⟩

/-- Most nodes hand their own scope on. -/
theorem isStepFrom_here {d' : Draft} (step : d.file.Step s d'.file s)
    (facade? : d'.facade? = d.facade?) : IsStepFrom d s (.within d' s) :=
  isStepFrom_within step facade? fun _ => rfl

theorem isStepFrom_addImport : IsStepFrom d s (.closed (addImport o d t)) := by
  rw [addImport]
  split
  · exact isStepFrom_closed (.refl _) rfl
  · exact isStepFrom_closed ⟨rfl, rfl, rfl, rfl, rfl⟩ rfl

theorem isStepFrom_declare (name? : Option Tree) (type? : Option String) :
    IsStepFrom d s (.within (declare o d s name? type?) s) := by
  rw [declare.eq_def]
  split
  · exact isStepFrom_here (.nothing ⟨rfl, rfl, rfl, rfl, rfl⟩) rfl
  · exact isStepFrom_here (.nothing (.refl _)) rfl

theorem isStepFrom_declareProperty : IsStepFrom d s (.within (declareProperty o d s t) s) := by
  rw [declareProperty]
  split
  · exact isStepFrom_here (.nothing (.refl _)) rfl
  · exact isStepFrom_declare _ _

theorem isStepFrom_addCall : IsStepFrom d s (.within (addCall o d s t) s) := by
  have hscopes := scopes_expr o s t
  rw [addCall]
  split
  case h_1 c hcall =>
    rw [hcall] at hscopes
    exact isStepFrom_here (.call hscopes) rfl
  case h_2 => exact isStepFrom_here (.nothing (.refl _)) rfl

theorem isStepFrom_addReference {receiver? : Option Expr} (member : Tree)
    (scopes : ∀ s' ∈ optionScopes receiver?, s' = s) :
    IsStepFrom d s (.within (addReference o d s t receiver? member) s) := by
  refine isStepFrom_here (.reference fun s' mem => ?_) rfl
  obtain here | mem := List.mem_cons.mp mem
  · exact here
  · exact scopes s' mem

theorem isStepFrom_addPlainReference :
    IsStepFrom d s (.within (addPlainReference o d s t) s) := by
  rw [addPlainReference]
  split
  · exact isStepFrom_here (.nothing (.refl _)) rfl
  · refine isStepFrom_addReference _ fun s' mem => ?_
    cases htype : t.named.find? isType with
    | none =>
        rw [htype] at mem
        cases mem
    | some u =>
        rw [htype, Option.map_some, optionScopes] at mem
        dsimp only at mem
        split at mem <;> cases mem

theorem isStepFrom_addMemberReference :
    IsStepFrom d s (.within (addMemberReference o d s t) s) := by
  rw [addMemberReference]
  split
  · exact isStepFrom_here (.nothing (.refl _)) rfl
  · split
    · exact isStepFrom_here (.nothing (.refl _)) rfl
    · refine isStepFrom_addReference _ fun s' mem => ?_
      cases htarget : t.named.head?.filter (!·.isKind .navigationSuffix) with
      | none =>
          rw [htarget] at mem
          cases mem
      | some u =>
          rw [htarget, Option.map_some, optionScopes] at mem
          exact scopes_expr o s u s' mem

theorem classKind_ne_facade : classKind o t ≠ .facade := by
  rw [classKind]
  split
  all_goals try decide
  dsimp only
  split_ifs <;> decide

theorem isStepFrom_addClass (above : List Tree) :
    IsStepFrom d s (.within { d with file := d.file.addClass (classOf o d.file s above t) }
      (.ofClass d.file.classes.size)) :=
  isStepFrom_within (.type rfl classKind_ne_facade) rfl fun h => by cases h

/-- In the facade every scope has a class. -/
theorem class?_inFacade : (inFacade d s).2.class? ≠ none := by
  rw [inFacade]
  split
  case h_1 hclass =>
    rw [hclass]
    exact Option.some_ne_none _
  case h_2 => exact Option.some_ne_none _
  case h_3 => exact Option.some_ne_none _

theorem isStepFrom_addMethod (hclass : s.class? ≠ none) :
    IsStepFrom d s (.within (addMethod o d s t) (s.inMethod d.file.methods.size)) :=
  isStepFrom_within (.method rfl) rfl fun h => absurd h hclass

/-- Each node takes one step, from the draft or from within the facade. -/
theorem isStepFrom_enter (above : List Tree) :
    IsStepFrom d s (enter o s above d t) ∨
      IsStepFrom (inFacade d s).1 (inFacade d s).2 (enter o s above d t) := by
  rw [enter.eq_def]
  split
  case h_1 => exact .inl (isStepFrom_closed ⟨rfl, rfl, rfl, rfl, rfl⟩ rfl)
  case h_2 => exact .inl isStepFrom_addImport
  case h_7 => exact .inr (isStepFrom_addMethod class?_inFacade)
  case h_8 => exact .inr isStepFrom_declareProperty
  case h_9 => exact .inl (isStepFrom_declare _ _)
  case h_10 => exact .inl isStepFrom_addCall
  case h_11 => exact .inl isStepFrom_addPlainReference
  case h_12 => exact .inl isStepFrom_addMemberReference
  case h_13 | h_14 => exact .inl (isStepFrom_here (.lambda rfl) rfl)
  case h_15 => exact .inl (isStepFrom_here (.nothing (.refl _)) rfl)
  all_goals exact .inl (isStepFrom_addClass above)

end Entries

/-! ## Drafts -/

section Drafts

variable {o : Origin} {s : Scope} {d : Draft} {e : Entry Draft}

/-- `d.Sound`: the file is well-scoped, and its facade is where the draft
has it. -/
structure Draft.Sound (d : Draft) : Prop where
  well : d.file.WellScoped
  facade : ∀ c ∈ d.facade?, d.file.Holds (.ofClass c)
  noFacade : d.facade? = none → d.file.facadeCount = 0

/-- `d.Fits s`: the scope is held by the file, and what lies in no class lies
in no method. -/
structure Draft.Fits (d : Draft) (s : Scope) : Prop where
  holds : d.file.Holds s
  outside : s.class? = none → s.method? = none

theorem Draft.sound_empty (path : FilePath) : Draft.Sound ⟨.empty path .kotlin, none, []⟩ where
  well := .empty path .kotlin
  facade _ mem := by cases mem
  noFacade _ := rfl

theorem Draft.Fits.file (d : Draft) : d.Fits .file :=
  ⟨SourceFile.holds_file _, fun _ => rfl⟩

theorem Draft.Fits.step (step : IsStepFrom d s e) {s' : Scope} (fits : d.Fits s') :
    e.state.Fits s' := by
  obtain ⟨_, step, -⟩ := step.isStep
  exact ⟨step.holds fits.holds, fits.outside⟩

theorem Draft.Fits.part (step : IsStepFrom d s e) (fits : d.Fits s) {u : Tree} {s' : Scope}
    (part : e.scope? u = some s') : e.state.Fits s' := by
  obtain ⟨s'', taken, parts⟩ := step.isStep
  refine ⟨?_, fun hclass => ?_⟩
  · obtain rfl | rfl := parts u s' part
    · exact taken.holds_part fits.holds
    · exact taken.holds fits.holds
  · obtain rfl := step.outside u s' part hclass
    exact fits.outside hclass

theorem Draft.Sound.step (step : IsStepFrom d s e) (sound : d.Sound) (fits : d.Fits s) :
    e.state.Sound := by
  obtain ⟨_, taken, -⟩ := step.isStep
  refine ⟨taken.wellScoped sound.well fits.holds, fun c mem => ?_, fun hnone => ?_⟩
  · rw [step.facade?] at mem
    exact taken.holds (sound.facade c mem)
  · rw [step.facade?] at hnone
    rw [taken.facadeCount]
    exact sound.noFacade hnone

/-- The draft and the scope in which a function or a property is met. -/
theorem Draft.Sound.inFacade (sound : d.Sound) (fits : d.Fits s) :
    (inFacade d s).1.Sound ∧ (inFacade d s).1.Fits (inFacade d s).2 ∧
      ∀ s', d.Fits s' → (inFacade d s).1.Fits s' := by
  obtain ⟨_ | c, m?⟩ := s
  case some => exact ⟨sound, fits, fun _ => id⟩
  case none =>
    obtain rfl : m? = none := fits.outside rfl
    cases hfacade : d.facade? with
    | some c =>
        simp only [Kotlin.inFacade, hfacade]
        exact ⟨sound, ⟨sound.facade c hfacade, fun h => by cases h⟩, fun _ => id⟩
    | none =>
        -- the facade is made here, and no class stood for the file before
        simp only [Kotlin.inFacade, hfacade]
        have made := SourceFile.holds_ofClass d.file (facadeOf d.file)
        refine ⟨⟨?_, ?_, ?_⟩, ⟨made, fun h => by cases h⟩, fun s' fits' => ?_⟩
        · exact sound.well.addClass (SourceFile.holds_file _)
            fun _ => ⟨rfl, sound.noFacade hfacade⟩
        · intro c mem
          obtain rfl := Option.some.inj mem
          exact made
        · intro h
          cases h
        · exact ⟨fits'.holds.addClass _, fits'.outside⟩

/-- Entries keep drafts sound. -/
theorem keeps_enter : Keeps (enter o) Draft.Sound Draft.Fits := by
  intro s above d t sound fits
  obtain step | step := isStepFrom_enter (o := o) (s := s) (d := d) (t := t) above
  · exact ⟨sound.step step fits, fun _ => .step step, fun _ _ => fits.part step⟩
  · obtain ⟨sound', fits', still⟩ := sound.inFacade fits
    exact ⟨sound'.step step fits', fun s' h => (still s' h).step step, fun _ _ => fits'.part step⟩

theorem wellScoped_ofTree (o : Origin) (t : Tree) : (ofTree o t).WellScoped :=
  (keeps_enter.walk (Draft.sound_empty o.path) (Draft.Fits.file _) t).1.well

end Drafts

end Kotlin

end Code

end AndroidLint
