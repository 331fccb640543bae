/-
Java — what one node of a Java file adds.

Whatever call stands in an expression, it lies in the scope in which the
expression was met.  So each node takes one step (`steps_enter`), and a
file only ever gains classes that do not stand for it.
-/
import AndroidLint.Proofs.Code.Step

namespace AndroidLint

namespace Code

namespace Java

open Syntax (Tree)

/-! ## Expressions -/

section Expressions

variable (o : Origin) (s : Scope)

/-- A call is read from a node that has a name, and every part of it from that node. -/
theorem expr_eq_call_iff {o s} {t : Tree} {c : Call} (kind : t.kind? = some .call) :
    expr o s t = .call c ↔ ∃ name, t.part? .name = some name ∧
      c = ⟨o.words name, receiver? o s t.children, arguments o s t.children, s, o.location t⟩ := by
  cases t with
  | word => cases kind
  | node k r p ts =>
      obtain rfl : k = .call := Option.some.inj kind
      simp only [expr, Tree.part?, Tree.children]
      cases ts.find? fun u => u.role? == some .name with
      | none => simp
      | some name => simp [eq_comm, Origin.location, Tree.span]

mutual

theorem scopes_expr : (t : Tree) → ∀ s' ∈ (expr o s t).scopes, s' = s
  | .word .. => fun _ mem => by
      rw [expr] at mem
      cases mem
  | .node k r p ts => by
      intro s' mem
      rw [expr.eq_def] at mem
      simp only at mem
      split at mem
      case h_7 =>
        split at mem
        case h_1 => cases mem
        case h_2 name found =>
          rw [Expr.scopes, Call.scopes, List.mem_cons, List.mem_append] at mem
          obtain here | mem | mem := mem
          · exact here
          · exact scopes_receiver? ts s' mem
          · exact scopes_arguments ts s' mem
      case h_8 => exact scopes_first ts s' mem
      all_goals cases mem

theorem scopes_first : (ts : List Tree) → ∀ s' ∈ (first o s ts).scopes, s' = s
  | [] => fun _ mem => by
      rw [first] at mem
      cases mem
  | .word .. :: ts => fun s' mem => by
      rw [first] at mem
      exact scopes_first ts s' mem
  | .node k r p us :: _ => fun s' mem => by
      rw [first] at mem
      exact scopes_expr (.node k r p us) s' mem

theorem scopes_receiver? : (ts : List Tree) → ∀ s' ∈ optionScopes (receiver? o s ts), s' = s
  | [] => fun _ mem => by
      rw [receiver?] at mem
      cases mem
  | t :: ts => fun s' mem => by
      rw [receiver?] at mem
      split at mem
      case isTrue => exact scopes_expr t s' mem
      case isFalse => exact scopes_receiver? ts s' mem

theorem scopes_arguments : (ts : List Tree) → ∀ s' ∈ listScopes (arguments o s ts), s' = s
  | [] => fun _ mem => by
      rw [arguments] at mem
      cases mem
  | .word .. :: ts => fun s' mem => by
      rw [arguments] at mem
      exact scopes_arguments ts s' mem
  | .node _ r _ us :: ts => fun s' mem => by
      rw [arguments] at mem
      split at mem
      case isTrue => exact scopes_exprs us s' mem
      case isFalse => exact scopes_arguments ts s' mem

theorem scopes_exprs : (ts : List Tree) → ∀ s' ∈ listScopes (exprs o s ts), s' = s
  | [] => fun _ mem => by
      rw [exprs] at mem
      cases mem
  | .word .. :: ts => fun s' mem => by
      rw [exprs] at mem
      exact scopes_exprs ts s' mem
  | .node k r p us :: ts => fun s' mem => by
      rw [exprs, listScopes, List.mem_append] at mem
      obtain mem | mem := mem
      · exact scopes_expr (.node k r p us) s' mem
      · exact scopes_exprs ts s' mem

end

end Expressions

/-! ## Entries -/

section Entries

variable (o : Origin) (s : Scope) (f : SourceFile) (t : Tree)

theorem sameNodes_declare (declaration : Tree) : f.SameNodes (declare o s declaration f t) := by
  rw [declare]
  split <;> exact ⟨rfl, rfl, rfl, rfl, rfl⟩

theorem sameNodes_declareAll (declaration : Tree) (ts : List Tree) :
    f.SameNodes (ts.foldl (declare o s declaration) f) := by
  induction ts generalizing f with
  | nil => exact .refl f
  | cons t ts ih => exact (sameNodes_declare o s f t declaration).trans (ih _)

theorem sameNodes_addImport : f.SameNodes (addImport o f t) := by
  rw [addImport]
  split <;> exact ⟨rfl, rfl, rfl, rfl, rfl⟩

theorem step_addReference : f.Step s (addReference o s f t) s := by
  rw [addReference]
  split
  case h_1 => exact .nothing (.refl f)
  case h_2 target rest hnamed =>
    refine .reference fun s' mem => ?_
    obtain here | mem := List.mem_cons.mp mem
    · exact here
    · rw [optionScopes, referred] at mem
      split at mem
      case h_3 => exact scopes_expr o s target s' mem
      all_goals cases mem

theorem step_addCall : f.Step s (addCall o s f t) s := by
  have hscopes := scopes_expr o s t
  rw [addCall]
  split
  case h_1 c hcall =>
    rw [hcall] at hscopes
    exact .call hscopes
  case h_2 => exact .nothing (.refl f)

theorem classKind_ne_facade : classKind t ≠ .facade := by
  rw [classKind]
  split <;> decide

/-- Each node takes one step. -/
theorem isStep_enter (above : List Tree) : (enter o s above f t).IsStep id s f := by
  rw [enter.eq_def]
  split
  case h_1 => exact Entry.isStep_closed ⟨rfl, rfl, rfl, rfl, rfl⟩
  case h_2 => exact Entry.isStep_closed (sameNodes_addImport o f t)
  case h_8 => exact Entry.isStep_within (.method rfl)
  case h_9 => exact Entry.isStep_within (.nothing (sameNodes_declare o s f t t))
  case h_10 => exact Entry.isStep_within (.nothing (sameNodes_declareAll o s f t _))
  case h_11 => exact Entry.isStep_within (step_addCall o s f t)
  case h_12 =>
    split
    case isTrue =>
      refine ⟨_, .type rfl (by simp [anonymousOf]), fun u s'' part => ?_⟩
      simp only at part
      split at part
      case isTrue => exact .inr (Option.some.inj part).symm
      case isFalse =>
        split at part
        case isTrue => exact .inl (Option.some.inj part).symm
        case isFalse => cases part
    case isFalse => exact Entry.isStep_within (.nothing (.refl f))
  case h_13 => exact Entry.isStep_within (.lambda rfl)
  case h_14 => exact Entry.isStep_within (step_addReference o s f t)
  case h_15 => exact Entry.isStep_within (.nothing (.refl f))
  all_goals exact Entry.isStep_within (.type rfl (classKind_ne_facade t))

/-- Entries keep files well-scoped. -/
theorem keeps_enter : Keeps (enter o) SourceFile.WellScoped SourceFile.Holds := by
  intro s above f t well holds
  obtain ⟨s', step, parts⟩ := isStep_enter o s f t above
  refine ⟨step.wellScoped well holds, fun _ => step.holds, fun u s'' part => ?_⟩
  obtain rfl | rfl := parts u s'' part
  · exact step.holds_part holds
  · exact step.holds holds

end Entries

theorem wellScoped_ofTree (o : Origin) (t : Tree) : (ofTree o t).WellScoped :=
  ((keeps_enter o).walk (.empty o.path .java) (SourceFile.holds_file _) t).1

end Java

end Code

end AndroidLint
