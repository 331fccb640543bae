/-
InnerCalls — calls that are made on other calls, or given to them.

A call in a call is read twice: as a part of the outer one, and on its own,
when the walk comes to its node.  Both times `expr` reads it, and all that
`expr` asks for besides the node is the scope.  So the two are one call if the
walk comes to the inner node and is still in the scope of the outer one.  It
is, because from a call down to the calls in it there are only nodes that hand
their own scope on to everything in them (`Leads`); a lambda, an object or a
declaration in between would hide what it holds from `expr` as well.

That each listed call has the calls that it takes beside it in the list cannot
be said of every moment of the walk, for the outer call comes first.  It is
said of what a whole tree adds (`ListsCalls.settled`).
-/
import AndroidLint.Code.Reader
import AndroidLint.Proofs.Code.Java
import AndroidLint.Proofs.Code.Kotlin
import AndroidLint.Proofs.Syntax.Parts
import Mathlib.Logic.Relation

namespace AndroidLint

namespace Syntax

namespace Java

/-- What the rules add that a call refers to. -/
def faces : Rule → Option (List Face)
  | .arguments => some [(none, some .arguments)]
  | .typeArguments => some [(none, some .other)]
  | _ => none

/-- What a call has in the role of its arguments is a list of arguments. -/
def wishes : Kind → Option Wish
  | .call => some ⟨some .arguments, [some .arguments]⟩
  | _ => none

theorem arguments_of_parse? {text : List Char} {t : Tree} (parsed : grammar.parse? text = some t) :
    ∀ u ∈ t.nodes, u.kind? = some .call →
      ∀ v ∈ u.children, v.role? = some .arguments → v.kind? = some .arguments := by
  have grants : t.Grants wishes := by
    refine Grammar.grants_of_parse? (g := grammar) faces ?_ ?_ ?_ parsed
    · intro r
      cases r <;> rfl
    · intro r
      cases r <;> rfl
    · intro k w wish
      cases k <;> cases wish
      rfl
  intro u mem kind v part role
  have met := grants u mem .call kind _ rfl v part
  simpa [Wish.meets, Tree.face, role] using met

end Java

end Syntax

namespace Code

open Syntax (Tree Kind)

/-! ## Calls in calls -/

/-- `c.Takes c'`: the call `c` is made on the call `c'`, or is given it. -/
inductive Call.Takes (c : Call) : Call → Prop where
  | receiver {c' : Call} (on : c.receiver? = some (.call c')) : Call.Takes c c'
  | argument {c' : Call} (given : .call c' ∈ c.arguments) : Call.Takes c c'

/-- The call that an expression is. -/
def Expr.call? : Expr → Option Call
  | .call c => some c
  | _ => none

theorem Expr.call?_eq_some_iff {e : Expr} {c : Call} : e.call? = some c ↔ e = .call c := by
  cases e <;> simp [Expr.call?]

/-- The calls that a call takes. -/
def Call.taken (c : Call) : List Call :=
  (c.receiver?.toList ++ c.arguments).filterMap Expr.call?

theorem Call.takes_iff {c c' : Call} : c.Takes c' ↔ c' ∈ c.taken := by
  simp only [Call.taken, List.mem_filterMap, Expr.call?_eq_some_iff, exists_eq_right,
    List.mem_append, Option.mem_toList]
  constructor
  · rintro (on | given)
    · exact .inl on
    · exact .inr given
  · rintro (on | given)
    · exact .receiver on
    · exact .argument given

/-- `Leads through u t`: `u` stands in `t`, and all nodes from `t` down to it
are of the kinds `through`. -/
inductive Leads (through : List Kind) (u : Tree) : Tree → Prop where
  | here : Leads through u u
  | inside {t v : Tree} {k : Kind} (kind : t.kind? = some k) (among : k ∈ through)
      (part : v ∈ t.children) (leads : Leads through u v) : Leads through u t

theorem Leads.trans {through : List Kind} {u v t : Tree} (outer : Leads through v t)
    (inner : Leads through u v) : Leads through u t := by
  induction outer with
  | here => exact inner
  | inside kind among part _ ih => exact .inside kind among part ih

/-! ## Walks that list calls -/

section Walk

variable {σ : Type}

/-- `ListsCalls enter calls expr through P`: a node adds to the calls the one
that it is, read in its scope.  Nodes of the kinds `through` hand their scope
on; what reads as a call leads through them to a node that is that call, and a
node that is a call and has the property `P` leads to what reads as the calls
that it takes. -/
structure ListsCalls (enter : Scope → List Tree → σ → Tree → Entry σ) (calls : σ → Array Call)
    (expr : Scope → Tree → Expr) (through : List Kind) (P : Tree → Prop) : Prop where
  adds : ∀ s above d t c, c ∈ calls (enter s above d t).state ↔
    c ∈ calls d ∨ (t.kind? = some .call ∧ expr s t = .call c)
  hands : ∀ s above d t k u, t.kind? = some k → k ∈ through →
    (enter s above d t).scope? u = some s
  node : ∀ s t c, expr s t = .call c →
    ∃ u, Leads through u t ∧ u.kind? = some .call ∧ expr s u = .call c
  taken : ∀ s t c c', P t → t.kind? = some .call → expr s t = .call c → c.Takes c' →
    ∃ u, Leads through u t ∧ expr s u = .call c'

variable {enter : Scope → List Tree → σ → Tree → Entry σ} {calls : σ → Array Call}
  {expr : Scope → Tree → Expr} {through : List Kind} {P : Tree → Prop} {c : Call}

theorem keeps_walkAll {ts : List Tree}
    (each : ∀ u ∈ ts, ∀ s above d, c ∈ calls d → c ∈ calls (walk enter s above d u))
    (scope? : Tree → Option Scope) (above : List Tree) {d : σ} (listed : c ∈ calls d) :
    c ∈ calls (walkAll enter scope? above d ts) := by
  induction ts generalizing d with
  | nil => exact listed
  | cons t ts ih =>
      obtain ⟨first, others⟩ := List.forall_mem_cons.mp each
      rw [walkAll]
      cases scope? t with
      | none => exact ih others listed
      | some s => exact ih others (first s above d listed)

namespace ListsCalls

variable (lists : ListsCalls enter calls expr through P)
include lists

/-- A call that is listed stays listed. -/
theorem keeps (t : Tree) (s : Scope) (above : List Tree) {d : σ} (listed : c ∈ calls d) :
    c ∈ calls (walk enter s above d t) := by
  induction t using Tree.inductionOn generalizing s above d with
  | word => exact listed
  | node k r p ts ih =>
      rw [walk]
      exact keeps_walkAll (fun u mem s above d => ih u mem s above) _ _
        ((lists.adds s above d _ c).mpr (.inl listed))

theorem mem_walkAll {scope? : Tree → Option Scope} {ts : List Tree} {v : Tree} {s : Scope}
    (part : v ∈ ts) (scope : scope? v = some s) {above : List Tree}
    (found : ∀ d, c ∈ calls (walk enter s above d v)) (d : σ) :
    c ∈ calls (walkAll enter scope? above d ts) := by
  induction ts generalizing d with
  | nil => cases part
  | cons t ts ih =>
      rw [walkAll]
      obtain rfl | part := List.mem_cons.mp part
      · rw [scope]
        exact keeps_walkAll (fun u _ s above _ => lists.keeps u s above) _ _ (found d)
      · exact ih part _

/-- What a tree leads to is met in the scope of the tree, and listed if it is a
call. -/
theorem mem_walk_of_leads {u t : Tree} {s : Scope} (leads : Leads through u t)
    (kind : u.kind? = some .call) (reads : expr s u = .call c) (above : List Tree) (d : σ) :
    c ∈ calls (walk enter s above d t) := by
  induction leads generalizing above d with
  | here =>
      cases u with
      | word => cases kind
      | node k r p ts =>
          rw [walk]
          exact keeps_walkAll (fun u _ s above _ => lists.keeps u s above) _ _
            ((lists.adds s above d _ c).mpr (.inr ⟨kind, reads⟩))
  | @inside t v k known among part _ ih =>
      cases t with
      | word => cases part
      | node k' r p ts =>
          rw [walk]
          exact lists.mem_walkAll part (lists.hands s above d _ k v known among) (ih _) _

theorem mem_walk_of_takes {t : Tree} {s : Scope} {c' : Call} (holds : P t)
    (kind : t.kind? = some .call) (reads : expr s t = .call c) (takes : c.Takes c')
    (above : List Tree) (d : σ) : c' ∈ calls (walk enter s above d t) := by
  obtain ⟨u, leads, reads⟩ := lists.taken s t c c' holds kind reads takes
  obtain ⟨v, leads', kind, reads⟩ := lists.node s u c' reads
  exact lists.mem_walk_of_leads (leads.trans leads') kind reads above d

theorem settled_walkAll {ts : List Tree}
    (each : ∀ u ∈ ts, ∀ s above d, ∀ c ∈ calls (walk enter s above d u),
      c ∈ calls d ∨ ∀ c', c.Takes c' → c' ∈ calls (walk enter s above d u))
    (scope? : Tree → Option Scope) (above : List Tree) (d : σ) :
    ∀ c ∈ calls (walkAll enter scope? above d ts),
      c ∈ calls d ∨ ∀ c', c.Takes c' → c' ∈ calls (walkAll enter scope? above d ts) := by
  induction ts generalizing d with
  | nil => exact fun _ => .inl
  | cons t ts ih =>
      obtain ⟨first, others⟩ := List.forall_mem_cons.mp each
      rw [walkAll]
      cases scope? t with
      | none => exact ih others d
      | some s =>
          intro c listed
          obtain before | taken := ih others _ c listed
          · obtain before | taken := first s above d c before
            · exact .inl before
            · exact .inr fun c' takes =>
                keeps_walkAll (fun u _ s above _ => lists.keeps u s above) _ _ (taken c' takes)
          · exact .inr taken

/-- A call that a tree adds has all calls that it takes beside it. -/
theorem settled {t : Tree} (holds : ∀ u ∈ t.nodes, P u) (s : Scope) (above : List Tree) (d : σ) :
    ∀ c ∈ calls (walk enter s above d t),
      c ∈ calls d ∨ ∀ c', c.Takes c' → c' ∈ calls (walk enter s above d t) := by
  induction t using Tree.inductionOn generalizing s above d with
  | word => exact fun _ => .inl
  | node k r p ts ih =>
      intro c listed
      have each := fun u mem =>
        ih u mem fun v hv => holds v (Tree.mem_nodes_node.mpr (.inr ⟨u, mem, hv⟩))
      rw [walk] at listed
      obtain before | taken := lists.settled_walkAll each _ _ _ c listed
      · obtain before | ⟨kind, reads⟩ := (lists.adds s above d _ c).mp before
        · exact .inl before
        -- the node is the call itself, and what it takes stands in the tree
        · have own := holds _ (Tree.mem_nodes_node.mpr (.inl rfl))
          exact .inr fun c' takes => lists.mem_walk_of_takes own kind reads takes above d
      · rw [walk]
        exact .inr taken

end ListsCalls

end Walk

/-! ## Java -/

namespace Java

/-- The nodes between a Java call and the calls in it. -/
def through : List Kind :=
  [.call, .arguments, .parenthesized]

section Entries

variable {o : Origin} {s : Scope} {above : List Tree} {f : SourceFile} {t : Tree} {c : Call}

theorem calls_addReference : (addReference o s f t).calls = f.calls := by
  rw [addReference]
  split <;> rfl

theorem mem_calls_addCall : c ∈ (addCall o s f t).calls ↔ c ∈ f.calls ∨ expr o s t = .call c := by
  rw [addCall]
  split
  case h_1 c' reads => simp [reads, eq_comm]
  case h_2 other => exact (or_iff_left (other c)).symm

theorem mem_calls_enter :
    c ∈ (enter o s above f t).state.calls ↔
      c ∈ f.calls ∨ (t.kind? = some .call ∧ expr o s t = .call c) := by
  rw [enter.eq_def]
  split
  case h_2 kind => simp [kind, Entry.closed, (sameNodes_addImport o f t).calls]
  case h_9 kind => simp [kind, Entry.within, (sameNodes_declare o s f t t).calls]
  case h_10 kind => simp [kind, Entry.within, (sameNodes_declareAll o s f t _).calls]
  case h_11 kind => simp [kind, Entry.within, mem_calls_addCall]
  case h_12 kind => split <;> simp [kind, Entry.within, SourceFile.addClass]
  case h_14 kind => simp [kind, Entry.within, calls_addReference]
  case h_15 notCall _ _ _ => simp [Entry.within, show t.kind? ≠ _ from notCall]
  all_goals
    rename_i kind
    simp [kind, Entry.within, Entry.closed, SourceFile.addClass, SourceFile.addMethod, addPackage]

theorem scope?_enter {k : Kind} (kind : t.kind? = some k) (among : k ∈ through) (u : Tree) :
    (enter o s above f t).scope? u = some s := by
  simp only [through, List.mem_cons, List.not_mem_nil, or_false] at among
  obtain rfl | rfl | rfl := among <;> simp [enter, kind, Entry.within]

end Entries

section Expressions

variable {o : Origin} {s : Scope} {c : Call}

theorem exists_of_first {ts : List Tree} (reads : first o s ts = .call c) :
    ∃ u ∈ ts, expr o s u = .call c := by
  induction ts with
  | nil => cases reads
  | cons t ts ih =>
      cases t with
      | word => exact List.exists_mem_cons_of_exists (ih reads)
      | node => exact ⟨_, List.mem_cons_self, reads⟩

theorem exists_of_receiver? {ts : List Tree} (on : receiver? o s ts = some (.call c)) :
    ∃ u ∈ ts, expr o s u = .call c := by
  induction ts with
  | nil => cases on
  | cons t ts ih =>
      rw [receiver?] at on
      split at on
      case isTrue => exact ⟨t, List.mem_cons_self, Option.some.inj on⟩
      case isFalse => exact List.exists_mem_cons_of_exists (ih on)

theorem exists_of_mem_exprs {ts : List Tree} (given : .call c ∈ exprs o s ts) :
    ∃ u ∈ ts, expr o s u = .call c := by
  induction ts with
  | nil => cases given
  | cons t ts ih =>
      cases t with
      | word => exact List.exists_mem_cons_of_exists (ih given)
      | node k r p us =>
          rw [exprs] at given
          obtain here | given := List.mem_cons.mp given
          · exact ⟨_, List.mem_cons_self, here.symm⟩
          · exact List.exists_mem_cons_of_exists (ih given)

theorem exists_of_mem_arguments {ts : List Tree} (given : .call c ∈ arguments o s ts) :
    ∃ u ∈ ts, u.role? = some .arguments ∧ ∃ v ∈ u.children, expr o s v = .call c := by
  induction ts with
  | nil => cases given
  | cons t ts ih =>
      cases t with
      | word => exact List.exists_mem_cons_of_exists (ih given)
      | node k r p us =>
          rw [arguments] at given
          split at given
          case isTrue role =>
            exact ⟨_, List.mem_cons_self, beq_iff_eq.mp role, exists_of_mem_exprs given⟩
          case isFalse => exact List.exists_mem_cons_of_exists (ih given)

/-- What reads as a call is one, perhaps between parentheses. -/
theorem exists_of_expr {t : Tree} (reads : expr o s t = .call c) :
    ∃ u, Leads through u t ∧ u.kind? = some .call ∧ expr o s u = .call c := by
  induction t using Tree.inductionOn with
  | word => cases reads
  | node k r p ts ih =>
      have reads' := reads
      rw [expr.eq_def] at reads
      dsimp only at reads
      split at reads
      case h_7 => exact ⟨_, .here, rfl, reads'⟩
      case h_8 =>
        obtain ⟨v, mem, reads⟩ := exists_of_first reads
        obtain ⟨u, leads, found⟩ := ih v mem reads
        exact ⟨u, .inside rfl (by decide) mem leads, found⟩
      all_goals cases reads

/-- A call leads to those that it takes, if its arguments are a list of
arguments. -/
theorem exists_of_takes {t : Tree} {c' : Call}
    (listed : ∀ u ∈ t.children, u.role? = some .arguments → u.kind? = some .arguments)
    (kind : t.kind? = some .call) (reads : expr o s t = .call c) (takes : c.Takes c') :
    ∃ u, Leads through u t ∧ expr o s u = .call c' := by
  obtain ⟨name, -, rfl⟩ := (expr_eq_call_iff kind).mp reads
  cases takes with
  | receiver on =>
      obtain ⟨v, mem, reads⟩ := exists_of_receiver? on
      exact ⟨v, .inside kind (by decide) mem .here, reads⟩
  | argument given =>
      obtain ⟨u, mem, role, v, part, reads⟩ := exists_of_mem_arguments given
      refine ⟨v, .inside kind (by decide) mem ?_, reads⟩
      exact .inside (listed u mem role) (by decide) part .here

end Expressions

/-- What a node of a Java file adds, as far as calls are concerned. -/
theorem listsCalls_enter (o : Origin) :
    ListsCalls (enter o) SourceFile.calls (expr o) through fun t =>
      t.kind? = some .call →
        ∀ u ∈ t.children, u.role? = some .arguments → u.kind? = some .arguments where
  adds _ _ _ _ _ := mem_calls_enter
  hands _ _ _ _ _ u kind among := scope?_enter kind among u
  node _ _ _ := exists_of_expr
  taken _ _ _ _ holds kind := exists_of_takes (holds kind) kind

end Java

/-! ## Kotlin -/

namespace Kotlin

/-- The nodes between a Kotlin call and the calls in it. -/
def through : List Kind :=
  [.call, .navigation, .callSuffix, .arguments, .argument, .parenthesized]

section Entries

variable {o : Origin} {s : Scope} {above : List Tree} {d : Draft} {t : Tree} {c : Call}

theorem mem_calls_addCall :
    c ∈ (addCall o d s t).file.calls ↔ c ∈ d.file.calls ∨ expr o s t = .call c := by
  rw [addCall]
  split
  case h_1 c' reads => simp [reads, eq_comm]
  case h_2 other => exact (or_iff_left (other c)).symm

theorem mem_calls_enter :
    c ∈ (enter o s above d t).state.file.calls ↔
      c ∈ d.file.calls ∨ (t.kind? = some .call ∧ expr o s t = .call c) := by
  rw [enter.eq_def]
  split
  case h_2 kind => simp [kind, Entry.closed, sameLists_addImport.calls]
  case h_7 kind =>
    simp [kind, Entry.within, addMethod, SourceFile.addMethod, sameLists_inFacade.calls]
  case h_8 kind =>
    simp [kind, Entry.within, sameLists_declareProperty.calls, sameLists_inFacade.calls]
  case h_9 kind => simp [kind, Entry.within, (sameLists_declare _ _).calls]
  case h_10 kind => simp [kind, Entry.within, mem_calls_addCall]
  case h_11 kind => simp [kind, Entry.within, sameLists_addPlainReference.calls]
  case h_12 kind => simp [kind, Entry.within, sameLists_addMemberReference.calls]
  case h_15 notCall _ _ _ _ => simp [Entry.within, show t.kind? ≠ _ from notCall]
  all_goals
    rename_i kind
    simp [kind, Entry.within, Entry.closed, SourceFile.addClass, addLambda]

theorem scope?_enter {k : Kind} (kind : t.kind? = some k) (among : k ∈ through) (u : Tree) :
    (enter o s above d t).scope? u = some s := by
  simp only [through, List.mem_cons, List.not_mem_nil, or_false] at among
  obtain rfl | rfl | rfl | rfl | rfl | rfl := among <;> simp [enter, kind, Entry.within]

end Entries

section Expressions

variable {o : Origin} {s : Scope} {c : Call}

theorem exists_of_first {ts : List Tree} (reads : first o s ts = .call c) :
    ∃ u ∈ ts, expr o s u = .call c := by
  induction ts with
  | nil => cases reads
  | cons t ts ih =>
      cases t with
      | word => exact List.exists_mem_cons_of_exists (ih reads)
      | node => exact ⟨_, List.mem_cons_self, reads⟩

theorem exists_of_receiver? {ts : List Tree} (on : receiver? o s ts = some (.call c)) :
    ∃ u ∈ ts, u.kind? = some .navigation ∧ ∃ v ∈ u.children, expr o s v = .call c := by
  induction ts with
  | nil => cases on
  | cons t ts ih =>
      cases t with
      | word => exact List.exists_mem_cons_of_exists (ih on)
      | node k r p us =>
          rw [receiver?] at on
          split at on
          case isTrue kind =>
            obtain rfl := beq_iff_eq.mp kind
            exact ⟨_, List.mem_cons_self, rfl, exists_of_first (Option.some.inj on)⟩
          case isFalse => cases on

theorem exists_of_last? {ts : List Tree} (reads : last? o s ts = some (.call c)) :
    ∃ u ∈ ts, expr o s u = .call c := by
  induction ts with
  | nil => cases reads
  | cons t ts ih =>
      cases t with
      | word => exact List.exists_mem_cons_of_exists (ih reads)
      | node k r p us =>
          rw [last?] at reads
          cases hlast : last? o s ts with
          | none =>
              rw [hlast] at reads
              exact ⟨_, List.mem_cons_self, Option.some.inj reads⟩
          | some e =>
              rw [hlast] at reads
              exact List.exists_mem_cons_of_exists (ih (hlast.trans reads))

theorem exists_of_mem_values {ts : List Tree} (given : .call c ∈ values o s ts) :
    ∃ u ∈ ts, u.kind? = some .argument ∧ ∃ v ∈ u.children, expr o s v = .call c := by
  induction ts with
  | nil => cases given
  | cons t ts ih =>
      cases t with
      | word => exact List.exists_mem_cons_of_exists (ih given)
      | node k r p us =>
          rw [values] at given
          split at given
          case isTrue kind =>
            obtain rfl := beq_iff_eq.mp kind
            obtain here | given := List.mem_append.mp given
            · exact ⟨_, List.mem_cons_self, rfl, exists_of_last? (Option.mem_toList.mp here)⟩
            · exact List.exists_mem_cons_of_exists (ih given)
          case isFalse => exact List.exists_mem_cons_of_exists (ih given)

theorem exists_of_mem_listed {ts : List Tree} (given : .call c ∈ listed o s ts) :
    ∃ u ∈ ts, u.kind? = some .arguments ∧
      ∃ v ∈ u.children, v.kind? = some .argument ∧ ∃ w ∈ v.children, expr o s w = .call c := by
  induction ts with
  | nil => cases given
  | cons t ts ih =>
      cases t with
      | word => exact List.exists_mem_cons_of_exists (ih given)
      | node k r p us =>
          rw [listed] at given
          split at given
          case isTrue kind =>
            obtain rfl := beq_iff_eq.mp kind
            exact ⟨_, List.mem_cons_self, rfl, exists_of_mem_values given⟩
          case isFalse => exact List.exists_mem_cons_of_exists (ih given)

theorem exists_of_mem_arguments {ts : List Tree} (given : .call c ∈ arguments o s ts) :
    ∃ u ∈ ts, u.kind? = some .callSuffix ∧
      ∃ v ∈ u.children, v.kind? = some .arguments ∧
        ∃ w ∈ v.children, w.kind? = some .argument ∧ ∃ x ∈ w.children, expr o s x = .call c := by
  induction ts with
  | nil => cases given
  | cons t ts ih =>
      cases t with
      | word => exact List.exists_mem_cons_of_exists (ih given)
      | node k r p us =>
          rw [arguments] at given
          split at given
          case isTrue kind =>
            obtain rfl := beq_iff_eq.mp kind
            obtain given | given := List.mem_append.mp given
            · exact ⟨_, List.mem_cons_self, rfl, exists_of_mem_listed given⟩
            -- a lambda behind the call is no call
            · split at given
              · cases List.mem_singleton.mp given
              · cases given
          case isFalse => exact List.exists_mem_cons_of_exists (ih given)

/-- What reads as a call is one, perhaps between parentheses. -/
theorem exists_of_expr {t : Tree} (reads : expr o s t = .call c) :
    ∃ u, Leads through u t ∧ u.kind? = some .call ∧ expr o s u = .call c := by
  induction t using Tree.inductionOn with
  | word => cases reads
  | node k r p ts ih =>
      have reads' := reads
      rw [expr.eq_def] at reads
      dsimp only at reads
      split at reads
      case h_2 => split at reads <;> cases reads
      case h_6 => exact ⟨_, .here, rfl, reads'⟩
      case h_7 =>
        obtain ⟨v, mem, reads⟩ := exists_of_first reads
        obtain ⟨u, leads, found⟩ := ih v mem reads
        exact ⟨u, .inside rfl (by decide) mem leads, found⟩
      all_goals cases reads

/-- A call leads to those that it takes. -/
theorem exists_of_takes {t : Tree} {c' : Call} (kind : t.kind? = some .call)
    (reads : expr o s t = .call c) (takes : c.Takes c') :
    ∃ u, Leads through u t ∧ expr o s u = .call c' := by
  obtain ⟨-, name, -, rfl⟩ := (expr_eq_call_iff kind).mp reads
  cases takes with
  | receiver on =>
      obtain ⟨u, mem, member, v, part, reads⟩ := exists_of_receiver? on
      refine ⟨v, .inside kind (by decide) mem ?_, reads⟩
      exact .inside member (by decide) part .here
  | argument given =>
      obtain ⟨u, mem, suffix, v, part, list, w, among, argument, x, inner, reads⟩ :=
        exists_of_mem_arguments given
      refine ⟨x, .inside kind (by decide) mem ?_, reads⟩
      refine .inside suffix (by decide) part ?_
      refine .inside list (by decide) among ?_
      exact .inside argument (by decide) inner .here

end Expressions

/-- What a node of a Kotlin file adds, as far as calls are concerned. -/
theorem listsCalls_enter (o : Origin) :
    ListsCalls (enter o) (·.file.calls) (expr o) through fun _ => True where
  adds _ _ _ _ _ := mem_calls_enter
  hands _ _ _ _ _ u kind among := scope?_enter kind among u
  node _ _ _ := exists_of_expr
  taken _ _ _ _ _ kind := exists_of_takes kind

end Kotlin

/-! ## Files -/

/-- A file that lists a call was read from a tree. -/
theorem exists_tree_of_mem_calls {l : Language} {path : FilePath} {text : String} {c : Call}
    (listed : c ∈ (l.read path text).calls) :
    ∃ t, l.grammar.parse? text.toList = some t ∧
      l.read path text = .ofTree l ⟨path, text.toList⟩ t := by
  cases parsed : l.grammar.parse? text.toList with
  | none =>
      simp only [Language.read, parsed] at listed
      exact absurd listed (Array.not_mem_empty c)
  | some t =>
      refine ⟨t, rfl, ?_⟩
      simp only [Language.read, parsed]

/-- A call that is listed has the calls that it takes beside it. -/
theorem mem_calls_of_takes {l : Language} {path : FilePath} {text : String} {c c' : Call}
    (listed : c ∈ (l.read path text).calls) (takes : c.Takes c') :
    c' ∈ (l.read path text).calls := by
  have empty : c ∉ (SourceFile.empty path l).calls := Array.not_mem_empty c
  obtain ⟨t, parsed, read⟩ := exists_tree_of_mem_calls listed
  rw [read] at listed ⊢
  cases l with
  | kotlin =>
      have settled := (Kotlin.listsCalls_enter _).settled (fun _ _ => trivial) _ _ _ c listed
      exact settled.resolve_left empty c' takes
  | java =>
      have settled := (Java.listsCalls_enter _).settled
        (Syntax.Java.arguments_of_parse? parsed) _ _ _ c listed
      exact settled.resolve_left empty c' takes

/-- **Calls in calls are listed.**  In every Kotlin and every Java file, what
stands at any depth as the receiver or as an argument in a listed call, and is a
call itself, is listed too: the same call with the same receiver and arguments,
in the same class and method and at the same place. -/
theorem mem_calls_of_inner {l : Language} {path : FilePath} {text : String} {c c' : Call}
    (listed : c ∈ (l.read path text).calls) (inner : Relation.TransGen Call.Takes c c') :
    c' ∈ (l.read path text).calls := by
  induction inner with
  | single takes => exact mem_calls_of_takes listed takes
  | tail _ takes ih => exact mem_calls_of_takes ih takes

/-- A function with a call on a call between parentheses, which is given another
call on a call. -/
def chainText : String :=
  "fun f() \x7b\n  (a(b().c(1))).d(e)\n\x7d\n"

/-- The innermost of the four calls is listed. -/
theorem mem_calls_of_inner_chainText :
    ∃ c ∈ (Language.kotlin.read ⟨"A.kt"⟩ chainText).calls, c.methodName = "d" ∧
      ∃ c', c'.methodName = "b" ∧ Relation.TransGen Call.Takes c c' ∧
        c' ∈ (Language.kotlin.read ⟨"A.kt"⟩ chainText).calls := by
  have shape : (Language.kotlin.read ⟨"A.kt"⟩ chainText).calls.any (fun c =>
      c.methodName == "d" && c.taken.any fun a => a.taken.any fun i => i.taken.any fun b =>
        b.methodName == "b") = true := by
    decide +kernel
  obtain ⟨c, listed, shape⟩ := Array.any_eq_true'.mp shape
  obtain ⟨outermost, shape⟩ := (Bool.and_eq_true _ _).mp shape
  obtain ⟨a, inside, shape⟩ := List.any_eq_true.mp shape
  obtain ⟨i, further, shape⟩ := List.any_eq_true.mp shape
  obtain ⟨b, innermost, named⟩ := List.any_eq_true.mp shape
  have inner : Relation.TransGen Call.Takes c b :=
    .tail (.tail (.single (Call.takes_iff.mpr inside)) (Call.takes_iff.mpr further))
      (Call.takes_iff.mpr innermost)
  exact ⟨c, listed, eq_of_beq outermost, b, eq_of_beq named, inner, mem_calls_of_inner listed inner⟩

end Code

end AndroidLint
