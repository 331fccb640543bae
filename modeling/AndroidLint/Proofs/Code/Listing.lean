/-
Listing — which nodes of a Java file are listed.

A file lists its calls, its lambdas and its member references, each with the
place of the node that it was made from.  The grammar gives every call a name
and every member reference something that it refers to (`obeys_of_parse?`), so
each of these nodes that the walk comes to is listed once, in the order of the
walk, and nothing else is.

The walk does not come to all of them.  It goes into no part of a header, and
where an object is created with a body it goes into the arguments and the body
only (`omits`).  A header may carry annotations, and what the new object is
created in stands before it: calls, lambdas and references there are missed.
-/
import AndroidLint.Code.Reader
import AndroidLint.Proofs.Code.Java
import AndroidLint.Proofs.Syntax.Grammar

namespace AndroidLint

namespace Syntax

namespace Java

/-! ## What the grammar promises -/

/-- Rules that always make a node. -/
def makesNode : Rule → Bool
  | .type | .classType | .primary | .switch | .parenthesized => true
  | _ => false

/-- A call has a name, and a member reference something that it refers to. -/
def demands : Kind → Demand
  | .call => .part .name
  | .reference => .node
  | _ => .nothing

theorem obeys_of_parse? {text : List Char} {t : Tree} (parsed : grammar.parse? text = some t) :
    t.Obeys demands := by
  refine Grammar.obeys_of_parse? makesNode ?_ ?_ ?_ rfl parsed
  · intro r maker
    cases r with
    | type | classType | primary | switch | parenthesized => rfl
    | _ => cases maker
  · intro r
    cases r <;> rfl
  · intro r
    cases r <;> rfl

end Java

end Syntax

namespace Code

open Syntax (Tree Kind Demand)

/-! ## Walks that collect -/

section Walk

variable {σ β : Type}

/-- `Collects enter enters P list gain`: a node with the property `P` adds to
the list what it gains, and its parts are gone into as `enters` says. -/
structure Collects (enter : Scope → List Tree → σ → Tree → Entry σ) (enters : Tree → Tree → Bool)
    (P : Tree → Prop) (list : σ → List β) (gain : Tree → List β) : Prop where
  gains : ∀ s above d t, P t → list (enter s above d t).state = list d ++ gain t
  parts : ∀ s above d t u, ((enter s above d t).scope? u).isSome = enters t u

variable {enter : Scope → List Tree → σ → Tree → Entry σ} {enters : Tree → Tree → Bool}
  {P : Tree → Prop} {list : σ → List β} {gain : Tree → List β}

theorem list_walkAll {ts : List Tree}
    (each : ∀ u ∈ ts, ∀ s above d,
      list (walk enter s above d u) = list d ++ (u.reached enters).flatMap gain)
    {scope? : Tree → Option Scope} {into : Tree → Bool} (parts : ∀ u, (scope? u).isSome = into u)
    (above : List Tree) (d : σ) :
    list (walkAll enter scope? above d ts) =
      list d ++ (Tree.reachedAmong enters into ts).flatMap gain := by
  induction ts generalizing d with
  | nil => simp [walkAll, Tree.reachedAmong]
  | cons t ts ih =>
      obtain ⟨first, each⟩ := List.forall_mem_cons.mp each
      rw [walkAll, ih each, Tree.reachedAmong, ← parts t]
      cases scope? t with
      | none => simp
      | some s => simp [first]

/-- A walk adds to the list what the nodes that it comes to gain. -/
theorem Collects.list_walk (collects : Collects enter enters P list gain) {t : Tree}
    (holds : ∀ u ∈ t.nodes, P u) (s : Scope) (above : List Tree) (d : σ) :
    list (walk enter s above d t) = list d ++ (t.reached enters).flatMap gain := by
  induction t using Tree.inductionOn generalizing s above d with
  | word => simp [walk, Tree.reached]
  | node k r p ts ih =>
      have each : ∀ u ∈ ts, ∀ s above d,
          list (walk enter s above d u) = list d ++ (u.reached enters).flatMap gain :=
        fun u mem => ih u mem fun v hv => holds v (Tree.mem_nodes_node.mpr (.inr ⟨u, mem, hv⟩))
      rw [walk, list_walkAll each (collects.parts s above d _), Tree.reached, List.flatMap_cons,
        collects.gains s above d _ (holds _ (Tree.mem_nodes_node.mpr (.inl rfl))),
        List.append_assoc]

end Walk

/-! ## The lists of a file -/

/-- The kinds of nodes that are listed. -/
def listedKinds : List Kind :=
  [.call, .lambda, .reference]

/-- The places in the list for a kind of nodes. -/
def SourceFile.placesOf (f : SourceFile) : Kind → List Location
  | .call => f.calls.toList.map (·.location)
  | .lambda => f.lambdas.toList.map (·.location)
  | .reference => f.references.toList.map (·.location)
  | _ => []

theorem SourceFile.SameNodes.placesOf {f g : SourceFile} (same : f.SameNodes g) :
    g.placesOf = f.placesOf := by
  funext k
  cases k with
  | call => rw [SourceFile.placesOf, SourceFile.placesOf, same.calls]
  | lambda => rw [SourceFile.placesOf, SourceFile.placesOf, same.lambdas]
  | reference => rw [SourceFile.placesOf, SourceFile.placesOf, same.references]
  | _ => rfl

namespace Java

/-- Whether a part of a node is left out: it stands in a header, or beside the
arguments and the body of an object that is created with a body. -/
def omits (t u : Tree) : Bool :=
  t.isKind .packageHeader || t.isKind .importHeader
    || (t.isKind .creation && (t.child? .classBody).isSome
      && !(u.role? == some .arguments || u.isKind .classBody))

section Entries

variable (o : Origin) (s : Scope) (above : List Tree) (f : SourceFile) (t : Tree)

/-- What a node adds to the list for a kind: its place, if it is of that
kind. -/
def gain (k : Kind) (t : Tree) : List Location :=
  if t.isKind k then [o.location t] else []

variable {o s above f t} {k : Kind}

theorem gain_eq_of_kind {k' : Kind} (kind : t.kind? = some k') :
    gain o k t = if k' = k then [o.location t] else [] := by
  simp only [gain, Tree.isKind, kind, beq_iff_eq, Option.some.injEq]

theorem gain_eq_nil {k' : Kind} (kind : t.kind? = some k') (listed : k ∈ listedKinds)
    (other : k' ∉ listedKinds) : gain o k t = [] := by
  rw [gain_eq_of_kind kind, if_neg]
  rintro rfl
  exact other listed

/-- What adds no listed node adds what its kind gains. -/
theorem placesOf_of_same {g : SourceFile} (same : g.placesOf = f.placesOf) {k' : Kind}
    (kind : t.kind? = some k') (listed : k ∈ listedKinds) (other : k' ∉ listedKinds) :
    g.placesOf k = f.placesOf k ++ gain o k t := by
  rw [same, gain_eq_nil kind listed other, List.append_nil]

/-- A call that has a name is listed at its place. -/
theorem placesOf_addCall (kind : t.kind? = some .call)
    (met : (Syntax.Java.demands .call).Met t.children) :
    (addCall o s f t).placesOf k = f.placesOf k ++ gain o k t := by
  obtain ⟨u, mem, role⟩ := met
  cases named : t.part? .name with
  | none => exact absurd (List.find?_eq_none.mp named u mem) (by simp [role])
  | some name =>
      rw [addCall, (expr_eq_call_iff kind).mpr ⟨name, named, rfl⟩, gain_eq_of_kind kind]
      cases k <;> simp [SourceFile.placesOf]

/-- A member reference that refers to something is listed at its place. -/
theorem placesOf_addReference (kind : t.kind? = some .reference)
    (met : (Syntax.Java.demands .reference).Met t.children) :
    (addReference o s f t).placesOf k = f.placesOf k ++ gain o k t := by
  rw [gain_eq_of_kind kind, addReference]
  split
  case h_1 empty =>
    obtain ⟨u, mem, named⟩ := met
    exact absurd named (List.filter_eq_nil_iff.mp empty u mem)
  case h_2 => cases k <;> simp [SourceFile.placesOf]

theorem placesOf_addLambda (kind : t.kind? = some .lambda) :
    { f with lambdas := f.lambdas.push (lambdaOf o s above t) }.placesOf k =
      f.placesOf k ++ gain o k t := by
  rw [gain_eq_of_kind kind]
  cases k <;> simp [SourceFile.placesOf, lambdaOf]

/-- A node that has what its kind demands adds what it gains. -/
theorem placesOf_enter (met : ∀ k, t.kind? = some k → (Syntax.Java.demands k).Met t.children)
    (listed : k ∈ listedKinds) :
    (enter o s above f t).state.placesOf k = f.placesOf k ++ gain o k t := by
  rw [enter.eq_def]
  -- one case a kind of nodes; all but three add none of the nodes that are listed
  split
  case h_2 kind =>
    exact placesOf_of_same (sameNodes_addImport o f t).placesOf kind listed (by decide)
  case h_9 kind =>
    exact placesOf_of_same (sameNodes_declare o s f t t).placesOf kind listed (by decide)
  case h_10 kind =>
    exact placesOf_of_same (sameNodes_declareAll o s f t _).placesOf kind listed (by decide)
  case h_11 kind => exact placesOf_addCall kind (met _ kind)
  case h_12 kind => split <;> exact placesOf_of_same rfl kind listed (by decide)
  case h_13 kind => exact placesOf_addLambda kind
  case h_14 kind => exact placesOf_addReference kind (met _ kind)
  case h_15 notCall _ notLambda notReference =>
    have apart : t.isKind k = false := by
      rw [Tree.isKind, beq_eq_false_iff_ne]
      simp only [listedKinds, List.mem_cons, List.not_mem_nil, or_false] at listed
      obtain rfl | rfl | rfl := listed
      · exact notCall
      · exact notLambda
      · exact notReference
    rw [gain, apart]
    exact (List.append_nil _).symm
  all_goals
    rename_i kind
    exact placesOf_of_same rfl kind listed (by decide)

theorem omits_of_kind {k' : Kind} (kind : t.kind? = some k') (u : Tree) :
    omits t u = (k' == .packageHeader || k' == .importHeader
      || (k' == .creation && (t.child? .classBody).isSome
        && !(u.role? == some .arguments || u.isKind .classBody))) := by
  simp only [omits, show ∀ l, t.isKind l = (k' == l) from fun l => by
    rw [Tree.isKind, kind, Option.some_beq_some]]

/-- A node's parts are gone into unless they are left out. -/
theorem isSome_scope?_enter (u : Tree) :
    ((enter o s above f t).scope? u).isSome = !omits t u := by
  rw [enter.eq_def]
  split
  case h_12 kind =>
    split
    case isTrue body =>
      rw [omits_of_kind kind, body]
      cases harguments : u.role? == some .arguments with
      | true => simp [harguments]
      | false => cases hbody : u.isKind .classBody <;> simp [harguments, hbody]
    case isFalse body => simp [omits_of_kind kind, body, Entry.within]
  case h_15 notPackage notImport _ _ _ _ _ _ _ _ _ notCreation _ _ =>
    simp [omits, Tree.isKind, Entry.within, show t.kind? ≠ _ from notPackage,
      show t.kind? ≠ _ from notImport, show t.kind? ≠ _ from notCreation]
  all_goals
    rename_i kind
    rw [omits_of_kind kind]
    rfl

end Entries

/-- The places of the nodes of a kind, of which each gains one. -/
theorem flatMap_gain (o : Origin) (k : Kind) (ts : List Tree) :
    ts.flatMap (gain o k) = (ts.filter (·.isKind k)).map o.location := by
  induction ts with
  | nil => rfl
  | cons t ts ih =>
      rw [List.flatMap_cons, ih, List.filter_cons, gain]
      split <;> rfl

/-- Of a tree that the grammar makes each node that the walk comes to is listed
if it is of a listed kind. -/
theorem placesOf_ofTree {t : Tree} (obeys : t.Obeys Syntax.Java.demands) (o : Origin) {k : Kind}
    (listed : k ∈ listedKinds) :
    (ofTree o t).placesOf k =
      ((t.reached fun t u => !omits t u).filter (·.isKind k)).map o.location := by
  have collects : Collects (enter o) (fun t u => !omits t u)
      (fun t => ∀ k, t.kind? = some k → (Syntax.Java.demands k).Met t.children)
      (·.placesOf k) (gain o k) :=
    { gains := fun _ _ _ _ met => placesOf_enter met listed
      parts := fun _ _ _ _ u => isSome_scope?_enter u }
  have empty : (SourceFile.empty o.path .java).placesOf k = [] := by
    cases k <;> rfl
  rw [ofTree, collects.list_walk obeys, empty, List.nil_append, flatMap_gain]

/-- **Which nodes of a Java file are listed.**  Let a text have a tree.  The
calls, the lambdas and the member references of the file that is read from it
stand, in order, at the places of the tree's nodes of that kind that the walk
comes to, one for each.  These are all nodes of the kind exactly if none of
them stands in a part that is left out. -/
theorem placesOf_read_perm_iff {path : FilePath} {text : String} {t : Tree}
    (parsed : Language.java.grammar.parse? text.toList = some t) {k : Kind}
    (listed : k ∈ listedKinds) :
    let o : Origin := ⟨path, text.toList⟩
    let f := Language.java.read path text
    f.placesOf k = ((t.reached fun w u => !omits w u).filter (·.isKind k)).map o.location ∧
      ((f.placesOf k).Perm ((t.nodes.filter (·.isKind k)).map o.location) ↔
        ∀ w ∈ t.nodes, ∀ u ∈ w.children, omits w u = true → ∀ v ∈ u.nodes, v.isKind k = false) := by
  intro o f
  have places : f.placesOf k =
      ((t.reached fun w u => !omits w u).filter (·.isKind k)).map o.location := by
    have made : f = ofTree o t := by
      simp only [f, Language.read, parsed]
      rfl
    rw [made, placesOf_ofTree (Syntax.Java.obeys_of_parse? parsed) o listed]
  refine ⟨places, ?_⟩
  rw [places, Tree.reached_perm_iff]
  simp only [Bool.not_eq_false']

/-- A class with a call in the arguments of an object that is created with a
body, and a lambda in that body. -/
def wrappedText : String :=
  "class A \x7b\n  Task f() \x7b\n    return new Task(size()) \x7b Runnable g = () -> stop(); \x7d;\n"
    ++ "  \x7d\n\x7d\n"

/-- Both calls of the class and its lambda are listed. -/
theorem placesOf_read_perm_wrappedText :
    ∃ t, Language.java.grammar.parse? wrappedText.toList = some t ∧
      let o : Origin := ⟨⟨"A.java"⟩, wrappedText.toList⟩
      let f := Language.java.read ⟨"A.java"⟩ wrappedText
      f.calls.size = 2 ∧ f.lambdas.size = 1 ∧
        ∀ k ∈ listedKinds, (f.placesOf k).Perm ((t.nodes.filter (·.isKind k)).map o.location) := by
  -- in one go, so that the text is read once
  obtain ⟨complete, calls, lambdas⟩ :
      (Language.java.grammar.parse? wrappedText.toList).any (fun t =>
        t.nodes.all fun w => w.children.all fun u => !omits w u || u.nodes.all fun v =>
          listedKinds.all fun k => !v.isKind k) = true
      ∧ (Language.java.read ⟨"A.java"⟩ wrappedText).calls.size = 2
      ∧ (Language.java.read ⟨"A.java"⟩ wrappedText).lambdas.size = 1 := by
    decide +kernel
  cases hparse : Language.java.grammar.parse? wrappedText.toList with
  | none =>
      rw [hparse] at complete
      cases complete
  | some t =>
      refine ⟨t, rfl, calls, lambdas, fun k listed => ?_⟩
      refine (placesOf_read_perm_iff hparse listed).2.mpr fun w hw u part out v inner => ?_
      rw [hparse, Option.any_some] at complete
      have := List.all_eq_true.mp (List.all_eq_true.mp complete w hw) u part
      rw [out, Bool.not_true, Bool.false_or] at this
      simpa using List.all_eq_true.mp (List.all_eq_true.mp this v inner) k listed

/-- A class that creates an object with a body in another object. -/
def innerText : String :=
  "class A \x7b\n  void f() \x7b\n    outer().new Inner() \x7b\x7d;\n  \x7d\n\x7d\n"

/-- The call of the other object is not listed. -/
theorem calls_innerText_eq_empty :
    (Language.java.grammar.parse? innerText.toList).map (fun t =>
        (t.nodes.filter (·.isKind .call)).map (·.span)) = some [⟨27, 34⟩] ∧
      (Language.java.read ⟨"src/A.java"⟩ innerText).calls.size = 0 := by
  decide +kernel

end Java

end Code

end AndroidLint
