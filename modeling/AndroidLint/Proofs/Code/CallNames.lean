/-
CallNames — where the name of a call stands.

A listed call was made from a node, and its name from a node in that
(`nameNode?`).  The range of a call begins where a token begins and ends where
a bracket ends, so it is a part of the text; a call is none of the few nodes that
may reach beyond it (`Grammar.stop_le_of_parse?`).  The name stands in that part,
with what the call is made on before it and what it is given behind it
(`exists_named`).
-/
import AndroidLint.Proofs.Code.InnerCalls
import AndroidLint.Proofs.Code.Modifiers
import AndroidLint.Proofs.Syntax.Closing

namespace AndroidLint

namespace Syntax

open Text (byteCount byteCount_append)

/-! ## What the grammars promise -/

namespace Form

variable {ρ : Type}

mutual

/-- Where no kind only marks tokens, every form keeps to that. -/
theorem keeps_unmarked : (f : Form ρ) → f.Keeps fun _ => none
  | .word _ | .bare _ | .ahead _ | .rule _ => trivial
  | .leaf .. => fun _ mark => by cases mark
  | .all fs | .any fs => allKeep_unmarked fs
  | .many f | .part _ f | .group f => keeps_unmarked f
  | .node _ f | .around _ _ f => ⟨rfl, keeps_unmarked f⟩

theorem allKeep_unmarked : (fs : List (Form ρ)) → AllKeep (fun _ => none) fs
  | [] => trivial
  | f :: fs => ⟨keeps_unmarked f, allKeep_unmarked fs⟩

end

end Form

/-- The nodes that end in a bracket. -/
def isClosed (k : Kind) : Bool :=
  k == .call

namespace Java

theorem isSymbolic_spelling : spelling.IsSymbolic := by
  simp [Spelling.IsSymbolic, spelling]

/-- The rules that others refer to. -/
def isInner : Rule → Bool
  | .file => false
  | _ => true

theorem isSolid_form (r : Rule) (inner : isInner r = true) :
    (form r).takesToken isInner = true ∧ (form r).isSolid isInner = true := by
  cases r with
  | file => cases inner
  | _ => exact ⟨rfl, rfl⟩

theorem covers_of_parse? {text : List Char} {t : Tree} (parsed : grammar.parse? text = some t) :
    t.kind? = some .file ∧
      Tree.Covers (fun _ => none) (lex spelling text).tokens t.children (lex spelling text).spans :=
  Grammar.covers_of_parse? (g := grammar) isSymbolic_spelling isSolid_form
    (fun r => Form.keeps_unmarked (form r)) rfl rfl rfl parsed

/-- The rules whose forms end in a bracket. -/
def isBracketed : Rule → Bool
  | .arguments => true
  | _ => false

theorem stop_le_of_parse? {text : List Char} {t : Tree} (parsed : grammar.parse? text = some t) :
    ∀ u ∈ t.nodes, ∀ k ∈ u.kind?, isClosed k = true → u.span.stop ≤ byteCount text := by
  refine Grammar.stop_le_of_parse? (g := grammar) isSymbolic_spelling isBracketed ?_ ?_ rfl parsed
  · intro r bracketed
    cases r with
    | arguments => rfl
    | _ => cases bracketed
  · intro r
    cases r <;> rfl

end Java

namespace Kotlin

/-- The rules whose forms end in a bracket. -/
def isBracketed : Rule → Bool
  | .callSuffix | .valueArguments | .lambda => true
  | _ => false

theorem stop_le_of_parse? {text : List Char} {t : Tree} (parsed : grammar.parse? text = some t) :
    ∀ u ∈ t.nodes, ∀ k ∈ u.kind?, isClosed k = true → u.span.stop ≤ byteCount text := by
  refine Grammar.stop_le_of_parse? (g := grammar) isSymbolic_spelling isBracketed ?_ ?_ rfl parsed
  · intro r bracketed
    cases r with
    | callSuffix | valueArguments | lambda => rfl
    | _ => cases bracketed
  · intro r
    cases r <;> rfl

end Kotlin

end Syntax

namespace Code

open Syntax (Kind Layout Lexed Span Tree)
open Text (append_of_byteCount_le byteCount byteCount_append)

/-! ## Listed calls -/

section Walk

variable {σ : Type} {enter : Scope → List Tree → σ → Tree → Entry σ} {calls : σ → Array Call}
  {expr : Scope → Tree → Expr} {through : List Kind} {P : Tree → Prop} {c : Call}

/-- `c.MadeFrom expr t`: a node of the tree is the call, read in some scope. -/
def Call.MadeFrom (c : Call) (expr : Scope → Tree → Expr) (t : Tree) : Prop :=
  ∃ u ∈ t.nodes, u.kind? = some .call ∧ ∃ s, expr s u = .call c

theorem exists_of_mem_walkAll {ts : List Tree}
    (each : ∀ u ∈ ts, ∀ s above d, c ∈ calls (walk enter s above d u) →
      c ∈ calls d ∨ c.MadeFrom expr u)
    (scope? : Tree → Option Scope) (above : List Tree) (d : σ)
    (listed : c ∈ calls (walkAll enter scope? above d ts)) :
    c ∈ calls d ∨ ∃ u ∈ ts, c.MadeFrom expr u := by
  induction ts generalizing d with
  | nil => exact .inl listed
  | cons t ts ih =>
      obtain ⟨first, others⟩ := List.forall_mem_cons.mp each
      rw [walkAll] at listed
      cases hscope : scope? t with
      | none =>
          rw [hscope] at listed
          exact (ih others d listed).imp_right List.exists_mem_cons_of_exists
      | some s =>
          rw [hscope] at listed
          obtain before | made := ih others _ listed
          · exact (first s above d before).imp_right fun made => ⟨t, List.mem_cons_self, made⟩
          · exact .inr (List.exists_mem_cons_of_exists made)

/-- What a walk lists was listed before or is made from a node of the tree. -/
theorem ListsCalls.madeFrom_of_mem_walk (lists : ListsCalls enter calls expr through P) (t : Tree)
    (s : Scope) (above : List Tree) (d : σ) (listed : c ∈ calls (walk enter s above d t)) :
    c ∈ calls d ∨ c.MadeFrom expr t := by
  induction t using Tree.inductionOn generalizing s above d with
  | word => exact .inl listed
  | node k r p ts ih =>
      rw [walk] at listed
      obtain before | ⟨u, part, v, mem, made⟩ := exists_of_mem_walkAll ih _ _ _ listed
      · refine ((lists.adds s above d _ c).mp before).imp_right fun added => ?_
        exact ⟨_, Tree.mem_nodes_self added.1, added.1, s, added.2⟩
      · exact .inr ⟨v, Tree.mem_nodes_node.mpr (.inr ⟨u, part, mem⟩), made⟩

end Walk

namespace Kotlin

/-- The node that names what a call calls: a name, or the last one of a member. -/
def calledNode? (t : Tree) : Option Tree :=
  t.named.head?.bind fun callee =>
    match callee.kind? with
    | some .identifier => some callee
    | some .navigation => (callee.child? .navigationSuffix).bind (·.child? .identifier)
    | _ => none

theorem calledName?_eq (o : Origin) (t : Tree) :
    calledName? o t = (calledNode? t).map o.words := by
  rw [calledName?, calledNode?]
  cases t.named.head? with
  | none => rfl
  | some callee =>
      dsimp only [Option.bind_some]
      cases callee.kind? with
      | none => rfl
      | some k => cases k <;> rfl

end Kotlin

/-- The node in a call that its name is read from. -/
def Language.nameNode? (l : Language) (w : Tree) : Option Tree :=
  match l with
  | .kotlin => Kotlin.calledNode? w
  | .java => w.part? .name

/-- The name of a call is a node in it. -/
theorem mem_nodes_of_nameNode? {l : Language} {w v : Tree} (name : l.nameNode? w = some v) :
    v ∈ w.nodes := by
  cases l with
  | java =>
      have named : w.part? .name = some v := name
      have role := List.find?_some named
      refine Tree.mem_nodes_of_mem_children (List.mem_of_find?_eq_some named) ?_
      cases v with
      | word => cases role
      | node => exact Tree.mem_nodes_self rfl
  | kotlin =>
      obtain ⟨callee, first, name⟩ := Option.bind_eq_some_iff.mp name
      have part := List.mem_of_mem_filter (List.mem_of_head? first)
      split at name
      case h_1 kind =>
        obtain rfl := Option.some.inj name
        exact Tree.mem_nodes_of_mem_children part (Tree.mem_nodes_self kind)
      case h_2 kind =>
        obtain ⟨suffix, behind, name⟩ := Option.bind_eq_some_iff.mp name
        have inner := Tree.mem_nodes_trans (Tree.of_child? behind).2 (Tree.of_child? name).2
        exact Tree.mem_nodes_of_mem_children part inner
      case h_3 => cases name

/-- `c.ReadFrom l o w v`: the call has the place of the node `w` and the name that
`v` is. -/
structure Call.ReadFrom (c : Call) (l : Language) (o : Origin) (w v : Tree) : Prop where
  kind : w.kind? = some .call
  place : c.location = o.location w
  node : l.nameNode? w = some v
  name : c.methodName = o.words v

theorem Java.readFrom_of_expr {o : Origin} {s : Scope} {w : Tree} {c : Call}
    (kind : w.kind? = some .call) (reads : expr o s w = .call c) :
    ∃ v, c.ReadFrom .java o w v := by
  obtain ⟨v, named, rfl⟩ := (expr_eq_call_iff kind).mp reads
  exact ⟨v, kind, rfl, named, rfl⟩

theorem Kotlin.readFrom_of_expr {o : Origin} {s : Scope} {w : Tree} {c : Call}
    (kind : w.kind? = some .call) (reads : expr o s w = .call c) :
    ∃ v, c.ReadFrom .kotlin o w v := by
  obtain ⟨-, name, called, rfl⟩ := (expr_eq_call_iff kind).mp reads
  rw [calledName?_eq] at called
  obtain ⟨v, node, rfl⟩ := Option.map_eq_some_iff.mp called
  exact ⟨v, kind, rfl, node, rfl⟩

/-- **Every listed call is read from a node**, and its name from a node in that. -/
theorem exists_readFrom {l : Language} {path : FilePath} {text : String} {c : Call}
    (listed : c ∈ (l.read path text).calls) :
    ∃ t, l.grammar.parse? text.toList = some t ∧
      ∃ w ∈ t.nodes, ∃ v, c.ReadFrom l ⟨path, text.toList⟩ w v := by
  have empty : c ∉ (SourceFile.empty path l).calls := Array.not_mem_empty c
  obtain ⟨t, parsed, read⟩ := exists_tree_of_mem_calls listed
  rw [read] at listed
  refine ⟨t, parsed, ?_⟩
  cases l with
  | kotlin =>
      obtain before | ⟨w, mem, kind, s, reads⟩ :=
        (Kotlin.listsCalls_enter _).madeFrom_of_mem_walk t _ _ _ listed
      · exact absurd before empty
      · exact ⟨w, mem, Kotlin.readFrom_of_expr kind reads⟩
  | java =>
      obtain before | ⟨w, mem, kind, s, reads⟩ :=
        (Java.listsCalls_enter _).madeFrom_of_mem_walk t _ _ _ listed
      · exact absurd before empty
      · exact ⟨w, mem, Java.readFrom_of_expr kind reads⟩

/-! ## Ranges -/

section Ranges

variable {text extra line rest : List Char} {l : Lexed}
  {marks : Kind → Option (Syntax.Token → Bool)} {root child w v : Tree}
  (whole : text ++ extra = line ++ rest) (layout : Layout (byteCount line) rest l)
  (covers : Tree.Covers marks l.tokens root.children l.spans) (part : child ∈ root.children)
  (mem : w ∈ child.nodes)
include whole layout covers part mem

/-- A node that does not reach beyond the text is a part of it. -/
theorem exists_range (within : w.span.stop ≤ byteCount text) :
    ∃ front range back, text = front ++ (range ++ back) ∧ byteCount front = w.span.start ∧
      byteCount front + byteCount range = w.span.stop := by
  have snug := (covers.snug child part).of_mem_nodes mem
  have row := (Tree.leaves_infix mem).trans (Tree.leaves_infix_leavesAmong part)
  have spans : ∀ p ∈ w.leaves, p ∈ l.spans :=
    fun p leaf => covers.leaves.mem_iff.mp (row.subset leaf)
  obtain ⟨p, first, start⟩ := snug.hulls.first_mem
  obtain ⟨q, last, stop⟩ := snug.hulls.last_mem
  have low := (layout.start_le p (spans p first)).2
  have high := snug.hulls.le_stop (covers.ordered.of_infix row) p first
  obtain ⟨lead, b, tail, cut, pstart, -⟩ := layout.exists_piece p (spans p first)
  obtain ⟨lead', b', tail', cut', -, qstop⟩ := layout.exists_piece q (spans q last)
  -- the text is cut behind the last leaf, and what is before that in front of the first
  have ending : line ++ lead' ++ b' ++ tail' = text ++ extra := by
    rw [whole, cut']
    simp
  obtain ⟨back, rfl, -⟩ := append_of_byteCount_le ending (by simp only [byteCount_append]; omega)
  have beginning : line ++ lead ++ (b ++ tail) = line ++ lead' ++ b' ++ (back ++ extra) := by
    rw [← List.append_assoc _ back, whole, cut]
    simp
  obtain ⟨range, split, -⟩ :=
    append_of_byteCount_le beginning (by simp only [byteCount_append]; omega)
  have size := congrArg byteCount split
  refine ⟨line ++ lead, range, back, by rw [split, List.append_assoc], ?_, ?_⟩
  · rw [byteCount_append]
    omega
  · simp only [byteCount_append] at size ⊢
    omega

/-- What is read from a node in such a node stands in its range. -/
theorem exists_around (within : w.span.stop ≤ byteCount text) (inner : v ∈ w.nodes)
    {name : List Char} (nonempty : name ≠ []) (cut : Text.slice? v.span.start v.span.stop text = some name) :
    ∃ front before behind back, text = front ++ (before ++ (name ++ behind) ++ back) ∧
      byteCount front = w.span.start ∧ byteCount front + byteCount before = v.span.start ∧
      byteCount front + byteCount (before ++ (name ++ behind)) = w.span.stop := by
  obtain ⟨front, range, back, rfl, start, stop⟩ :=
    exists_range whole layout covers part mem within
  have row := (Tree.leaves_infix mem).trans (Tree.leaves_infix_leavesAmong part)
  obtain ⟨low, high⟩ := ((covers.snug child part).of_mem_nodes mem).within
    (covers.ordered.of_infix row) inner
  obtain ⟨lead, tail, stands, vstart, size⟩ := Text.eq_append_of_slice? cut
  have positive := Text.byteCount_pos nonempty
  obtain ⟨before, rfl, split⟩ := append_of_byteCount_le stands (by omega)
  rw [← List.append_assoc] at split
  rw [byteCount_append] at vstart
  obtain ⟨behind, rfl, -⟩ :=
    append_of_byteCount_le split.symm (by simp only [byteCount_append]; omega)
  exact ⟨front, before, behind, back, by simp, start, vstart, by simpa using stop⟩

end Ranges

/-! ## Names in ranges -/

theorem Language.isSymbolic_grammar (l : Language) : l.grammar.spelling.IsSymbolic := by
  cases l with
  | kotlin => exact Syntax.Kotlin.isSymbolic_spelling
  | java => exact Syntax.Java.isSymbolic_spelling

theorem Language.covers_of_parse? {l : Language} {text : List Char} {t : Tree}
    (parsed : l.grammar.parse? text = some t) :
    t.kind? = some .file ∧ ∃ marks, Tree.Covers marks (Syntax.lex l.grammar.spelling text).tokens
      t.children (Syntax.lex l.grammar.spelling text).spans := by
  cases l with
  | kotlin => exact (Syntax.Kotlin.covers_of_parse? parsed).imp_right fun covers => ⟨_, covers⟩
  | java => exact (Syntax.Java.covers_of_parse? parsed).imp_right fun covers => ⟨_, covers⟩

/-- A call ends within the text. -/
theorem Language.stop_le_of_parse? {l : Language} {text : List Char} {t w : Tree}
    (parsed : l.grammar.parse? text = some t) (mem : w ∈ t.nodes) (kind : w.kind? = some .call) :
    w.span.stop ≤ byteCount text := by
  cases l with
  | kotlin => exact Syntax.Kotlin.stop_le_of_parse? parsed w mem .call kind rfl
  | java => exact Syntax.Java.stop_le_of_parse? parsed w mem .call kind rfl

/-- `c.SpelledIn text v before behind`: the range of the call is `before`, the name of
the call and `behind`, and the name is where the node `v` is. -/
structure Call.SpelledIn (c : Call) (text : List Char) (v : Tree) (before behind : List Char) :
    Prop where
  range : Text.slice? c.location.startByte c.location.endByte text =
    some (before ++ (c.methodName.toList ++ behind))
  start : v.span.start = c.location.startByte + byteCount before
  stop : v.span.stop = v.span.start + byteCount c.methodName.toList

/-- **A listed call spells its name within its range.**  What is in the range of a
call is a part of the text, and in that stands the name, where the node stands that
it was read from. -/
theorem exists_spelledIn {l : Language} {path : FilePath} {text : String} {c : Call}
    (listed : c ∈ (l.read path text).calls) (named : c.methodName ≠ "") :
    ∃ t, l.grammar.parse? text.toList = some t ∧ ∃ w ∈ t.nodes, ∃ v,
      c.ReadFrom l ⟨path, text.toList⟩ w v ∧
        ∃ before behind, c.SpelledIn text.toList v before behind := by
  obtain ⟨t, parsed, w, mem, v, read⟩ := exists_readFrom listed
  obtain ⟨file, marks, covers⟩ := Language.covers_of_parse? parsed
  obtain ⟨line, rest, extra, whole, layout⟩ := Syntax.layout_lex l.isSymbolic_grammar text.toList
  -- the call is not the whole file, so it stands in one of its parts
  obtain ⟨child, part, below⟩ :=
    Tree.exists_child_of_mem_nodes mem (by rw [read.kind, file]; decide)
  have nonempty : c.methodName.toList ≠ [] := fun none => named (String.toList_eq_nil_iff.mp none)
  have cut : Text.slice? v.span.start v.span.stop text.toList = some c.methodName.toList := by
    rw [read.name] at named ⊢
    exact Origin.slice?_of_words named
  obtain ⟨front, before, behind, back, around, start, vstart, stop⟩ :=
    exists_around whole layout covers part below
      (Language.stop_le_of_parse? parsed mem read.kind) (mem_nodes_of_nameNode? read.node)
      nonempty cut
  obtain ⟨-, -, -, -, size⟩ := Text.eq_append_of_slice? cut
  have positive := Text.byteCount_pos nonempty
  refine ⟨t, parsed, w, mem, v, read, before, behind, ?_, ?_, by omega⟩
  · have slice := Text.slice?_append front (before ++ (c.methodName.toList ++ behind)) back
    rw [read.place, around, ← List.append_assoc]
    rwa [stop, start] at slice
  · rw [read.place, ← vstart, start]
    rfl

end Code

end AndroidLint
