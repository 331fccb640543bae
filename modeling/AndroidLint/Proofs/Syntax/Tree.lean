/-
Tree — the nodes of a tree, those around others first.

A walk comes to a node before what stands in it, and goes through its parts
in order.  It may go into some parts of a node only: then it comes to the
nodes `reached`, and misses those that stand in the parts it left out, however
deep.  Each node of the tree is in one of the two lists, as often as it stands
in the tree (`nodes_perm`).
-/
import AndroidLint.Syntax.Tree
import Mathlib.Data.List.Perm.Basic

namespace AndroidLint

namespace Syntax

namespace Tree

/-- A property of trees, from the parts of a node to the node. -/
@[elab_as_elim]
theorem inductionOn {P : Tree → Prop} (word : ∀ text p, P (.word text p))
    (node : ∀ k r p ts, (∀ u ∈ ts, P u) → P (.node k r p ts)) : (t : Tree) → P t
  | .word text p => word text p
  | .node k r p ts => node k r p ts fun u _ => inductionOn word node u

section Nodes

variable (enters : Tree → Tree → Bool)

mutual

/-- The nodes of a tree that a walk comes to, if `enters t u` says whether it
goes from a node `t` into its part `u`. -/
def reached : Tree → List Tree
  | .word .. => []
  | .node k r p ts => .node k r p ts :: reachedAmong (enters (.node k r p ts)) ts

/-- The nodes that it comes to in the parts that it goes into. -/
def reachedAmong (into : Tree → Bool) : List Tree → List Tree
  | [] => []
  | t :: ts => (if into t then t.reached else []) ++ reachedAmong into ts

end

/-- All nodes of a tree. -/
def nodes : Tree → List Tree :=
  reached fun _ _ => true

mutual

/-- The nodes of a tree that a walk misses. -/
def missed : Tree → List Tree
  | .word .. => []
  | .node k r p ts => missedAmong (enters (.node k r p ts)) ts

/-- The nodes that it misses in some parts: all nodes of a part that it does
not go into. -/
def missedAmong (into : Tree → Bool) : List Tree → List Tree
  | [] => []
  | t :: ts => (if into t then t.missed else t.nodes) ++ missedAmong into ts

end

theorem mem_reachedAmong {into : Tree → Bool} {ts : List Tree} {v : Tree} :
    v ∈ reachedAmong enters into ts ↔ ∃ u ∈ ts, into u = true ∧ v ∈ u.reached enters := by
  induction ts with
  | nil => simp [reachedAmong]
  | cons t ts ih =>
      rw [reachedAmong, List.mem_append, ih, List.exists_mem_cons_iff]
      cases into t <;> simp

theorem mem_missedAmong {into : Tree → Bool} {ts : List Tree} {v : Tree} :
    v ∈ missedAmong enters into ts ↔
      ∃ u ∈ ts, v ∈ if into u then u.missed enters else u.nodes := by
  induction ts with
  | nil => simp [missedAmong]
  | cons t ts ih => rw [missedAmong, List.mem_append, ih, List.exists_mem_cons_iff]

theorem mem_nodes_node {k : Kind} {r : Option Role} {p : Span} {ts : List Tree} {v : Tree} :
    v ∈ (node k r p ts).nodes ↔ v = node k r p ts ∨ ∃ u ∈ ts, v ∈ u.nodes := by
  rw [nodes, reached, List.mem_cons, mem_reachedAmong]
  simp

theorem mem_nodes_self {t : Tree} {k : Kind} (kind : t.kind? = some k) : t ∈ t.nodes := by
  cases t with
  | word => cases kind
  | node => exact mem_nodes_node.mpr (.inl rfl)

/-- What stands in a node of a part stands in the part. -/
theorem mem_nodes_trans {v w t : Tree} (mem : w ∈ t.nodes) (inner : v ∈ w.nodes) :
    v ∈ t.nodes := by
  induction t using inductionOn with
  | word => cases mem
  | node k r p ts ih =>
      obtain rfl | ⟨u, hu, mem⟩ := mem_nodes_node.mp mem
      · exact inner
      · exact mem_nodes_node.mpr (.inr ⟨u, hu, ih u hu mem⟩)

theorem mem_nodes_of_mem_children {t u v : Tree} (part : u ∈ t.children) (mem : v ∈ u.nodes) :
    v ∈ t.nodes := by
  cases t with
  | word => cases part
  | node k r p ts => exact mem_nodes_node.mpr (.inr ⟨u, part, mem⟩)

/-- A node of another kind than the tree stands in one of its parts. -/
theorem exists_child_of_mem_nodes {t v : Tree} (mem : v ∈ t.nodes) (other : v.kind? ≠ t.kind?) :
    ∃ u ∈ t.children, v ∈ u.nodes := by
  cases t with
  | word => cases mem
  | node =>
      refine (mem_nodes_node.mp mem).resolve_left ?_
      rintro rfl
      exact other rfl

/-- The first part of a kind is a node of that kind. -/
theorem of_child? {t u : Tree} {k : Kind} (child : t.child? k = some u) :
    u.kind? = some k ∧ u ∈ t.nodes := by
  have isKind : u.isKind k = true := List.find?_some child
  have kind := beq_iff_eq.mp isKind
  exact ⟨kind, mem_nodes_of_mem_children (List.mem_of_find?_eq_some child) (mem_nodes_self kind)⟩

/-- What holds of all nodes of a node holds of it and of all nodes of its parts. -/
theorem forall_nodes_node {P : Tree → Prop} {k : Kind} {r : Option Role} {p : Span}
    {ts : List Tree} :
    (∀ v ∈ (node k r p ts).nodes, P v) ↔ P (node k r p ts) ∧ ∀ u ∈ ts, ∀ v ∈ u.nodes, P v := by
  simp only [mem_nodes_node, or_imp, forall_and, forall_eq, forall_exists_index, and_imp]
  exact and_congr_right fun _ => ⟨fun all u part v mem => all v u part mem,
    fun all v u part mem => all u part v mem⟩

theorem reachedAmong_perm {ts : List Tree}
    (parts : ∀ u ∈ ts, u.nodes.Perm (u.reached enters ++ u.missed enters)) (into : Tree → Bool) :
    (reachedAmong (fun _ _ => true) (fun _ => true) ts).Perm
      (reachedAmong enters into ts ++ missedAmong enters into ts) := by
  induction ts with
  | nil => exact .nil
  | cons t ts ih =>
      obtain ⟨first, parts⟩ := List.forall_mem_cons.mp parts
      rw [reachedAmong, reachedAmong, missedAmong, if_pos rfl]
      cases into t with
      | true =>
          refine (first.append (ih parts)).trans ?_
          simp only [if_true, List.append_assoc]
          exact .append_left _ (List.perm_append_comm_assoc _ _ _)
      | false => exact ((ih parts).append_left _).trans (List.perm_append_comm_assoc _ _ _)

/-- Every node is come to or missed. -/
theorem nodes_perm (t : Tree) : t.nodes.Perm (t.reached enters ++ t.missed enters) := by
  induction t using inductionOn with
  | word => exact .nil
  | node k r p ts ih =>
      rw [nodes, reached, reached, missed, List.cons_append]
      exact (reachedAmong_perm enters ih _).cons _

/-- What a walk misses stands in a part that some node of the tree leaves
out. -/
theorem mem_missed {t v : Tree} :
    v ∈ t.missed enters ↔
      ∃ w ∈ t.nodes, ∃ u ∈ w.children, enters w u = false ∧ v ∈ u.nodes := by
  induction t using inductionOn with
  | word => simp [missed, nodes, reached]
  | node k r p ts ih =>
      rw [missed, mem_missedAmong]
      constructor
      · rintro ⟨u, mem, missed⟩
        cases hinto : enters (.node k r p ts) u with
        | false =>
            rw [hinto] at missed
            exact ⟨_, mem_nodes_node.mpr (.inl rfl), u, mem, hinto, missed⟩
        | true =>
            rw [hinto] at missed
            obtain ⟨w, hw, rest⟩ := (ih u mem).mp missed
            exact ⟨w, mem_nodes_node.mpr (.inr ⟨u, mem, hw⟩), rest⟩
      · rintro ⟨w, hw, u, part, out, inner⟩
        obtain rfl | ⟨u', mem, hw⟩ := mem_nodes_node.mp hw
        · exact ⟨u, part, by rwa [out]⟩
        · refine ⟨u', mem, ?_⟩
          cases hinto : enters (.node k r p ts) u' with
          | false => exact mem_nodes_trans hw (mem_nodes_of_mem_children part inner)
          | true => exact (ih u' mem).mpr ⟨w, hw, u, part, out, inner⟩

/-- Of the nodes with a property a walk comes to all exactly if it leaves out
no part with such a node. -/
theorem reached_perm_iff {β : Type} (p : Tree → Bool) (f : Tree → β) (t : Tree) :
    (((t.reached enters).filter p).map f).Perm ((t.nodes.filter p).map f) ↔
      ∀ w ∈ t.nodes, ∀ u ∈ w.children, enters w u = false → ∀ v ∈ u.nodes, p v = false := by
  have whole := (nodes_perm enters t).filter p
  rw [List.filter_append] at whole
  have none_missed : (t.missed enters).filter p = [] ↔
      ∀ w ∈ t.nodes, ∀ u ∈ w.children, enters w u = false → ∀ v ∈ u.nodes, p v = false := by
    simp only [List.filter_eq_nil_iff, mem_missed, Bool.not_eq_true]
    exact ⟨fun h w hw u part out v inner => h v ⟨w, hw, u, part, out, inner⟩,
      fun h v ⟨w, hw, u, part, out, inner⟩ => h w hw u part out v inner⟩
  rw [← none_missed]
  constructor
  · intro perm
    -- what is come to is as long as the whole, which leaves nothing to be missed
    have hlength := perm.length_eq
    rw [List.length_map, List.length_map, whole.length_eq, List.length_append] at hlength
    exact List.eq_nil_of_length_eq_zero (by omega)
  · intro empty
    rw [empty, List.append_nil] at whole
    exact (whole.symm).map f

theorem filter_reachedAmong {p : Tree → Bool} {ts : List Tree} {into : Tree → Bool}
    (each : ∀ u ∈ ts, (u.reached enters).filter p = u.nodes.filter p)
    (none : ∀ u ∈ ts, into u = false → ∀ v ∈ u.nodes, p v = false) :
    (reachedAmong enters into ts).filter p =
      (reachedAmong (fun _ _ => true) (fun _ => true) ts).filter p := by
  induction ts with
  | nil => rfl
  | cons t ts ih =>
      obtain ⟨first, each⟩ := List.forall_mem_cons.mp each
      obtain ⟨noneFirst, none⟩ := List.forall_mem_cons.mp none
      rw [reachedAmong, reachedAmong, List.filter_append, List.filter_append, ih each none,
        if_pos rfl]
      cases hinto : into t with
      | true => rw [if_pos rfl, first, nodes]
      | false =>
          have empty : t.nodes.filter p = [] := by
            simpa [List.filter_eq_nil_iff] using noneFirst hinto
          rw [if_neg Bool.false_ne_true, List.filter_nil, ← nodes, empty]

/-- Where a walk leaves out no part that holds a node with a property, it comes to
the nodes with the property in the order of the tree. -/
theorem filter_reached {p : Tree → Bool} {t : Tree}
    (none : ∀ w ∈ t.nodes, ∀ u ∈ w.children, enters w u = false → ∀ v ∈ u.nodes, p v = false) :
    (t.reached enters).filter p = t.nodes.filter p := by
  induction t using inductionOn with
  | word => rfl
  | node k r s ts ih =>
      rw [nodes, reached, reached, List.filter_cons, List.filter_cons]
      rw [filter_reachedAmong enters (fun u mem => ih u mem fun w hw =>
          none w (mem_nodes_node.mpr (.inr ⟨u, mem, hw⟩)))
        fun u mem => none _ (mem_nodes_node.mpr (.inl rfl)) u mem]

end Nodes

/-! ## Comments -/

/-- A tree in whose range a comment is not before or behind everything. -/
def Meets (t : Tree) (c : Span) : Prop :=
  ¬ c.stop ≤ t.span.start ∧ ¬ t.span.stop ≤ c.start

/-- With a comment among trees in a row there are the trees, as they are or with
the comment in them, and the comment. -/
theorem mem_insertAmong {c : Span} {ts : List Tree} {v : Tree} (mem : v ∈ insertAmong c ts) :
    v = ofComment c ∨ v ∈ ts ∨ ∃ u ∈ ts, u.Meets c ∧ v = u.insert c := by
  induction ts with
  | nil => exact .inl (List.mem_singleton.mp mem)
  | cons t ts ih =>
      rw [insertAmong] at mem
      split at mem
      case isTrue =>
        obtain here | mem := List.mem_cons.mp mem
        · exact .inl here
        · exact .inr (.inl mem)
      case isFalse low =>
        split at mem
        case isTrue =>
          obtain rfl | mem := List.mem_cons.mp mem
          · exact .inr (.inl List.mem_cons_self)
          · obtain here | mem | ⟨u, hu, meets, same⟩ := ih mem
            · exact .inl here
            · exact .inr (.inl (List.mem_cons_of_mem _ mem))
            · exact .inr (.inr ⟨u, List.mem_cons_of_mem _ hu, meets, same⟩)
        case isFalse high =>
          obtain here | mem := List.mem_cons.mp mem
          · exact .inr (.inr ⟨t, List.mem_cons_self, ⟨low, high⟩, here⟩)
          · exact .inr (.inl (List.mem_cons_of_mem _ mem))

section Comments

variable {P : Tree → Prop} (comment : ∀ c, P (ofComment c))
  (keeps : ∀ c k r p ts, P (node k r p ts) → P (node k r p (insertAmong c ts)))
include comment keeps

/-- What holds of comments, and of a node with a comment in it if it held before,
holds of all nodes of a tree with a comment in it. -/
theorem forall_nodes_insert {t : Tree} (all : ∀ v ∈ t.nodes, P v) (c : Span) :
    ∀ v ∈ (t.insert c).nodes, P v := by
  induction t using inductionOn with
  | word => exact all
  | node k r p ts ih =>
      obtain ⟨own, parts⟩ := forall_nodes_node.mp all
      refine forall_nodes_node.mpr ⟨keeps c k r p ts own, fun v mem => ?_⟩
      obtain rfl | still | ⟨u, part, -, rfl⟩ := mem_insertAmong mem
      · exact forall_nodes_node.mpr ⟨comment c, nofun⟩
      · exact parts v still
      · exact ih u part (parts u part)

theorem forall_nodes_foldl_insert {t : Tree} (all : ∀ v ∈ t.nodes, P v) (comments : List Span) :
    ∀ v ∈ (comments.foldl (fun t c => t.insert c) t).nodes, P v := by
  induction comments generalizing t with
  | nil => exact all
  | cons c comments ih => exact ih (forall_nodes_insert comment keeps all c)

end Comments

end Tree

end Syntax

end AndroidLint
