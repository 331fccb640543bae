/-
Leaves — the places in a text that a tree covers.

The leaves of a tree are its words and the nodes that nothing stands in.  In a
tree that is read from a text a node reaches from its first leaf to its last
(`Tree.Snug`), and the leaves are in order.  So what lies within the range of a
node is a leaf of it if it is one of the tree (`Ordered.mem_of_overlap`), and lies
within the range of one of its parts.

A comment is put between two leaves (`insert_spec`): it shares no byte with any of them, so
it never goes into a leaf, and a node that it goes into has leaves on both sides
of it.  The root is no such node, for comments may stand before and behind
everything else.
-/
import AndroidLint.Proofs.Syntax.Layout
import AndroidLint.Proofs.Syntax.Tree

namespace AndroidLint

namespace Syntax

/-! ## Ranges in order -/

/-- Ranges of at least one byte, each before the next. -/
structure Ordered (ls : List Span) : Prop where
  sorted : ls.Pairwise Span.Before
  some : ∀ p ∈ ls, p.start < p.stop

/-- A range reaches from the first of some others to the last. -/
structure Span.Hulls (p : Span) (ls : List Span) : Prop where
  start : ls.head?.map (·.start) = some p.start
  stop : ls.getLast?.map (·.stop) = some p.stop

/-- `Placed c ls ls'`: the ranges `ls'` are `ls` with `c` where it belongs. -/
def Placed (c : Span) (ls ls' : List Span) : Prop :=
  ∃ front back, ls = front ++ back ∧ ls' = front ++ c :: back ∧
    (∀ p ∈ front, p.Before c) ∧ ∀ p ∈ back, c.Before p

section Ranges

variable {c p : Span} {ls ls' ms : List Span}

theorem Ordered.of_append_left (ordered : Ordered (ls ++ ms)) : Ordered ls :=
  ⟨(List.pairwise_append.mp ordered.sorted).1, fun p mem => ordered.some p (by simp [mem])⟩

theorem Ordered.of_append_right (ordered : Ordered (ls ++ ms)) : Ordered ms :=
  ⟨(List.pairwise_append.mp ordered.sorted).2.1, fun p mem => ordered.some p (by simp [mem])⟩

theorem Ordered.of_infix (ordered : Ordered ls) (row : ms <:+: ls) : Ordered ms := by
  obtain ⟨front, back, rfl⟩ := row
  exact ordered.of_append_left.of_append_right

theorem Ordered.before (ordered : Ordered (ls ++ ms)) : ∀ p ∈ ls, ∀ q ∈ ms, p.Before q :=
  (List.pairwise_append.mp ordered.sorted).2.2

theorem Span.Hulls.start_le (hull : p.Hulls ls) (ordered : Ordered ls) :
    ∀ q ∈ ls, p.start ≤ q.start := by
  obtain ⟨q, front, start⟩ := Option.map_eq_some_iff.mp hull.start
  obtain ⟨rest, rfl⟩ := List.head?_eq_some_iff.mp front
  rw [← start]
  refine List.forall_mem_cons.mpr ⟨Nat.le_refl _, fun r mem => ?_⟩
  have before : q.stop ≤ r.start := (List.pairwise_cons.mp ordered.sorted).1 r mem
  have some := ordered.some q List.mem_cons_self
  omega

theorem Span.Hulls.le_stop (hull : p.Hulls ls) (ordered : Ordered ls) :
    ∀ q ∈ ls, q.stop ≤ p.stop := by
  obtain ⟨q, back, stop⟩ := Option.map_eq_some_iff.mp hull.stop
  obtain ⟨rest, rfl⟩ := List.getLast?_eq_some_iff.mp back
  rw [← stop]
  refine List.forall_mem_append.mpr ⟨fun r mem => ?_, List.forall_mem_singleton.mpr (Nat.le_refl _)⟩
  have before : r.stop ≤ q.start := ordered.before r mem q (List.mem_singleton_self q)
  have some := ordered.some q (by simp)
  omega

theorem Span.Hulls.first_mem (hull : p.Hulls ls) : ∃ q ∈ ls, q.start = p.start := by
  obtain ⟨q, front, start⟩ := Option.map_eq_some_iff.mp hull.start
  exact ⟨q, List.mem_of_head? front, start⟩

theorem Span.Hulls.last_mem (hull : p.Hulls ls) : ∃ q ∈ ls, q.stop = p.stop := by
  obtain ⟨q, back, stop⟩ := Option.map_eq_some_iff.mp hull.stop
  exact ⟨q, List.mem_of_getLast? back, stop⟩

theorem Span.Hulls.start_append (hull : p.Hulls ls) (ms : List Span) :
    (ls ++ ms).head?.map (·.start) = some p.start := by
  obtain ⟨q, front, start⟩ := Option.map_eq_some_iff.mp hull.start
  rw [List.head?_append_of_ne_nil _ (List.ne_nil_of_mem (List.mem_of_head? front))]
  exact hull.start

theorem Span.Hulls.append_stop (hull : p.Hulls ls) (ms : List Span) :
    (ms ++ ls).getLast?.map (·.stop) = some p.stop := by
  obtain ⟨q, back, stop⟩ := Option.map_eq_some_iff.mp hull.stop
  rw [List.getLast?_append_of_ne_nil _ (List.ne_nil_of_mem (List.mem_of_getLast? back))]
  exact hull.stop

theorem hulls_singleton (p : Span) : p.Hulls [p] :=
  ⟨rfl, rfl⟩

/-- What shares a byte with a range is among what the range reaches over. -/
theorem Ordered.mem_of_overlap (ordered : Ordered ls) (row : ms <:+: ls) (hull : p.Hulls ms)
    {q : Span} (mem : q ∈ ls) (low : p.start < q.stop) (high : q.start < p.stop) : q ∈ ms := by
  obtain ⟨front, back, rfl⟩ := row
  obtain ⟨first, first_mem, start⟩ := hull.first_mem
  obtain ⟨last, last_mem, stop⟩ := hull.last_mem
  obtain (mem | mem) | mem := (List.mem_append.mp mem).imp_left List.mem_append.mp
  · have before : q.stop ≤ first.start := ordered.of_append_left.before q mem first first_mem
    omega
  · exact mem
  · have behind : last.stop ≤ q.start :=
      ordered.before last (List.mem_append_right _ last_mem) q mem
    omega

theorem Placed.append_left (placed : Placed c ls ls') (before : ∀ p ∈ ms, p.Before c) :
    Placed c (ms ++ ls) (ms ++ ls') := by
  obtain ⟨front, back, rfl, rfl, low, high⟩ := placed
  exact ⟨ms ++ front, back, by simp, by simp, List.forall_mem_append.mpr ⟨before, low⟩, high⟩

theorem Placed.append_right (placed : Placed c ls ls') (behind : ∀ p ∈ ms, c.Before p) :
    Placed c (ls ++ ms) (ls' ++ ms) := by
  obtain ⟨front, back, rfl, rfl, low, high⟩ := placed
  exact ⟨front, back ++ ms, by simp, by simp, low, List.forall_mem_append.mpr ⟨high, behind⟩⟩

theorem placed_first (behind : ∀ p ∈ ls, c.Before p) : Placed c ls (c :: ls) :=
  ⟨[], ls, rfl, rfl, nofun, behind⟩

theorem Placed.perm (placed : Placed c ls ls') : ls'.Perm (c :: ls) := by
  obtain ⟨front, back, rfl, rfl, -, -⟩ := placed
  exact List.perm_middle

theorem Placed.ordered (placed : Placed c ls ls') (ordered : Ordered ls) (some : c.start < c.stop) :
    Ordered ls' := by
  refine ⟨?_, fun p mem => ?_⟩
  · obtain ⟨front, back, rfl, rfl, low, high⟩ := placed
    obtain ⟨sorted, sorted', apart⟩ := List.pairwise_append.mp ordered.sorted
    refine List.pairwise_append.mpr
      ⟨sorted, List.pairwise_cons.mpr ⟨high, sorted'⟩, fun p mem => ?_⟩
    exact List.forall_mem_cons.mpr ⟨low p mem, apart p mem⟩
  · obtain rfl | mem := List.mem_cons.mp (placed.perm.mem_iff.mp mem)
    · exact some
    · exact ordered.some p mem

/-- What is placed neither first nor last leaves the range over all as it is. -/
theorem Placed.hulls (placed : Placed c ls ls') (hull : p.Hulls ls)
    (low : ¬ c.stop ≤ p.start) (high : ¬ p.stop ≤ c.start) : p.Hulls ls' := by
  obtain ⟨front, back, rfl, rfl, before, behind⟩ := placed
  constructor
  · cases front with
    | nil =>
        obtain ⟨q, mem, start⟩ := hull.first_mem
        exact absurd (start ▸ behind q mem) low
    | cons => exact hull.start
  · obtain rfl | ⟨back, q, rfl⟩ := List.eq_nil_or_concat' back
    · obtain ⟨q, mem, stop⟩ := hull.last_mem
      rw [List.append_nil] at mem
      exact absurd (stop ▸ before q mem) high
    · have last := hull.stop
      rw [← List.append_assoc, List.getLast?_concat] at last
      rwa [← List.cons_append, ← List.append_assoc, List.getLast?_concat]

end Ranges

/-! ## Leaves -/

namespace Tree

mutual

/-- The places of the words of a tree and of the nodes that nothing stands in, in
order. -/
def leaves : Tree → List Span
  | .word _ p => [p]
  | .node _ _ p [] => [p]
  | .node _ _ _ (t :: ts) => t.leaves ++ leavesAmong ts

/-- Those of trees in a row. -/
def leavesAmong : List Tree → List Span
  | [] => []
  | t :: ts => t.leaves ++ leavesAmong ts

end

theorem leavesAmong_append (ts us : List Tree) :
    leavesAmong (ts ++ us) = leavesAmong ts ++ leavesAmong us := by
  induction ts with
  | nil => rfl
  | cons t ts ih => rw [List.cons_append, leavesAmong, ih, leavesAmong, List.append_assoc]

theorem leavesAmong_singleton (t : Tree) : leavesAmong [t] = t.leaves :=
  List.append_nil _

theorem leaves_node {k : Kind} {r : Option Role} {p : Span} {ts : List Tree} (some : ts ≠ []) :
    (node k r p ts).leaves = leavesAmong ts := by
  cases ts with
  | nil => exact absurd rfl some
  | cons t ts => rfl

theorem leaves_around (k : Kind) {ts : List Tree} (some : ts ≠ []) :
    (around k ts).leaves = leavesAmong ts.reverse :=
  leaves_node (List.reverse_ne_nil_iff.mpr some)

theorem ne_nil_of_leaves {α : Type} {f : α → Span} {ts : List Tree} {ls : List Span} {us : List α}
    (leaves : leavesAmong ts.reverse = ls ++ us.map f) (some : us ≠ []) : ts ≠ [] := by
  rintro rfl
  exact some (List.map_eq_nil_iff.mp (List.append_eq_nil_iff.mp leaves.symm).2)

theorem leaves_infix_leavesAmong {ts : List Tree} {t : Tree} (mem : t ∈ ts) :
    t.leaves <:+: leavesAmong ts := by
  obtain ⟨front, back, rfl⟩ := List.append_of_mem mem
  rw [leavesAmong_append, leavesAmong]
  exact ⟨leavesAmong front, leavesAmong back, List.append_assoc _ _ _⟩

theorem mem_leavesAmong {ts : List Tree} {p : Span} :
    p ∈ leavesAmong ts ↔ ∃ t ∈ ts, p ∈ t.leaves := by
  induction ts with
  | nil => simp [leavesAmong]
  | cons t ts ih => rw [leavesAmong, List.mem_append, ih, List.exists_mem_cons_iff]

theorem span_mem_leaves {t : Tree} (alone : t.children = []) : t.span ∈ t.leaves := by
  obtain _ | ⟨k, r, p, ts⟩ := t
  · exact List.mem_singleton_self _
  · obtain rfl : ts = [] := alone
    exact List.mem_singleton_self _

theorem mem_leaves_of_mem_children {t u : Tree} (part : u ∈ t.children) (alone : u.children = []) :
    u.span ∈ t.leaves := by
  cases t with
  | word => cases part
  | node k r p ts =>
      rw [leaves_node (show ts ≠ [] from List.ne_nil_of_mem part), mem_leavesAmong]
      exact ⟨u, part, span_mem_leaves alone⟩

@[simp]
theorem leaves_withRole (r : Role) (t : Tree) : (t.withRole r).leaves = t.leaves := by
  obtain _ | ⟨k, r', p, _ | ⟨t, ts⟩⟩ := t <;> rfl

theorem leavesAmong_map_withRole (r : Role) (ts : List Tree) :
    leavesAmong (ts.map (withRole r)) = leavesAmong ts := by
  induction ts with
  | nil => rfl
  | cons t ts ih => rw [List.map_cons, leavesAmong, ih, leaves_withRole, leavesAmong]

/-- `t.Snug`: every node of the tree reaches from its first leaf to its last. -/
def Snug (t : Tree) : Prop :=
  ∀ u ∈ t.nodes, u.span.Hulls u.leaves

theorem snug_word (text : String) (p : Span) : (word text p).Snug :=
  fun _ mem => by cases mem

theorem snug_node {k : Kind} {r : Option Role} {p : Span} {ts : List Tree} :
    (node k r p ts).Snug ↔ p.Hulls (node k r p ts).leaves ∧ ∀ u ∈ ts, u.Snug := by
  exact forall_nodes_node

theorem snug_leaf (k : Kind) (r : Option Role) (p : Span) : (node k r p []).Snug :=
  snug_node.mpr ⟨hulls_singleton p, nofun⟩

theorem Snug.hulls {t : Tree} (snug : t.Snug) : t.span.Hulls t.leaves := by
  cases t with
  | word text p => exact hulls_singleton p
  | node k r p ts => exact (snug_node.mp snug).1

theorem Snug.withRole {t : Tree} (snug : t.Snug) (r : Role) : (t.withRole r).Snug := by
  cases t with
  | word => exact snug
  | node k r' p ts =>
      obtain ⟨hull, parts⟩ := snug_node.mp snug
      refine snug_node.mpr ⟨?_, parts⟩
      rwa [← leaves_withRole r] at hull

theorem Snug.of_mem_nodes {t u : Tree} (snug : t.Snug) (mem : u ∈ t.nodes) : u.Snug :=
  fun _ inner => snug _ (mem_nodes_trans mem inner)

/-- A node around trees, which are given the last first, reaches over all of
them. -/
theorem snug_around (k : Kind) {ts : List Tree} (some : ts ≠ []) (snug : ∀ t ∈ ts, t.Snug) :
    (around k ts).Snug := by
  refine snug_node.mpr ⟨?_, fun u mem => snug u (List.mem_reverse.mp mem)⟩
  rw [← around, leaves_around k some]
  constructor
  · obtain rfl | ⟨ts, t, rfl⟩ := List.eq_nil_or_concat' ts
    · exact absurd rfl some
    · rw [List.reverse_concat, leavesAmong, List.getLast?_concat]
      exact (snug t (by simp)).hulls.start_append _
  · obtain _ | ⟨t, ts⟩ := ts
    · exact absurd rfl some
    · rw [List.reverse_cons, leavesAmong_append, leavesAmong_singleton]
      exact (snug t List.mem_cons_self).hulls.append_stop _

/-- The leaves of a node of a tree are leaves of the tree, in a row. -/
theorem leaves_infix {t u : Tree} (mem : u ∈ t.nodes) : u.leaves <:+: t.leaves := by
  induction t using inductionOn with
  | word => cases mem
  | node k r p ts ih =>
      obtain rfl | ⟨v, part, mem⟩ := mem_nodes_node.mp mem
      · exact List.infix_rfl
      · rw [leaves_node (List.ne_nil_of_mem part)]
        exact (ih v part mem).trans (leaves_infix_leavesAmong part)

/-- A node of a tree lies in the range of the tree. -/
theorem Snug.within {t u : Tree} (snug : t.Snug) (ordered : Ordered t.leaves) (mem : u ∈ t.nodes) :
    t.span.start ≤ u.span.start ∧ u.span.stop ≤ t.span.stop := by
  have row := leaves_infix mem
  have inner := (snug.of_mem_nodes mem).hulls
  obtain ⟨p, first, start⟩ := inner.first_mem
  obtain ⟨q, last, stop⟩ := inner.last_mem
  rw [← start, ← stop]
  exact ⟨snug.hulls.start_le ordered p (row.subset first),
    snug.hulls.le_stop ordered q (row.subset last)⟩

/-- A leaf of a node in which something stands is in the range of one of its
parts, and a leaf of that. -/
theorem Snug.exists_part {t : Tree} (snug : t.Snug) (ordered : Ordered t.leaves)
    (some : t.children ≠ []) {p : Span} (leaf : p ∈ t.leaves) :
    ∃ u ∈ t.children, p ∈ u.leaves ∧ u.span.start ≤ p.start ∧ p.stop ≤ u.span.stop := by
  cases t with
  | word => exact absurd rfl some
  | node k r q ts =>
      rw [leaves_node (show ts ≠ [] from some)] at ordered leaf
      obtain ⟨u, part, leaf⟩ := mem_leavesAmong.mp leaf
      have hull := ((snug_node.mp snug).2 u part).hulls
      have ordered := ordered.of_infix (leaves_infix_leavesAmong part)
      exact ⟨u, part, leaf, hull.start_le ordered p leaf, hull.le_stop ordered p leaf⟩

/-! ## Marks -/

section Marks

variable {marks : Kind → Option (Token → Bool)} {tokens : List Token}

/-- `t.Marked marks tokens`: every node of a kind that only marks tokens is one of
the tokens that its kind may mark, and nothing else. -/
def Marked (marks : Kind → Option (Token → Bool)) (tokens : List Token) (t : Tree) : Prop :=
  ∀ u ∈ t.nodes, ∀ k ∈ u.kind?, ∀ q ∈ marks k,
    u.children = [] ∧ ∃ w ∈ tokens, q w = true ∧ u.span = w.span

theorem marked_word (text : String) (p : Span) : (word text p).Marked marks tokens :=
  fun _ mem => by cases mem

theorem marked_node {k : Kind} {r : Option Role} {p : Span} {ts : List Tree} :
    (node k r p ts).Marked marks tokens ↔
      (∀ q ∈ marks k, ts = [] ∧ ∃ w ∈ tokens, q w = true ∧ p = w.span) ∧
        ∀ u ∈ ts, u.Marked marks tokens := by
  refine forall_nodes_node.trans (and_congr_left fun _ => ⟨fun own => own k rfl, ?_⟩)
  rintro own l ⟨⟩
  exact own

theorem marked_around {k : Kind} {ts : List Tree} (unmarked : marks k = none)
    (marked : ∀ t ∈ ts, t.Marked marks tokens) : (around k ts).Marked marks tokens :=
  marked_node.mpr ⟨by simp [unmarked], fun u mem => marked u (List.mem_reverse.mp mem)⟩

theorem Marked.withRole {t : Tree} (marked : t.Marked marks tokens) (r : Role) :
    (t.withRole r).Marked marks tokens := by
  cases t with
  | word => exact marked
  | node => exact marked_node.mpr (marked_node.mp marked)

end Marks

/-! ## Comments -/

section Comments

variable {c : Span}

/-- A comment that shares no byte with a leaf does not go into one. -/
theorem Meets.children_ne_nil {t : Tree} (meets : t.Meets c)
    (apart : ∀ p ∈ t.leaves, p.Disjoint c) : t.children ≠ [] :=
  fun alone => (apart _ (span_mem_leaves alone)).elim meets.2 meets.1

theorem insertAmong_ne_nil (c : Span) (ts : List Tree) : insertAmong c ts ≠ [] := by
  cases ts with
  | nil => exact List.cons_ne_nil _ _
  | cons t ts =>
      rw [insertAmong]
      split
      · exact List.cons_ne_nil _ _
      · split <;> exact List.cons_ne_nil _ _

/-- A comment has its place among the leaves of trees in a row if it has it among
those of the tree that it goes into. -/
theorem placed_insertAmong {ts : List Tree}
    (inner : ∀ t ∈ ts, t.Meets c → Placed c t.leaves (t.insert c).leaves)
    (snug : ∀ t ∈ ts, t.Snug) (ordered : Ordered (leavesAmong ts))
    (apart : ∀ p ∈ leavesAmong ts, p.Disjoint c) :
    Placed c (leavesAmong ts) (leavesAmong (insertAmong c ts)) := by
  induction ts with
  | nil => exact placed_first nofun
  | cons t ts ih =>
      obtain ⟨own, others⟩ := List.forall_mem_cons.mp snug
      have ordered' := ordered.of_append_left
      have behind : ∀ q, c.Before q → q ∈ t.leaves → ∀ p ∈ leavesAmong ts, c.Before p := by
        intro q before mem p mem'
        have some := ordered.some q (List.mem_append_left _ mem)
        have next : q.stop ≤ p.start := ordered.before q mem p mem'
        exact Nat.le_trans before (by omega)
      rw [insertAmong]
      split
      case isTrue low =>
        have first : ∀ p ∈ t.leaves, c.Before p := fun p mem =>
          Nat.le_trans low (own.hulls.start_le ordered' p mem)
        obtain ⟨q, mem, -⟩ := own.hulls.first_mem
        rw [leavesAmong, leavesAmong]
        exact placed_first (List.forall_mem_append.mpr ⟨first, behind q (first q mem) mem⟩)
      case isFalse low =>
        split
        case isTrue high =>
          rw [leavesAmong, leavesAmong]
          have placed : Placed c (leavesAmong ts) (leavesAmong (insertAmong c ts)) :=
            ih (fun u mem => inner u (List.mem_cons_of_mem _ mem)) others
              ordered.of_append_right fun p mem => apart p (List.mem_append_right _ mem)
          exact placed.append_left fun p mem =>
            Nat.le_trans (own.hulls.le_stop ordered' p mem) high
        case isFalse high =>
          rw [leavesAmong, leavesAmong]
          refine (inner t List.mem_cons_self ⟨low, high⟩).append_right ?_
          obtain ⟨q, mem, stop⟩ := own.hulls.last_mem
          refine behind q ?_ mem
          exact (apart q (List.mem_append_left _ mem)).resolve_left
            fun before => high (stop ▸ before)

/-- **A comment is put between two leaves** of the node that it goes into, and
that still reaches from its first leaf to its last. -/
theorem insert_snug {t : Tree} (snug : t.Snug) (ordered : Ordered t.leaves)
    (apart : ∀ p ∈ t.leaves, p.Disjoint c) (meets : t.Meets c) :
    (t.insert c).Snug ∧ Placed c t.leaves (t.insert c).leaves := by
  induction t using inductionOn with
  | word => exact absurd rfl (meets.children_ne_nil apart)
  | node k r p ts ih =>
      have some : ts ≠ [] := meets.children_ne_nil apart
      obtain ⟨hull, parts⟩ := snug_node.mp snug
      rw [leaves_node some] at hull ordered apart
      have inner : ∀ t ∈ ts, t.Meets c →
          (t.insert c).Snug ∧ Placed c t.leaves (t.insert c).leaves := by
        intro t mem meets
        exact ih t mem (parts t mem) (ordered.of_infix (leaves_infix_leavesAmong mem))
          (fun p leaf => apart p (mem_leavesAmong.mpr ⟨t, mem, leaf⟩)) meets
      have placed :=
        placed_insertAmong (fun t mem meets => (inner t mem meets).2) parts ordered apart
      rw [insert, snug_node, leaves_node some, leaves_node (insertAmong_ne_nil c ts)]
      refine ⟨⟨placed.hulls hull meets.1 meets.2, fun u mem => ?_⟩, placed⟩
      obtain rfl | mem | ⟨t, part, meets, rfl⟩ := mem_insertAmong mem
      · exact snug_leaf _ _ _
      · exact parts u mem
      · exact (inner t part meets).1

variable {marks : Kind → Option (Token → Bool)} {tokens : List Token}
  (free : marks .comment = none)
include free

theorem marked_ofComment (c : Span) : (ofComment c).Marked marks tokens :=
  marked_node.mpr ⟨by simp [free], nofun⟩

/-- A comment does not go into a node that is a single token. -/
theorem marked_insert {t : Tree} (marked : t.Marked marks tokens)
    (apart : ∀ p ∈ t.leaves, p.Disjoint c) (meets : t.Meets c) :
    (t.insert c).Marked marks tokens := by
  induction t using inductionOn with
  | word => exact marked
  | node k r p ts ih =>
      have some : ts ≠ [] := meets.children_ne_nil apart
      obtain ⟨own, parts⟩ := marked_node.mp marked
      rw [leaves_node some] at apart
      refine marked_node.mpr ⟨fun q mark => absurd (own q mark).1 some, fun u mem => ?_⟩
      obtain rfl | mem | ⟨t, part, meets, rfl⟩ := mem_insertAmong mem
      · exact marked_ofComment free c
      · exact parts u mem
      · exact ih t part (parts t part)
          (fun p leaf => apart p (mem_leavesAmong.mpr ⟨t, part, leaf⟩)) meets

end Comments

/-! ## Rows -/

/-- Trees in a row that have just the leaves `ls`, and whose nodes are as they
should be. -/
structure Covers (marks : Kind → Option (Token → Bool)) (tokens : List Token) (ts : List Tree)
    (ls : List Span) : Prop where
  snug : ∀ t ∈ ts, t.Snug
  marked : ∀ t ∈ ts, t.Marked marks tokens
  ordered : Ordered (leavesAmong ts)
  leaves : (leavesAmong ts).Perm ls

namespace Covers

variable {marks : Kind → Option (Token → Bool)} {tokens : List Token} {ts : List Tree}
  {ls : List Span} {c : Span}

theorem insertAmong (free : marks .comment = none) (covers : Covers marks tokens ts ls)
    (apart : ∀ p ∈ ls, p.Disjoint c) (some : c.start < c.stop) :
    Covers marks tokens (insertAmong c ts) (c :: ls) := by
  have apart : ∀ p ∈ leavesAmong ts, p.Disjoint c := fun p mem =>
    apart p (covers.leaves.mem_iff.mp mem)
  have inner : ∀ t ∈ ts, t.Meets c → (t.insert c).Snug ∧ Placed c t.leaves (t.insert c).leaves :=
    fun t mem => insert_snug (covers.snug t mem)
      (covers.ordered.of_infix (leaves_infix_leavesAmong mem))
      fun p leaf => apart p (mem_leavesAmong.mpr ⟨t, mem, leaf⟩)
  have placed := placed_insertAmong (fun t mem meets => (inner t mem meets).2) covers.snug
    covers.ordered apart
  refine ⟨fun u mem => ?_, fun u mem => ?_, placed.ordered covers.ordered some,
    placed.perm.trans (covers.leaves.cons c)⟩
  · obtain rfl | mem | ⟨t, part, meets, rfl⟩ := mem_insertAmong mem
    · exact snug_leaf _ _ _
    · exact covers.snug u mem
    · exact (inner t part meets).1
  · obtain rfl | mem | ⟨t, part, meets, rfl⟩ := mem_insertAmong mem
    · exact marked_ofComment free c
    · exact covers.marked u mem
    · exact marked_insert free (covers.marked t part)
        (fun p leaf => apart p (mem_leavesAmong.mpr ⟨t, part, leaf⟩)) meets

/-- With all comments put where they stand, the leaves of a node's parts are what
they were and the comments. -/
theorem foldl_insert (free : marks .comment = none) (k : Kind) (r : Option Role) (p : Span)
    {comments : List Span} (covers : Covers marks tokens ts ls)
    (apart : (ls ++ comments).Pairwise Span.Disjoint) (some : ∀ c ∈ comments, c.start < c.stop) :
    ∃ us, comments.foldl (fun t c => t.insert c) (node k r p ts) = node k r p us ∧
      Covers marks tokens us (ls ++ comments) := by
  induction comments generalizing ts ls with
  | nil => exact ⟨ts, rfl, by rwa [List.append_nil]⟩
  | cons c comments ih =>
      obtain ⟨here, others⟩ := List.forall_mem_cons.mp some
      have moved : (ls ++ c :: comments).Perm ((c :: ls) ++ comments) := List.perm_middle
      have before : ∀ p ∈ ls, p.Disjoint c := fun p mem =>
        (List.pairwise_append.mp apart).2.2 p mem c List.mem_cons_self
      obtain ⟨us, whole, covers⟩ := ih (covers.insertAmong free before here)
        ((moved.pairwise_iff fun sides => sides.symm).mp apart) others
      exact ⟨us, whole, covers.snug, covers.marked, covers.ordered, covers.leaves.trans moved.symm⟩

end Covers

end Tree

end Syntax

end AndroidLint
