/-
Parts — which kinds of nodes a grammar puts into a node.

From outside, a tree shows its role and its kind, its face.  Which faces a form
may add to its node can be computed from the grammar, if it is known of the
rules that it refers to; that these add no others is the same computation
again (`keepsTo`).  So a wish about the parts of a kind of nodes, that those in
some role or all of them are of certain kinds (`Wish`), can be checked against
all forms that make such a node.  A form that encloses what its node has so far
gives it a role, and a wish about another role is none about that.

Kinds of nodes that are wished to hold only each other never hold anything else,
however deep (`Grants.kinds_of_closed`).

A comment is a part of whatever node it is written in, and has no role.
-/
import AndroidLint.Proofs.Syntax.Grammar

namespace AndroidLint

namespace Syntax

/-- What a tree shows to the node it stands in: its role and its kind.  A word
has neither. -/
abbrev Face : Type :=
  Option Role × Option Kind

/-- The face of a tree. -/
def Tree.face (t : Tree) : Face :=
  (t.role?, t.kind?)

/-- A face in a role. -/
def Face.withRole (r : Role) (x : Face) : Face :=
  (x.2.map fun _ => r, x.2)

theorem Tree.face_withRole (r : Role) (t : Tree) : (t.withRole r).face = t.face.withRole r := by
  cases t <;> rfl

/-- What may be wished of the parts of a node: those in a role, or all of them if
no role is given, are of some kinds.  No kind stands for words. -/
structure Wish where
  role? : Option Role
  kinds : List (Option Kind)

namespace Wish

/-- Whether a face is as a wish has it. -/
def meets (w : Wish) (x : Face) : Bool :=
  (w.role?.any fun r => x.1 != some r) || w.kinds.contains x.2

/-- Whether everything that is put into a role is as a wish has it. -/
def spares (w : Wish) (r? : Option Role) : Bool :=
  w.role?.isSome && r?.isSome && r? != w.role?

/-- What is put into a role that a wish spares is as the wish has it. -/
theorem meets_of_spares {w : Wish} {r : Role} (spares : w.spares (some r) = true) (x : Face) :
    w.meets (x.withRole r) = true := by
  obtain ⟨_ | q, kinds⟩ := w
  · cases spares
  · obtain ⟨_, _ | k⟩ := x
    · rfl
    · have apart : r ≠ q := by simpa [Wish.spares] using spares
      simp [Wish.meets, Face.withRole, apart]

end Wish

namespace Tree

/-- `t.Grants wishes`: in every node of the tree the parts are as is wished for
its kind. -/
def Grants (wishes : Kind → Option Wish) (t : Tree) : Prop :=
  ∀ u ∈ t.nodes, ∀ k ∈ u.kind?, ∀ w ∈ wishes k, ∀ v ∈ u.children, w.meets v.face = true

variable {wishes : Kind → Option Wish}

theorem grants_word (text : String) (p : Span) : (word text p).Grants wishes :=
  fun _ mem => by cases mem

theorem grants_node {k : Kind} {r : Option Role} {p : Span} {ts : List Tree} :
    (node k r p ts).Grants wishes ↔
      (∀ w ∈ wishes k, ∀ v ∈ ts, w.meets v.face = true) ∧ ∀ u ∈ ts, u.Grants wishes := by
  refine forall_nodes_node.trans (and_congr_left fun _ => ⟨fun own => own k rfl, ?_⟩)
  rintro own l ⟨⟩
  exact own

theorem grants_withRole {r : Role} {t : Tree} (grants : t.Grants wishes) :
    (t.withRole r).Grants wishes := by
  cases t with
  | word => exact grants
  | node => exact grants_node.mpr (grants_node.mp grants)

theorem Grants.of_mem_nodes {t u : Tree} (grants : t.Grants wishes) (mem : u ∈ t.nodes) :
    u.Grants wishes :=
  fun v inner => grants v (mem_nodes_trans mem inner)

/-- Nodes of kinds that are wished to hold only each other hold nothing else. -/
theorem Grants.kinds_of_closed {kinds : List Kind}
    (closed : ∀ k ∈ kinds, ∃ w, wishes k = some w ∧ w.role? = none ∧
      ∀ l, some l ∈ w.kinds → l ∈ kinds)
    {t : Tree} (grants : t.Grants wishes) {k : Kind} (kind : t.kind? = some k)
    (among : k ∈ kinds) : ∀ v ∈ t.nodes, ∀ l, v.kind? = some l → l ∈ kinds := by
  induction t using inductionOn generalizing k with
  | word => cases kind
  | node k' r p ts ih =>
      obtain rfl : k' = k := Option.some.inj kind
      obtain ⟨⟨_, inner⟩, wish, rfl, sub⟩ := closed k' among
      obtain ⟨own, parts⟩ := grants_node.mp grants
      intro v mem l kind
      obtain rfl | ⟨u, hu, hv⟩ := mem_nodes_node.mp mem
      · exact Option.some.inj kind ▸ among
      · obtain _ | ⟨k, r, p, us⟩ := u
        · cases hv
        · have met := own _ wish _ hu
          have among := sub k (by simpa [Wish.meets, face, kind?] using met)
          exact ih _ hu (parts _ hu) rfl among v hv l
            kind

end Tree

namespace Form

variable {ρ : Type}

section Computed

variable (faces : ρ → Option (List Face))

mutual

/-- The faces that a form may add, as far as they are known: `faces` gives those
of some rules. -/
def adds? : Form ρ → Option (List Face)
  | .word _ | .bare _ => some [(none, none)]
  | .leaf k _ | .node k _ | .around k _ _ => some [(none, some k)]
  | .ahead _ => some []
  | .rule r => faces r
  | .all fs | .any fs => allAdd? fs
  | .many f | .group f => f.adds?
  | .part r f => f.adds?.map (·.map (Face.withRole r))

/-- The faces that some forms may add. -/
def allAdd? : List (Form ρ) → Option (List Face)
  | [] => some []
  | f :: fs => f.adds?.bind fun xs => (allAdd? fs).map (xs ++ ·)

end

/-- Whether a form adds no other faces than those given, if any are. -/
def keepsTo (f : Form ρ) (xs? : Option (List Face)) : Bool :=
  xs?.all fun xs => (f.adds? faces).any fun ys => ys.all xs.contains

variable (wishes : Kind → Option Wish)

mutual

/-- Whether every node that a form makes has its parts as is wished for its
kind. -/
def isGranting : Form ρ → Bool
  | .word _ | .bare _ | .leaf .. | .ahead _ | .rule _ => true
  | .all fs | .any fs => areGranting fs
  | .many f | .part _ f | .group f => f.isGranting
  | .node k f =>
      (wishes k).all (fun w => (f.adds? faces).any (·.all w.meets)) && f.isGranting
  | .around k r? f =>
      (wishes k).all (fun w => w.spares r? && (f.adds? faces).any (·.all w.meets))
        && f.isGranting

/-- Whether each of some forms is so. -/
def areGranting : List (Form ρ) → Bool
  | [] => true
  | f :: fs => f.isGranting && areGranting fs

end

end Computed

section Promises

variable {g : ρ → Form ρ} {f : Form ρ} {done made : List Tree} {ts : List Token}
  {faces : ρ → Option (List Face)}
  (adding : ∀ r, (g r).keepsTo faces (faces r) = true)
include adding

/-- What a form leaves stood there before, or has a face that the form is
computed to add. -/
theorem Reads.mem_or_mem_adds? (reads : f.Reads g done ts made) {xs : List Face}
    (known : f.adds? faces = some xs) : ∀ t ∈ made, t ∈ done ∨ t.face ∈ xs := by
  induction reads generalizing xs with
  | word | bare | leaf | node =>
      obtain rfl := Option.some.inj known
      exact fun t mem => (List.mem_cons.mp mem).elim (fun here => .inr (here ▸ .head _)) .inl
  | ahead | last | stop => exact fun _ => .inl
  | @rule r done made _ _ ih =>
      obtain ⟨ys, known', sub⟩ := Option.any_eq_true _ _ |>.mp
        ((Option.all_eq_true _ _).mp (adding r) xs known)
      intro t mem
      refine (ih known' t mem).imp_right fun added => ?_
      simpa using List.all_eq_true.mp sub _ added
  | next _ _ ih ih' =>
      obtain ⟨ys, first, mapped⟩ := Option.bind_eq_some_iff.mp known
      obtain ⟨zs, others, rfl⟩ := Option.map_eq_some_iff.mp mapped
      intro t mem
      obtain mem | added := ih' others t mem
      · exact (ih first t mem).imp_right (List.mem_append_left _)
      · exact .inr (List.mem_append_right _ added)
  | taken _ ih =>
      obtain ⟨ys, first, mapped⟩ := Option.bind_eq_some_iff.mp known
      obtain ⟨zs, -, rfl⟩ := Option.map_eq_some_iff.mp mapped
      exact fun t mem => (ih first t mem).imp_right (List.mem_append_left _)
  | passed _ ih =>
      obtain ⟨ys, -, mapped⟩ := Option.bind_eq_some_iff.mp known
      obtain ⟨zs, others, rfl⟩ := Option.map_eq_some_iff.mp mapped
      exact fun t mem => (ih others t mem).imp_right (List.mem_append_right _)
  | again _ _ ih ih' => exact fun t mem => (ih' known t mem).elim (ih known t) .inr
  | part _ ih =>
      obtain ⟨ys, inside, rfl⟩ := Option.map_eq_some_iff.mp known
      intro t mem
      obtain mem | mem := List.mem_append.mp mem
      · obtain ⟨u, inner, rfl⟩ := List.mem_map.mp mem
        obtain ⟨⟨⟩⟩ | added := ih inside u inner
        exact .inr (Tree.face_withRole _ u ▸ List.mem_map_of_mem added)
      · exact .inl mem
  | group _ ih =>
      intro t mem
      obtain mem | mem := List.mem_append.mp mem
      · obtain ⟨⟨⟩⟩ | added := ih known t mem
        exact .inr added
      · exact .inl mem
  | around | aroundPart =>
      obtain rfl := Option.some.inj known
      exact fun t mem => .inr (List.mem_singleton.mp mem ▸ .head _)

theorem Reads.meets_of_adds? (reads : f.Reads g done ts made) {w : Wish}
    (checked : (f.adds? faces).any (·.all w.meets) = true) {t : Tree} (mem : t ∈ made) :
    t ∈ done ∨ w.meets t.face = true := by
  obtain ⟨xs, known, met⟩ := (Option.any_eq_true _ _).mp checked
  exact (reads.mem_or_mem_adds? adding known t mem).imp_right (List.all_eq_true.mp met _)

variable {wishes : Kind → Option Wish}
  (granting : ∀ r, (g r).isGranting faces wishes = true)
include granting

/-- In a grammar whose rules are computed to be granting, every form makes trees
that grant the wishes. -/
theorem Reads.grants (reads : f.Reads g done ts made) (grants : f.isGranting faces wishes = true)
    (still : ∀ t ∈ done, t.Grants wishes) : ∀ t ∈ made, t.Grants wishes := by
  have none : ∀ t ∈ ([] : List Tree), t.Grants wishes := fun _ mem => by cases mem
  induction reads with
  | word | bare => exact List.forall_mem_cons.mpr ⟨Tree.grants_word _ _, still⟩
  | leaf =>
      exact List.forall_mem_cons.mpr
        ⟨Tree.grants_node.mpr ⟨fun _ _ _ mem => (nomatch mem), none⟩, still⟩
  | ahead | last | stop => exact still
  | rule _ ih => exact ih (granting _) still
  | next _ _ ih ih' =>
      rw [isGranting, areGranting, Bool.and_eq_true] at grants
      exact ih' grants.2 (ih grants.1 still)
  | taken _ ih =>
      rw [isGranting, areGranting, Bool.and_eq_true] at grants
      exact ih grants.1 still
  | passed _ ih =>
      rw [isGranting, areGranting, Bool.and_eq_true] at grants
      exact ih grants.2 still
  | again _ _ ih ih' => exact ih' grants (ih grants still)
  | node body ih =>
      rw [isGranting, Bool.and_eq_true] at grants
      refine List.forall_mem_cons.mpr
        ⟨Tree.grants_node.mpr ⟨fun w wish v mem => ?_, fun u mem => ?_⟩, still⟩
      · obtain ⟨⟨⟩⟩ | met := body.meets_of_adds? adding
          ((Option.all_eq_true _ _).mp grants.1 w wish) (List.mem_reverse.mp mem)
        exact met
      · exact ih grants.2 none u (List.mem_reverse.mp mem)
  | part _ ih =>
      refine List.forall_mem_append.mpr ⟨List.forall_mem_map.mpr fun u mem => ?_, still⟩
      exact Tree.grants_withRole (ih grants none u mem)
  | group _ ih => exact List.forall_mem_append.mpr ⟨ih grants none, still⟩
  | around body ih =>
      rw [isGranting, Bool.and_eq_true] at grants
      refine List.forall_mem_singleton.mpr
        (Tree.grants_node.mpr ⟨fun w wish v mem => ?_, fun u mem => ?_⟩)
      · have := (Option.all_eq_true _ _).mp grants.1 w wish
        simp [Wish.spares] at this
      · exact ih grants.2 still u (List.mem_reverse.mp mem)
  | @aroundPart k r f done made _ body ih =>
      rw [isGranting, Bool.and_eq_true] at grants
      refine List.forall_mem_singleton.mpr
        (Tree.grants_node.mpr ⟨fun w wish v mem => ?_, fun u mem => ?_⟩)
      · have checked := (Option.all_eq_true _ _).mp grants.1 w wish
        rw [Bool.and_eq_true] at checked
        obtain before | met := body.meets_of_adds? adding checked.2 (List.mem_reverse.mp mem)
        · obtain ⟨u, -, rfl⟩ := List.mem_map.mp before
          rw [Tree.face_withRole]
          exact Wish.meets_of_spares checked.1 _
        · exact met
      · refine ih grants.2 (List.forall_mem_map.mpr fun v before => ?_) u (List.mem_reverse.mp mem)
        exact Tree.grants_withRole (still v before)

end Promises

end Form

/-! ## Comments -/

namespace Tree

variable {wishes : Kind → Option Wish} {c : Span}

theorem face_insert (c : Span) (t : Tree) : (t.insert c).face = t.face := by
  cases t <;> rfl

variable (free : ∀ k, ∀ w ∈ wishes k, w.meets (none, some .comment) = true)
include free

theorem grants_foldl_insert {t : Tree} (grants : t.Grants wishes) (comments : List Span) :
    (comments.foldl (fun t c => t.insert c) t).Grants wishes := by
  refine forall_nodes_foldl_insert (fun c k _ w _ v none => by cases none) ?_ grants comments
  intro c k r p ts own l kind w wish v mem
  obtain rfl | still | ⟨u, part, -, rfl⟩ := mem_insertAmong mem
  · exact free l w wish
  · exact own l kind w wish v still
  · rw [face_insert]
    exact own l kind w wish u part

end Tree

/-- **What a grammar is computed to put into its nodes.**  Let the computations
come out right for all rules: none adds other faces than it is said to, and
each makes its nodes with the parts that are wished for their kinds.  Then that
is so for every node of a text's tree, if it is so for comments. -/
theorem Grammar.grants_of_parse? {g : Grammar} (faces : g.Rule → Option (List Face))
    {wishes : Kind → Option Wish} (adding : ∀ r, (g.form r).keepsTo faces (faces r) = true)
    (granting : ∀ r, (g.form r).isGranting faces wishes = true)
    (free : ∀ k, ∀ w ∈ wishes k, w.meets (none, some .comment) = true) {text : List Char}
    {t : Tree} (parsed : g.parse? text = some t) : t.Grants wishes := by
  obtain ⟨t', reads, rfl⟩ := Grammar.exists_reads_of_parse? parsed
  have grants := reads.grants adding granting rfl (fun _ mem => by cases mem) t'
    (List.mem_singleton_self t')
  exact Tree.grants_foldl_insert free grants _

end Syntax

end AndroidLint
