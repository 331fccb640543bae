/-
Coverage — a text's tree covers the text.

Every token that is read becomes a leaf, in order (`Form.Reads.leaves_eq`), and a comment is put
between leaves.  So the leaves of a text's tree are its tokens and its comments,
and each node reaches from its first leaf to its last (`Grammar.covers_of_parse?`).

This would fail for a node that is put around nothing: it would be a leaf itself,
at no place.  That no rule makes one can be computed (`isSolid`), the rule for a
whole file apart: the text may be empty, and no rule refers to that one.
-/
import AndroidLint.Proofs.Syntax.Leaves
import AndroidLint.Proofs.Syntax.Reading

namespace AndroidLint

namespace Syntax

namespace Form

variable {ρ : Type}

section Computed

variable (sound : ρ → Bool)

mutual

/-- Whether a form always takes a token, if the rules that `sound` names do. -/
def takesToken : Form ρ → Bool
  | .word _ | .bare _ | .leaf .. => true
  | .ahead _ | .many _ => false
  | .rule r => sound r
  | .all fs => someTakes fs
  | .any fs => allTake fs
  | .node _ f | .part _ f | .group f | .around _ _ f => f.takesToken

/-- Whether one of some forms always takes a token. -/
def someTakes : List (Form ρ) → Bool
  | [] => false
  | f :: fs => f.takesToken || someTakes fs

/-- Whether each of some forms always takes a token. -/
def allTake : List (Form ρ) → Bool
  | [] => true
  | f :: fs => f.takesToken && allTake fs

end

mutual

/-- Whether every node that a form makes is put around a token, if the form
refers to no other rules than `sound` names. -/
def isSolid : Form ρ → Bool
  | .word _ | .bare _ | .leaf .. | .ahead _ => true
  | .rule r => sound r
  | .all fs | .any fs => areSolid fs
  | .many f | .part _ f | .group f => f.isSolid
  | .node _ f | .around _ _ f => f.takesToken sound && f.isSolid

/-- Whether each of some forms is so. -/
def areSolid : List (Form ρ) → Bool
  | [] => true
  | f :: fs => f.isSolid && areSolid fs

end

end Computed

section Marks

variable (marks : Kind → Option (Token → Bool))

mutual

/-- `f.Keeps marks`: of the kinds that only mark tokens, the form makes nodes of
such tokens, and no others. -/
def Keeps : Form ρ → Prop
  | .word _ | .bare _ | .ahead _ | .rule _ => True
  | .leaf k p => ∀ q ∈ marks k, ∀ t, p t = true → q t = true
  | .all fs | .any fs => AllKeep fs
  | .many f | .part _ f | .group f => f.Keeps
  | .node k f | .around k _ f => marks k = none ∧ f.Keeps

/-- Each of some forms does. -/
def AllKeep : List (Form ρ) → Prop
  | [] => True
  | f :: fs => f.Keeps ∧ AllKeep fs

end

end Marks

section Promises

open AndroidLint.Syntax.Tree

variable {g : ρ → Form ρ} {f : Form ρ} {done made : List Tree} {ts : List Token}

section Solid

variable {sound : ρ → Bool}
  (solid : ∀ r, sound r = true → (g r).takesToken sound = true ∧ (g r).isSolid sound = true)
include solid

/-- A form that is computed to take a token takes one. -/
theorem Reads.ne_nil (reads : f.Reads g done ts made) (takes : f.takesToken sound = true) :
    ts ≠ [] := by
  induction reads with
  | word | bare | leaf => exact List.cons_ne_nil _ _
  | ahead | last | stop => cases takes
  | again => cases takes
  | rule _ ih => exact ih (solid _ takes).1
  | next _ _ ih ih' =>
      rw [takesToken, someTakes, Bool.or_eq_true] at takes
      rw [ne_eq, List.append_eq_nil_iff, not_and_or]
      exact takes.imp ih ih'
  | taken _ ih =>
      rw [takesToken, allTake, Bool.and_eq_true] at takes
      exact ih takes.1
  | passed _ ih =>
      rw [takesToken, allTake, Bool.and_eq_true] at takes
      exact ih takes.2
  | node _ ih | part _ ih | group _ ih | around _ ih | aroundPart _ ih => exact ih takes

/-- **What a form takes becomes leaves**, in order and behind those that are
there. -/
theorem Reads.leaves_eq (reads : f.Reads g done ts made) (isSolid : f.isSolid sound = true) :
    leavesAmong made.reverse = leavesAmong done.reverse ++ ts.map Token.span := by
  induction reads with
  | word | bare | leaf =>
      rw [List.reverse_cons, leavesAmong_append, leavesAmong_singleton]
      rfl
  | ahead | last | stop => exact (List.append_nil _).symm
  | rule _ ih => exact ih (solid _ isSolid).2
  | next _ _ ih ih' =>
      rw [Form.isSolid, areSolid, Bool.and_eq_true] at isSolid
      rw [ih' isSolid.2, ih isSolid.1, List.map_append, List.append_assoc]
  | again _ _ ih ih' => rw [ih' isSolid, ih isSolid, List.map_append, List.append_assoc]
  | taken _ ih =>
      rw [Form.isSolid, areSolid, Bool.and_eq_true] at isSolid
      exact ih isSolid.1
  | passed _ ih =>
      rw [Form.isSolid, areSolid, Bool.and_eq_true] at isSolid
      exact ih isSolid.2
  | part _ ih =>
      rw [List.reverse_append, leavesAmong_append, ← List.map_reverse, leavesAmong_map_withRole,
        ih isSolid]
      rfl
  | group _ ih =>
      rw [List.reverse_append, leavesAmong_append, ih isSolid]
      rfl
  | node body ih =>
      rw [Form.isSolid, Bool.and_eq_true] at isSolid
      have leaves := ih isSolid.2
      rw [List.reverse_cons, leavesAmong_append, leavesAmong_singleton,
        leaves_around _ (ne_nil_of_leaves leaves (body.ne_nil solid isSolid.1)), leaves]
      rfl
  | around body ih =>
      rw [Form.isSolid, Bool.and_eq_true] at isSolid
      have leaves := ih isSolid.2
      rw [List.reverse_singleton, leavesAmong_singleton,
        leaves_around _ (ne_nil_of_leaves leaves (body.ne_nil solid isSolid.1)), leaves]
  | aroundPart body ih =>
      rw [Form.isSolid, Bool.and_eq_true] at isSolid
      have leaves := ih isSolid.2
      rw [List.reverse_singleton, leavesAmong_singleton,
        leaves_around _ (ne_nil_of_leaves leaves (body.ne_nil solid isSolid.1)), leaves,
        ← List.map_reverse, leavesAmong_map_withRole]

theorem Reads.made_ne_nil (reads : f.Reads g done ts made) (isSolid : f.isSolid sound = true)
    (takes : f.takesToken sound = true) : made ≠ [] :=
  ne_nil_of_leaves (reads.leaves_eq solid isSolid) (reads.ne_nil solid takes)

/-- Every node that is made reaches from its first leaf to its last. -/
theorem Reads.snug (reads : f.Reads g done ts made) (isSolid : f.isSolid sound = true)
    (still : ∀ t ∈ done, t.Snug) : ∀ t ∈ made, t.Snug := by
  induction reads with
  | word | bare => exact List.forall_mem_cons.mpr ⟨snug_word _ _, still⟩
  | leaf => exact List.forall_mem_cons.mpr ⟨snug_leaf _ _ _, still⟩
  | ahead | last | stop => exact still
  | rule _ ih => exact ih (solid _ isSolid).2 still
  | next _ _ ih ih' =>
      rw [Form.isSolid, areSolid, Bool.and_eq_true] at isSolid
      exact ih' isSolid.2 (ih isSolid.1 still)
  | taken _ ih =>
      rw [Form.isSolid, areSolid, Bool.and_eq_true] at isSolid
      exact ih isSolid.1 still
  | passed _ ih =>
      rw [Form.isSolid, areSolid, Bool.and_eq_true] at isSolid
      exact ih isSolid.2 still
  | again _ _ ih ih' => exact ih' isSolid (ih isSolid still)
  | node body ih =>
      rw [Form.isSolid, Bool.and_eq_true] at isSolid
      exact List.forall_mem_cons.mpr
        ⟨snug_around _ (body.made_ne_nil solid isSolid.2 isSolid.1) (ih isSolid.2 nofun), still⟩
  | part _ ih =>
      refine List.forall_mem_append.mpr ⟨List.forall_mem_map.mpr fun u mem => ?_, still⟩
      exact (ih isSolid nofun u mem).withRole _
  | group _ ih => exact List.forall_mem_append.mpr ⟨ih isSolid nofun, still⟩
  | around body ih =>
      rw [Form.isSolid, Bool.and_eq_true] at isSolid
      exact List.forall_mem_singleton.mpr
        (snug_around _ (body.made_ne_nil solid isSolid.2 isSolid.1) (ih isSolid.2 still))
  | aroundPart body ih =>
      rw [Form.isSolid, Bool.and_eq_true] at isSolid
      refine List.forall_mem_singleton.mpr
        (snug_around _ (body.made_ne_nil solid isSolid.2 isSolid.1) (ih isSolid.2 ?_))
      exact List.forall_mem_map.mpr fun u mem => (still u mem).withRole _

end Solid

/-- Of the kinds that only mark tokens, all nodes that are made are such tokens. -/
theorem Reads.marked {marks : Kind → Option (Token → Bool)} {tokens : List Token}
    (keeping : ∀ r, (g r).Keeps marks) (reads : f.Reads g done ts made) (keeps : f.Keeps marks)
    (of : ∀ t ∈ ts, t ∈ tokens) (still : ∀ t ∈ done, t.Marked marks tokens) :
    ∀ t ∈ made, t.Marked marks tokens := by
  induction reads with
  | word | bare => exact List.forall_mem_cons.mpr ⟨marked_word _ _, still⟩
  | @leaf k p done t fits =>
      refine List.forall_mem_cons.mpr ⟨marked_node.mpr ⟨fun q mark => ?_, nofun⟩, still⟩
      exact ⟨rfl, t, of t (List.mem_singleton_self t), keeps q mark t fits, rfl⟩
  | ahead | last | stop => exact still
  | rule _ ih => exact ih (keeping _) of still
  | next _ _ ih ih' =>
      rw [Keeps, AllKeep] at keeps
      obtain ⟨first, others⟩ := List.forall_mem_append.mp of
      exact ih' keeps.2 others (ih keeps.1 first still)
  | taken _ ih =>
      rw [Keeps, AllKeep] at keeps
      exact ih keeps.1 of still
  | passed _ ih =>
      rw [Keeps, AllKeep] at keeps
      exact ih keeps.2 of still
  | again _ _ ih ih' =>
      obtain ⟨first, others⟩ := List.forall_mem_append.mp of
      exact ih' keeps others (ih keeps first still)
  | node _ ih =>
      rw [Keeps] at keeps
      exact List.forall_mem_cons.mpr ⟨marked_around keeps.1 (ih keeps.2 of nofun), still⟩
  | part _ ih =>
      refine List.forall_mem_append.mpr ⟨List.forall_mem_map.mpr fun u mem => ?_, still⟩
      exact (ih keeps of nofun u mem).withRole _
  | group _ ih => exact List.forall_mem_append.mpr ⟨ih keeps of nofun, still⟩
  | around _ ih =>
      rw [Keeps] at keeps
      exact List.forall_mem_singleton.mpr (marked_around keeps.1 (ih keeps.2 of still))
  | aroundPart _ ih =>
      rw [Keeps] at keeps
      refine List.forall_mem_singleton.mpr (marked_around keeps.1 (ih keeps.2 of ?_))
      exact List.forall_mem_map.mpr fun u mem => (still u mem).withRole _

end Promises

end Form

/-- **A text's tree covers the text.**  Let every rule that others refer to be
computed to be solid, and the rule for a whole file be a node around such forms.
Then the leaves of that node are the tokens and comments of the text, in order. -/
theorem Grammar.covers_of_parse? {g : Grammar} {sound : g.Rule → Bool}
    {marks : Kind → Option (Token → Bool)} (symbolic : g.spelling.IsSymbolic)
    (solid : ∀ r, sound r = true →
      (g.form r).takesToken sound = true ∧ (g.form r).isSolid sound = true)
    (keeping : ∀ r, (g.form r).Keeps marks) (free : marks .comment = none) {k : Kind}
    {f : Form g.Rule} (whole : g.form g.start = .node k f) (isSolid : f.isSolid sound = true)
    {text : List Char} {t : Tree} (parsed : g.parse? text = some t) :
    t.kind? = some k ∧
      Tree.Covers marks (lex g.spelling text).tokens t.children (lex g.spelling text).spans := by
  obtain ⟨line, rest, extra, -, layout⟩ := layout_lex symbolic text
  obtain ⟨t', reads, rfl⟩ := Grammar.exists_reads_of_parse? parsed
  cases reads with
  | rule body =>
  have keeps := keeping g.start
  rw [whole] at body keeps
  cases body with
  | @node _ _ _ made _ body =>
  have leaves : Tree.leavesAmong made.reverse = (lex g.spelling text).tokens.map Token.span :=
    body.leaves_eq solid isSolid
  have spans := fun p mem => (layout.start_le p mem).2
  have covers : Tree.Covers marks (lex g.spelling text).tokens made.reverse
      ((lex g.spelling text).tokens.map Token.span) :=
    { snug := fun u mem => body.snug solid isSolid nofun u (List.mem_reverse.mp mem)
      marked := fun u mem =>
        body.marked keeping keeps.2 (fun _ => id) nofun u (List.mem_reverse.mp mem)
      ordered := by
        rw [leaves]
        exact ⟨layout.tokens_sorted, fun p mem => spans p (List.mem_append_left _ mem)⟩
      leaves := by rw [leaves] }
  obtain ⟨us, same, covers⟩ := covers.foldl_insert free k none _ layout.disjoint
    fun c mem => spans c (List.mem_append_right _ mem)
  rw [Tree.around, same]
  exact ⟨rfl, covers⟩

end Syntax

end AndroidLint
