/-
Closing — nodes that end in a word or symbol as written.

A name between backquotes may lack the second one where the text ends, and then
its token reaches beyond the text.  No other token does (`stop_le_of_mem_lex`).
So a node that always ends in a bracket ends within the text, and that it does
can be computed from the grammar: the last thing its form takes is a word or a
symbol (`closes`), or something of which that is taken for granted.
-/
import AndroidLint.Proofs.Syntax.Layout
import AndroidLint.Proofs.Syntax.Reading
import AndroidLint.Proofs.Syntax.Tree

namespace AndroidLint

namespace Syntax

/-- Whether a token is a word or a symbol. -/
def Token.isPlain (t : Token) : Bool :=
  t.cls == .word || t.cls == .symbol

theorem Token.isPlain_of_isWord {t : Token} {text : String} (fits : t.isWord text = true) :
    t.isPlain = true :=
  ((Bool.and_eq_true _ _).mp fits).1

theorem Token.cls_ne_of_isPlain {t : Token} (plain : t.isPlain = true) : t.cls ≠ .quotedName := by
  intro quoted
  rw [isPlain, quoted] at plain
  cases plain

namespace Tree

/-- `t.Closes closed tokens`: every node of the tree whose kind is a closed one ends
where a word or a symbol among the tokens does. -/
def Closes (closed : Kind → Bool) (tokens : List Token) (t : Tree) : Prop :=
  ∀ u ∈ t.nodes, ∀ k ∈ u.kind?, closed k = true →
    ∃ w ∈ tokens, w.isPlain = true ∧ u.span.stop = w.span.stop

variable {closed : Kind → Bool} {tokens : List Token}

theorem closes_word (text : String) (p : Span) : (word text p).Closes closed tokens :=
  fun _ mem => by cases mem

theorem closes_node {k : Kind} {r : Option Role} {p : Span} {ts : List Tree} :
    (node k r p ts).Closes closed tokens ↔
      (closed k = true → ∃ w ∈ tokens, w.isPlain = true ∧ p.stop = w.span.stop) ∧
        ∀ u ∈ ts, u.Closes closed tokens := by
  refine forall_nodes_node.trans (and_congr_left fun _ => ⟨fun own => own k rfl, ?_⟩)
  rintro own l ⟨⟩
  exact own

theorem closes_withRole {r : Role} {t : Tree} (closes : t.Closes closed tokens) :
    (t.withRole r).Closes closed tokens := by
  cases t with
  | word => exact closes
  | node => exact closes_node.mpr (closes_node.mp closes)

theorem stop_withRole (r : Role) (t : Tree) : (t.withRole r).span.stop = t.span.stop := by
  cases t <;> rfl

end Tree

namespace Form

variable {ρ : Type}

section Computed

variable (sound : ρ → Bool)

mutual

/-- Whether the last token that a form takes is always a word or symbol as written,
if that is so for the rules that `sound` names. -/
def closes : Form ρ → Bool
  | .word _ => true
  | .bare _ | .leaf .. | .ahead _ | .many _ => false
  | .rule r => sound r
  | .all fs => lastCloses fs
  | .any fs => allClose fs
  | .node _ f | .part _ f | .group f | .around _ _ f => f.closes

/-- Whether it is so for the last of some forms. -/
def lastCloses : List (Form ρ) → Bool
  | [] => false
  | f :: fs => if fs.isEmpty then f.closes else lastCloses fs

/-- Whether it is so for each of some forms. -/
def allClose : List (Form ρ) → Bool
  | [] => true
  | f :: fs => f.closes && allClose fs

end

variable (closed : Kind → Bool)

mutual

/-- Whether every node of a closed kind that a form makes is put around a form that
closes. -/
def isClosing : Form ρ → Bool
  | .word _ | .bare _ | .ahead _ | .rule _ => true
  | .leaf k _ => !closed k
  | .all fs | .any fs => areClosing fs
  | .many f | .part _ f | .group f => f.isClosing
  | .node k f | .around k _ f => (!closed k || f.closes sound) && f.isClosing

/-- Whether each of some forms is so. -/
def areClosing : List (Form ρ) → Bool
  | [] => true
  | f :: fs => f.isClosing && areClosing fs

end

end Computed

section Promises

open AndroidLint.Syntax.Tree

variable {g : ρ → Form ρ} {f : Form ρ} {done made : List Tree} {ts : List Token}
  {sound : ρ → Bool} (closing : ∀ r, sound r = true → (g r).closes sound = true)
include closing

/-- A form that closes takes a word or a symbol, and the last tree that it leaves
ends there. -/
theorem Reads.exists_close (reads : f.Reads g done ts made) (closes : f.closes sound = true) :
    ∃ w ∈ ts, w.isPlain = true ∧ ∃ u ∈ made.head?, u.span.stop = w.span.stop := by
  induction reads with
  | @word _ _ t fits =>
      exact ⟨t, List.mem_singleton_self t, Token.isPlain_of_isWord fits, _, rfl, rfl⟩
  | bare | leaf | ahead | last | stop | again => cases closes
  | rule _ ih => exact ih (closing _ closes)
  | @next f fs _ _ _ ts us _ others ih ih' =>
      rw [Form.closes, lastCloses] at closes
      split at closes
      case isTrue none =>
        obtain rfl := List.isEmpty_iff.mp none
        cases others
        rw [List.append_nil]
        exact ih closes
      case isFalse =>
        obtain ⟨w, mem, plain, ends⟩ := ih' closes
        exact ⟨w, List.mem_append_right _ mem, plain, ends⟩
  | taken _ ih =>
      rw [Form.closes, allClose, Bool.and_eq_true] at closes
      exact ih closes.1
  | passed _ ih =>
      rw [Form.closes, allClose, Bool.and_eq_true] at closes
      exact ih closes.2
  | node _ ih | around _ ih | aroundPart _ ih =>
      obtain ⟨w, mem, plain, u, last, ends⟩ := ih closes
      refine ⟨w, mem, plain, _, rfl, ?_⟩
      rw [Tree.around, Tree.span, Option.mem_def.mp last]
      exact ends
  | @part r _ _ _ _ _ ih =>
      obtain ⟨w, mem, plain, u, last, ends⟩ := ih closes
      refine ⟨w, mem, plain, u.withRole r, ?_, (stop_withRole r u).trans ends⟩
      rw [List.head?_append, List.head?_map, Option.mem_def.mp last]
      rfl
  | group _ ih =>
      obtain ⟨w, mem, plain, u, last, ends⟩ := ih closes
      refine ⟨w, mem, plain, u, ?_, ends⟩
      rw [List.head?_append, Option.mem_def.mp last]
      rfl

variable {closed : Kind → Bool} {tokens : List Token}

/-- A node around a form that closes, if its kind has to. -/
theorem Reads.closes_around (body : f.Reads g done ts made) {k : Kind}
    (checked : (!closed k || f.closes sound) = true) (of : ∀ t ∈ ts, t ∈ tokens)
    (parts : ∀ u ∈ made, u.Closes closed tokens) : (Tree.around k made).Closes closed tokens := by
  refine closes_node.mpr ⟨fun kind => ?_, fun u mem => parts u (List.mem_reverse.mp mem)⟩
  rw [kind, Bool.not_true, Bool.false_or] at checked
  obtain ⟨w, mem, plain, u, last, ends⟩ := body.exists_close closing checked
  refine ⟨w, of w mem, plain, ?_⟩
  rw [Option.mem_def.mp last]
  exact ends

/-- In a grammar whose rules are computed to be closing, every form makes trees whose
closed nodes end in words or symbols. -/
theorem Reads.closes_of_mem (all : ∀ r, (g r).isClosing sound closed = true)
    (reads : f.Reads g done ts made) (checked : f.isClosing sound closed = true)
    (of : ∀ t ∈ ts, t ∈ tokens) (still : ∀ u ∈ done, u.Closes closed tokens) :
    ∀ u ∈ made, u.Closes closed tokens := by
  induction reads with
  | word | bare => exact List.forall_mem_cons.mpr ⟨closes_word _ _, still⟩
  | leaf =>
      rw [isClosing, Bool.not_eq_true'] at checked
      refine List.forall_mem_cons.mpr ⟨closes_node.mpr ⟨fun kind => ?_, nofun⟩, still⟩
      rw [checked] at kind
      cases kind
  | ahead | last | stop => exact still
  | rule _ ih => exact ih (all _) of still
  | next _ _ ih ih' =>
      rw [isClosing, areClosing, Bool.and_eq_true] at checked
      obtain ⟨first, others⟩ := List.forall_mem_append.mp of
      exact ih' checked.2 others (ih checked.1 first still)
  | taken _ ih =>
      rw [isClosing, areClosing, Bool.and_eq_true] at checked
      exact ih checked.1 of still
  | passed _ ih =>
      rw [isClosing, areClosing, Bool.and_eq_true] at checked
      exact ih checked.2 of still
  | again _ _ ih ih' =>
      obtain ⟨first, others⟩ := List.forall_mem_append.mp of
      exact ih' checked others (ih checked first still)
  | node body ih =>
      rw [isClosing, Bool.and_eq_true] at checked
      exact List.forall_mem_cons.mpr
        ⟨body.closes_around closing checked.1 of (ih checked.2 of nofun), still⟩
  | part _ ih =>
      refine List.forall_mem_append.mpr ⟨List.forall_mem_map.mpr fun u mem => ?_, still⟩
      exact closes_withRole (ih checked of nofun u mem)
  | group _ ih => exact List.forall_mem_append.mpr ⟨ih checked of nofun, still⟩
  | around body ih =>
      rw [isClosing, Bool.and_eq_true] at checked
      exact List.forall_mem_singleton.mpr
        (body.closes_around closing checked.1 of (ih checked.2 of still))
  | aroundPart body ih =>
      rw [isClosing, Bool.and_eq_true] at checked
      refine List.forall_mem_singleton.mpr
        (body.closes_around closing checked.1 of (ih checked.2 of ?_))
      exact List.forall_mem_map.mpr fun u mem => closes_withRole (still u mem)

end Promises

end Form

/-! ## Comments -/

namespace Tree

variable {closed : Kind → Bool} {tokens : List Token} (free : closed .comment = false)
include free

/-- Comments move no node. -/
theorem closes_foldl_insert {t : Tree} (closes : t.Closes closed tokens) (comments : List Span) :
    (comments.foldl (fun t c => t.insert c) t).Closes closed tokens := by
  refine forall_nodes_foldl_insert ?_ (fun _ _ _ _ _ => id) closes comments
  rintro c l ⟨⟩ isClosed
  rw [free] at isClosed
  cases isClosed

end Tree

/-- **Nodes that close lie within the text.**  Let the computations come out right
for all rules: those that are taken for granted close, and every node of a closed
kind is put around a form that does.  Then such a node of a text's tree does not
reach beyond the text. -/
theorem Grammar.stop_le_of_parse? {g : Grammar} (symbolic : g.spelling.IsSymbolic)
    (sound : g.Rule → Bool) (closing : ∀ r, sound r = true → (g.form r).closes sound = true)
    {closed : Kind → Bool} (all : ∀ r, (g.form r).isClosing sound closed = true)
    (free : closed .comment = false) {text : List Char} {t : Tree}
    (parsed : g.parse? text = some t) :
    ∀ u ∈ t.nodes, ∀ k ∈ u.kind?, closed k = true → u.span.stop ≤ Text.byteCount text := by
  obtain ⟨t', reads, rfl⟩ := Grammar.exists_reads_of_parse? parsed
  have closes := reads.closes_of_mem closing all rfl (fun _ => id) nofun t'
    (List.mem_singleton_self t')
  intro u mem k kind isClosed
  obtain ⟨w, token, plain, ends⟩ :=
    Tree.closes_foldl_insert free closes _ u mem k kind isClosed
  rw [ends]
  exact stop_le_of_mem_lex symbolic text w token (Token.cls_ne_of_isPlain plain)

end Syntax

end AndroidLint
