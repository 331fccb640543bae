/-
Modifiers — what makes a function one that overrides.

The test asks whether `override` is a word of the text of the modifiers.  That
text holds more than modifiers: annotations with their arguments, and comments.
So the test is passed just where `override` stands alone, between blanks, as a
modifier or anywhere within an annotation or a comment (`isOverride_read_iff`).
It is not passed by a modifier that touches a comment or an annotation.

That a word of the text stands in one of the parts at all is the work of the
lexer: what cuts a text never cuts between two small letters, so the word is not
put together of the ends of two tokens (`Layout.exists_span`).
-/
import AndroidLint.Proofs.Code.Methods
import AndroidLint.Proofs.Syntax.Coverage
import AndroidLint.Proofs.Text.Words
import AndroidLint.Rule.Boundary

namespace AndroidLint

namespace Syntax

namespace Kotlin

/-! ## What the grammar promises -/

theorem isSymbolic_spelling : spelling.IsSymbolic := by
  simp [Spelling.IsSymbolic, spelling]

/-- The rules that others refer to. -/
def isInner : Rule → Bool
  | .file => false
  | _ => true

/-- A modifier is a single word. -/
def marks : Kind → Option (Token → Bool)
  | .modifier => some (·.cls == .word)
  | _ => none

theorem isSolid_form (r : Rule) (inner : isInner r = true) :
    (form r).takesToken isInner = true ∧ (form r).isSolid isInner = true := by
  cases r with
  | file => cases inner
  | _ => exact ⟨rfl, rfl⟩

theorem keeps_form (r : Rule) : (form r).Keeps marks := by
  cases r <;>
    simp [form, Form.Keeps, Form.AllKeep, marks, Form.maybe, Form.oneOrMore, Form.separated,
      Form.oneOf, identifier, typeName, keyword, modified, annotations, modifier, typed, commaList,
      onward, glued, label, labelled, further, operation, extending, constrained, simpleType,
      withBody, withMembers, accessors, annotatedInfix]

theorem covers_of_parse? {text : List Char} {t : Tree} (parsed : grammar.parse? text = some t) :
    t.kind? = some .file ∧
      Tree.Covers marks (lex spelling text).tokens t.children (lex spelling text).spans :=
  Grammar.covers_of_parse? (g := grammar) isSymbolic_spelling isSolid_form keeps_form rfl rfl rfl
    parsed

/-- Rules that always make a node. -/
def makesNode : Rule → Bool
  | .annotationUse => true
  | _ => false

/-- Where there are modifiers there is one. -/
def demands : Kind → Demand
  | .modifiers => .node
  | _ => .nothing

theorem obeys_of_parse? {text : List Char} {t : Tree} (parsed : grammar.parse? text = some t) :
    t.Obeys demands := by
  refine Grammar.obeys_of_parse? makesNode ?_ ?_ ?_ rfl parsed
  · intro r maker
    cases r with
    | annotationUse => rfl
    | _ => cases maker
  · intro r
    cases r <;> rfl
  · intro r
    cases r <;> rfl

end Kotlin

end Syntax

namespace Code

open Syntax (Kind Layout Lexed Tree)
open Text (StandsAt byteCount)

/-! ## Words of a node -/

/-- `Shows o word t u`: in the text of the node `t` the word stands alone, within
the range of `u`. -/
def Shows (o : Origin) (word : String) (t u : Tree) : Prop :=
  ∃ n, StandsAt word.toList n (o.words t).toList ∧ u.span.start ≤ t.span.start + n ∧
    t.span.start + n + byteCount word.toList ≤ u.span.stop

section Words

variable {o : Origin} {t : Tree} {w : List Char} {n : Nat}

/-- The text of a node that is not empty is the part of the text in its range. -/
theorem Origin.slice?_of_words (nonempty : o.words t ≠ "") :
    Text.slice? t.span.start t.span.stop o.text = some (o.words t).toList := by
  rw [Origin.words, Origin.excerpt] at nonempty ⊢
  rw [String.toList_ofList]
  cases cut : Text.slice? t.span.start t.span.stop o.text with
  | none =>
      rw [cut] at nonempty
      exact absurd rfl nonempty
  | some part => rfl

/-- What stands in the text of a node stands in the whole text, at the place of the
node. -/
theorem exists_of_standsAt_words (stands : StandsAt w n (o.words t).toList) (some : w ≠ []) :
    ∃ before front back behind, o.text = before ++ (front ++ (w ++ (back ++ behind))) ∧
      byteCount before = t.span.start ∧ byteCount front = n ∧
      byteCount before + byteCount front + byteCount w + byteCount back = t.span.stop ∧
      Text.Between Text.isBlank front back := by
  obtain ⟨front, back, whole, bytes, between⟩ := stands
  have nonempty : o.words t ≠ "" := by
    intro none
    rw [none] at whole
    exact some (List.append_eq_nil_iff.mp (List.append_eq_nil_iff.mp whole.symm).2).1
  obtain ⟨before, behind, text, start, size⟩ :=
    Text.eq_append_of_slice? (Origin.slice?_of_words nonempty)
  refine ⟨before, front, back, behind, by simp [text, whole], start, bytes, ?_, between⟩
  have positive := Text.byteCount_pos some
  rw [whole] at size
  simp only [Text.byteCount_append] at size
  omega

end Words

section Parts

variable {o : Origin} {extra opened rest : List Char} {l : Lexed}
  {marks : Kind → Option (Syntax.Token → Bool)} {root child t : Tree} {word : String}
  (whole : o.text ++ extra = opened ++ rest) (layout : Layout (byteCount opened) rest l)
  (covers : Tree.Covers marks l.tokens root.children l.spans) (part : child ∈ root.children)
  (mem : t ∈ child.nodes)
include whole layout covers part mem

/-- A word of small letters that stands in the text of a node stands in one of the
node's parts. -/
theorem exists_shows_of_mem_words (holds : t.children ≠ []) (nonempty : word.toList ≠ [])
    (lower : ∀ c ∈ word.toList, c.isLower = true) (stands : word ∈ Text.words (o.words t)) :
    ∃ u ∈ t.children, Shows o word t u := by
  obtain ⟨n, stands⟩ := (Text.mem_words_iff nonempty fun c hc =>
    Syntax.isBlank_of_isLower (lower c hc)).mp (by rwa [String.ofList_toList])
  obtain ⟨before, front, back, behind, text, start, offset, stop, -⟩ :=
    exists_of_standsAt_words stands nonempty
  have snug := (covers.snug child part).of_mem_nodes mem
  have row := (Tree.leaves_infix mem).trans (Tree.leaves_infix_leavesAmong part)
  have spans : ∀ p ∈ Tree.leavesAmong root.children, p ∈ l.spans :=
    fun p leaf => covers.leaves.mem_iff.mp leaf
  -- the node lies behind what is cut off before the first token
  have low : byteCount opened ≤ byteCount (before ++ front) := by
    obtain ⟨q, leaf, first⟩ := snug.hulls.first_mem
    have := (layout.start_le q (spans q (row.subset leaf))).1
    rw [Text.byteCount_append]
    omega
  have split : opened ++ rest = before ++ front ++ (word.toList ++ (back ++ (behind ++ extra))) := by
    rw [← whole, text]
    simp
  obtain ⟨gap, same, cut⟩ := Text.append_of_byteCount_le split low
  obtain ⟨p, span, pstart, pstop⟩ := layout.exists_span cut nonempty lower
  have bytes : byteCount opened + byteCount gap = t.span.start + n := by
    rw [← Text.byteCount_append, ← same, Text.byteCount_append, start, offset]
  have positive := Text.byteCount_pos nonempty
  have leaf : p ∈ t.leaves :=
    covers.ordered.mem_of_overlap row snug.hulls (covers.leaves.mem_iff.mpr span) (by omega)
      (by omega)
  obtain ⟨u, inside, -, ustart, ustop⟩ := snug.exists_part (covers.ordered.of_infix row) holds leaf
  exact ⟨u, inside, n, stands, by omega, by omega⟩

/-- A part that is a single word is the word that stands in it. -/
theorem words_eq_of_shows {u : Tree} (inside : u ∈ t.children)
    (isWord : ∃ k ∈ u.kind?, ∃ q ∈ marks k, ∀ a, q a = true → a.cls = .word)
    (nonempty : word.toList ≠ []) (shows : Shows o word t u) : o.words u = word := by
  obtain ⟨n, stands, ustart, ustop⟩ := shows
  obtain ⟨before, front, back, behind, text, start, offset, stop, between⟩ :=
    exists_of_standsAt_words stands nonempty
  obtain ⟨k, kind, q, mark, isWord⟩ := isWord
  have inner : u ∈ child.nodes :=
    Tree.mem_nodes_trans mem (Tree.mem_nodes_of_mem_children inside (Tree.mem_nodes_self kind))
  obtain ⟨alone, a, token, test, place⟩ := covers.marked child part u inner k kind q mark
  obtain ⟨lead, b, tail, cut, aplace, plain⟩ := layout.exists_word a token (isWord a test)
  rw [aplace] at place
  -- a single word is a leaf, so it lies in the range of the node
  have snug := (covers.snug child part).of_mem_nodes mem
  have ordered := covers.ordered.of_infix
    ((Tree.leaves_infix mem).trans (Tree.leaves_infix_leavesAmong part))
  have leaf : u.span ∈ t.leaves := Tree.mem_leaves_of_mem_children inside alone
  have low := snug.hulls.start_le ordered _ leaf
  have high := snug.hulls.le_stop ordered _ leaf
  have text' : before ++ (front ++ (word.toList ++ (back ++ (behind ++ extra)))) =
      opened ++ lead ++ (b ++ tail) := by
    rw [cut, text] at whole
    simpa using whole
  simp only [place] at ustart ustop low high
  obtain ⟨same, rfl⟩ := between.eq_of_within plain text'
    (by rw [Text.byteCount_append]; omega) (by rw [Text.byteCount_append]; omega)
    (by rw [Text.byteCount_append]; omega) (by rw [Text.byteCount_append]; omega)
  rw [Origin.words, Origin.excerpt, place, text]
  have slice := Text.slice?_append (before ++ front) word.toList (back ++ behind)
  rw [← same, Text.byteCount_append, same] at slice
  simp only [List.append_assoc] at slice
  rw [slice, Option.getD_some, String.ofList_toList]

end Parts

namespace Kotlin

/-- A word is one of the modifiers of a declaration. -/
def HasModifier (o : Origin) (word : String) (w : Tree) : Prop :=
  ∃ ms ∈ w.child? .modifiers, ∃ u ∈ ms.children, u.kind? = some .modifier ∧ o.words u = word

/-- Among the modifiers of a declaration a word stands alone where it is a modifier,
and nowhere else. -/
def IsSetOff (o : Origin) (word : String) (w : Tree) : Prop :=
  ∀ ms ∈ w.child? .modifiers, ∀ u ∈ ms.children,
    Shows o word ms u ↔ u.kind? = some .modifier ∧ o.words u = word

/-- What the test for overriding makes of a function `w` of the file `f`. -/
structure TestsOverride (o : Origin) (f : SourceFile) (m : MethodDecl) (w : Tree) : Prop where
  place : m.location = o.location w
  /-- `override` stands alone as a modifier, or within an annotation or a comment
  among the modifiers. -/
  flag : m.isOverride = true ↔ ∃ ms ∈ w.child? .modifiers, ∃ u ∈ ms.children,
    Shows o "override" ms u ∧ (u.kind? = some .modifier ∧ o.words u = "override" ∨
      u.kind? = some .annotationUse ∨ u.kind? = some .comment)
  /-- If it is set off, that means that the function has the modifier. -/
  modifier : IsSetOff o "override" w → (m.isOverride = true ↔ HasModifier o "override" w)
  /-- Without the flag there is no super method, and nothing to report of one. -/
  silent : m.isOverride = false → (∀ r : Symbol.Resolver, r.superMember? f m = none) ∧
    ∀ x : Rule.Context, Rule.Boundary.judgeOverride x f m = none

section Lists

variable {o : Origin} {t w ms : Tree}

theorem kind?_of_mem_modifiers (mem : w ∈ t.nodes) (list : ms ∈ w.child? .modifiers) :
    ms.kind? = some .modifiers ∧ ms ∈ t.nodes := by
  obtain ⟨kind, inner⟩ := Tree.of_child? list
  exact ⟨kind, Tree.mem_nodes_trans mem inner⟩

/-- A word of the text of the modifiers stands in a modifier, and is that, or in an
annotation or a comment among the modifiers. -/
theorem exists_part_of_mem_words (parsed : Syntax.Kotlin.grammar.parse? o.text = some t)
    (mem : w ∈ t.nodes) (list : ms ∈ w.child? .modifiers) {word : String}
    (nonempty : word.toList ≠ []) (lower : ∀ c ∈ word.toList, c.isLower = true)
    (stands : word ∈ Text.words (o.words ms)) :
    ∃ u ∈ ms.children, Shows o word ms u ∧ (u.kind? = some .modifier ∧ o.words u = word ∨
      u.kind? = some .annotationUse ∨ u.kind? = some .comment) := by
  obtain ⟨kind, inner⟩ := kind?_of_mem_modifiers mem list
  obtain ⟨file, covers⟩ := Syntax.Kotlin.covers_of_parse? parsed
  obtain ⟨opened, rest, extra, whole, layout⟩ :=
    Syntax.layout_lex Syntax.Kotlin.isSymbolic_spelling o.text
  -- the modifiers are not the whole file, so they stand in one of its parts
  obtain ⟨child, part, below⟩ :=
    Tree.exists_child_of_mem_nodes inner (by rw [kind, file]; decide)
  have holds : ms.children ≠ [] := by
    obtain ⟨u, inside, -⟩ := Syntax.Kotlin.obeys_of_parse? parsed ms inner .modifiers kind
    exact List.ne_nil_of_mem inside
  obtain ⟨u, inside, shows⟩ :=
    exists_shows_of_mem_words whole layout covers part below holds nonempty lower stands
  refine ⟨u, inside, shows, ?_⟩
  have met := Syntax.Kotlin.grants_of_parse? parsed ms inner .modifiers kind _ rfl u inside
  obtain kind | kind | kind : u.kind? = some .annotationUse ∨ u.kind? = some .modifier ∨
      u.kind? = some .comment := by
    simpa [Syntax.Wish.meets, Tree.face] using met
  · exact .inr (.inl kind)
  · refine .inl ⟨kind, words_eq_of_shows whole layout covers part below inside ?_ nonempty shows⟩
    exact ⟨_, kind, _, rfl, fun a isWord => beq_iff_eq.mp isWord⟩
  · exact .inr (.inr kind)

theorem isLower_of_mem_override : ∀ c ∈ "override".toList, c.isLower = true :=
  List.all_eq_true.mp (by decide)

/-- The test asks for a word of the text of the modifiers, if there are any. -/
theorem contains_words_iff (parsed : Syntax.Kotlin.grammar.parse? o.text = some t)
    (mem : w ∈ t.nodes) :
    (Text.words (modifierText o w)).contains "override" = true ↔
      ∃ ms ∈ w.child? .modifiers, ∃ u ∈ ms.children, Shows o "override" ms u ∧
        (u.kind? = some .modifier ∧ o.words u = "override" ∨
          u.kind? = some .annotationUse ∨ u.kind? = some .comment) := by
  rw [List.contains_iff_mem, modifierText]
  constructor
  · intro stands
    cases list : w.child? .modifiers with
    | none =>
        rw [list] at stands
        cases stands
    | some ms =>
        rw [list] at stands
        obtain ⟨u, part, rest⟩ := exists_part_of_mem_words parsed mem list (by decide)
          isLower_of_mem_override stands
        exact ⟨ms, rfl, u, part, rest⟩
  · rintro ⟨ms, list, u, -, ⟨n, stands, -⟩, -⟩
    rw [Option.mem_def.mp list]
    have word := (Text.mem_words_iff (by decide) fun c mem =>
      Syntax.isBlank_of_isLower (isLower_of_mem_override c mem)).mpr ⟨n, stands⟩
    rwa [String.ofList_toList] at word

end Lists

/-- **What passes for overriding.**  Let a Kotlin text have a tree.  The file that
is read from it lists a method for each function, in order, and the method counts
as one that overrides exactly if `override` stands alone as a modifier of the
function, or within an annotation or a comment among its modifiers.  Where it is
set off from these, that is to have the modifier.  A method that does not count
has no super method and is never reported as overriding. -/
theorem isOverride_read_iff {path : FilePath} {text : String} {t : Tree}
    (parsed : Language.kotlin.grammar.parse? text.toList = some t) :
    let f := Language.kotlin.read path text
    List.Forall₂ (TestsOverride ⟨path, text.toList⟩ f) f.methods.toList
      (t.nodes.filter (·.isKind .method)) := by
  intro f
  have made : f = ofTree ⟨path, text.toList⟩ t := by
    simp only [f, Language.read, parsed]
    rfl
  have listed := methods_ofTree (Syntax.Kotlin.grants_of_parse? parsed) ⟨path, text.toList⟩
  rw [← made, ← List.forall₂_eq_eq_eq, List.forall₂_map_left_iff, List.forall₂_map_right_iff,
    List.forall₂_iff_zip] at listed
  refine List.forall₂_iff_zip.mpr ⟨listed.1, fun {m w} pair => ?_⟩
  have same := listed.2 pair
  obtain ⟨place, modifiers⟩ := Prod.mk.inj same
  have mem : w ∈ t.nodes := (List.mem_filter.mp (List.of_mem_zip pair).2).1
  have flag := contains_words_iff (o := ⟨path, text.toList⟩) parsed mem
  rw [← modifiers, ← MethodDecl.isOverride] at flag
  refine ⟨place, flag, fun setOff => flag.trans ⟨?_, ?_⟩, fun unflagged => ?_⟩
  · rintro ⟨ms, list, u, part, shows, -⟩
    exact ⟨ms, list, u, part, (setOff ms list u part).mp shows⟩
  · rintro ⟨ms, list, u, part, is⟩
    exact ⟨ms, list, u, part, (setOff ms list u part).mpr is, .inl is⟩
  · have kotlin : f.language = .kotlin := made ▸ language_ofTree _ t
    have without (r : Symbol.Resolver) : r.superMember? f m = none := by
      rw [Symbol.Resolver.superMember?, Symbol.Resolver.mayOverride, kotlin, unflagged]
      rfl
    exact ⟨without, fun x => by rw [Rule.Boundary.judgeOverride, without, Option.bind_none]⟩

/-- A class with a function that overrides and one that does not. -/
def readerText : String :=
  "class Reader : Base() \x7b\n  @Slow override fun read() = 1\n  private fun skip() = 2\n\x7d\n"

/-- The first of the two counts. -/
theorem isOverride_read_iff_readerText :
    ∃ t, Language.kotlin.grammar.parse? readerText.toList = some t ∧
      let f := Language.kotlin.read ⟨"Reader.kt"⟩ readerText
      List.Forall₂ (TestsOverride ⟨⟨"Reader.kt"⟩, readerText.toList⟩ f) f.methods.toList
          (t.nodes.filter (·.isKind .method)) ∧
        f.methods.toList.map (·.isOverride) = [true, false] := by
  obtain ⟨some, flags⟩ : (Language.kotlin.grammar.parse? readerText.toList).isSome = true ∧
      (Language.kotlin.read ⟨"Reader.kt"⟩ readerText).methods.toList.map (·.isOverride) =
        [true, false] := by
    decide +kernel
  obtain ⟨t, parsed⟩ := Option.isSome_iff_exists.mp some
  exact ⟨t, parsed, isOverride_read_iff parsed, flags⟩

/-- A function without modifiers whose annotation has the word in its argument. -/
def deprecatedText : String :=
  "@Deprecated(\"do not override this\") fun f() \x7b\x7d"

/-- It counts as one that overrides. -/
theorem isOverride_deprecatedText :
    (Language.kotlin.grammar.parse? deprecatedText.toList).map (fun t =>
        (t.nodes.filter (·.isKind .modifier)).length) = some 0 ∧
      (Language.kotlin.read ⟨"src/A.kt"⟩ deprecatedText).methods.toList.map (·.isOverride) =
        [true] := by
  decide +kernel

end Kotlin

end Code

end AndroidLint
