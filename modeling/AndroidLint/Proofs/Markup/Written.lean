/-
Written — trees of elements and every way of writing them.

What is said here is said without the reader.  A tree is given by its
elements.  `Content` relates the trees that stand side by side to the
texts that write them, one constructor for each thing that can come next:
text, a comment, an empty tag, or a start tag with its content and its end
tag.  Within a tag the relation leaves open what XML leaves open: the
blanks, the kind of quotes, and for each character of a value whether it
stands there itself or is referred to (`Spelling`).

`Tree.entries` lists a tree as a document does, in document order with
indexes for parents and children.
-/
import AndroidLint.Markup.Lexeme

namespace AndroidLint

namespace Markup

/-- An element: its tag, its attributes in order, and the elements in it. -/
inductive Tree where
  | element (tag : String) (attributes : List (String × String)) (children : List Tree)

/-! ## Names -/

/-- Whether a character is a letter; beyond ASCII every character counts
as one. -/
def isLetter (c : Char) : Bool :=
  c.isAlpha || 128 ≤ c.toNat

/-- Whether a character may stand in a name. -/
def isNamePart (c : Char) : Bool :=
  isLetter c || c.isDigit || c == '_' || c == '-' || c == '.' || c == ':'

/-- A name begins with a letter. -/
def IsName (name : String) : Prop :=
  ∃ c r, name.toList = c :: r ∧ isLetter c = true ∧ ∀ d ∈ r, isNamePart d = true

/-- The tags and the keys of the attributes are names, and no element has a
key twice.  Values are any strings. -/
inductive Tree.WellFormed : Tree → Prop
  | element {tag : String} {attributes : List (String × String)} {children : List Tree}
      (tagIsName : IsName tag) (keysAreNames : ∀ a ∈ attributes, IsName a.1)
      (keysDiffer : (attributes.map Prod.fst).Nodup) (inside : ∀ t ∈ children, t.WellFormed) :
      WellFormed (.element tag attributes children)

/-! ## Values -/

/-- `IsDigit d c`: the character `c` is the digit for `d`, small or capital. -/
def IsDigit (d : Nat) (c : Char) : Prop :=
  c = d.digitChar ∨ c = d.digitChar.toUpper

/-- `Numeral base cs n`: the digits `cs` write the number `n` in a base,
zeros in front or not. -/
inductive Numeral (base : Nat) : List Char → Nat → Prop
  | digit {d : Nat} {c : Char} (below : d < base) (isDigit : IsDigit d c) : Numeral base [c] d
  | append {cs : List Char} {n d : Nat} {c : Char} (front : Numeral base cs n) (below : d < base)
      (isDigit : IsDigit d c) : Numeral base (cs ++ [c]) (n * base + d)

/-- The names of characters that need not be declared. -/
def predefined : List (String × Char) :=
  [("lt", '<'), ("gt", '>'), ("amp", '&'), ("apos", '\''), ("quot", '"')]

/-- `Spelling quote c raw`: inside quotes of a kind, `raw` stands for the
character `c`. -/
inductive Spelling (quote c : Char) : List Char → Prop
  | itself (noTag : c ≠ '<') (noReference : c ≠ '&') (noEnd : c ≠ quote) : Spelling quote c [c]
  | entity {name : String} (known : (name, c) ∈ predefined) :
      Spelling quote c ('&' :: name.toList ++ [';'])
  | decimal {cs : List Char} (code : Numeral 10 cs c.toNat) (positive : 0 < c.toNat) :
      Spelling quote c ('&' :: '#' :: cs ++ [';'])
  | hexadecimal {cs : List Char} (code : Numeral 16 cs c.toNat) (positive : 0 < c.toNat) :
      Spelling quote c ('&' :: '#' :: 'x' :: cs ++ [';'])

/-- `Quotable quote value raw`: inside quotes of a kind, `raw` stands for
the value, character by character. -/
inductive Quotable (quote : Char) : List Char → List Char → Prop
  | nil : Quotable quote [] []
  | cons {c : Char} {value raw rest : List Char} (first : Spelling quote c raw)
      (others : Quotable quote value rest) : Quotable quote (c :: value) (raw ++ rest)

/-! ## Tags -/

/-- Blanks, none or some. -/
def Blanks (cs : List Char) : Prop :=
  ∀ c ∈ cs, isSpace c = true

/-- `Attributes pairs cs`: `cs` writes keys with their values, each after a
blank. -/
inductive Attributes : List (String × String) → List Char → Prop
  | nil : Attributes [] []
  | cons {key value : String} {pairs : List (String × String)}
      {gap left right raw rest : List Char} {quote : Char}
      (apart : gap ≠ []) (gapBlank : Blanks gap) (leftBlank : Blanks left)
      (rightBlank : Blanks right) (quotes : quote = '"' ∨ quote = '\'')
      (quoted : Quotable quote value.toList raw) (others : Attributes pairs rest) :
      Attributes ((key, value) :: pairs)
        (gap ++ key.toList ++ left ++ '=' :: right ++ quote :: raw ++ quote :: rest)

/-! ## Content -/

/-- The text of a comment: the mark that ends a comment is not in it. -/
def IsCommentText (cs : List Char) : Prop :=
  ¬ ['-', '-', '>'] <:+: cs

/-- `Content trees cs`: `cs` writes some trees one after another. -/
inductive Content : List Tree → List Char → Prop
  | nil : Content [] []
  | text {c : Char} {trees : List Tree} {rest : List Char} (noTag : c ≠ '<')
      (noReference : c ≠ '&') (others : Content trees rest) : Content trees (c :: rest)
  | comment {inner : List Char} {trees : List Tree} {rest : List Char}
      (isText : IsCommentText inner) (others : Content trees rest) :
      Content trees ('<' :: '!' :: '-' :: '-' :: inner ++ '-' :: '-' :: '>' :: rest)
  | empty {tag : String} {pairs : List (String × String)} {trees : List Tree}
      {written gap rest : List Char} (attributes : Attributes pairs written)
      (gapBlank : Blanks gap) (others : Content trees rest) :
      Content (.element tag pairs [] :: trees)
        ('<' :: tag.toList ++ written ++ gap ++ '/' :: '>' :: rest)
  | element {tag : String} {pairs : List (String × String)} {children trees : List Tree}
      {written gap inner close rest : List Char} (attributes : Attributes pairs written)
      (gapBlank : Blanks gap) (inside : Content children inner) (closeBlank : Blanks close)
      (others : Content trees rest) :
      Content (.element tag pairs children :: trees)
        ('<' :: tag.toList ++ written ++ gap ++ '>' :: inner ++
          '<' :: '/' :: tag.toList ++ close ++ '>' :: rest)

/-- `root.WrittenAs text`: the text is a way of writing the document that
has `root` for its outermost element. -/
def Tree.WrittenAs (root : Tree) (text : String) : Prop :=
  Content [root] text.toList

/-! ## Every tree can be written -/

theorem exists_spelling (c : Char) : ∃ raw, Spelling '"' c raw := by
  by_cases tag : c = '<'
  · exact ⟨_, .entity (show ("lt", c) ∈ predefined by simp [predefined, tag])⟩
  by_cases reference : c = '&'
  · exact ⟨_, .entity (show ("amp", c) ∈ predefined by simp [predefined, reference])⟩
  by_cases quote : c = '"'
  · exact ⟨_, .entity (show ("quot", c) ∈ predefined by simp [predefined, quote])⟩
  exact ⟨_, .itself tag reference quote⟩

theorem exists_quotable (value : List Char) : ∃ raw, Quotable '"' value raw := by
  induction value with
  | nil => exact ⟨_, .nil⟩
  | cons c value ih =>
      obtain ⟨raw, first⟩ := exists_spelling c
      obtain ⟨rest, others⟩ := ih
      exact ⟨_, .cons first others⟩

theorem exists_attributes (pairs : List (String × String)) : ∃ cs, Attributes pairs cs := by
  induction pairs with
  | nil => exact ⟨_, .nil⟩
  | cons pair pairs ih =>
      obtain ⟨raw, quoted⟩ := exists_quotable pair.2.toList
      obtain ⟨rest, others⟩ := ih
      have hgap : Blanks [' '] := by simp [Blanks, isSpace]
      have hnone : Blanks [] := by simp [Blanks]
      exact ⟨_, .cons (List.cons_ne_nil _ _) hgap hnone hnone (.inl rfl) quoted others⟩

mutual

theorem exists_content_cons {trees : List Tree} {rest : List Char} (others : Content trees rest) :
    ∀ t : Tree, ∃ cs, Content (t :: trees) cs
  | .element _ pairs children => by
      obtain ⟨written, attributes⟩ := exists_attributes pairs
      obtain ⟨inner, inside⟩ := exists_content children
      have hnone : Blanks [] := by simp [Blanks]
      exact ⟨_, .element attributes hnone inside hnone others⟩

theorem exists_content : ∀ trees : List Tree, ∃ cs, Content trees cs
  | [] => ⟨_, .nil⟩
  | t :: trees => by
      obtain ⟨rest, others⟩ := exists_content trees
      exact exists_content_cons others t

end

theorem Tree.exists_writtenAs (root : Tree) : ∃ text, root.WrittenAs text := by
  obtain ⟨cs, written⟩ := exists_content [root]
  exact ⟨String.ofList cs, by rwa [Tree.WrittenAs, String.toList_ofList]⟩

/-! ## Lists of elements -/

/-- What a document says of an element, apart from where it stands in the
text. -/
structure Entry where
  tag : String
  attributes : List (String × String)
  parent : Option Nat
  children : List Nat
deriving DecidableEq

mutual

/-- The number of elements of a tree. -/
def Tree.size : Tree → Nat
  | .element _ _ children => treesSize children + 1

/-- The number of elements of some trees. -/
def treesSize : List Tree → Nat
  | [] => 0
  | t :: ts => t.size + treesSize ts

end

/-- The indexes of the outermost elements of some trees whose first element
has the index `first`. -/
def roots (first : Nat) : List Tree → List Nat
  | [] => []
  | t :: ts => first :: roots (first + t.size) ts

mutual

/-- The elements of a tree in document order, its own at `index`. -/
def Tree.entries (parent : Option Nat) (index : Nat) : Tree → List Entry
  | .element tag attributes children =>
      ⟨tag, attributes, parent, roots (index + 1) children⟩
        :: treesEntries (some index) (index + 1) children

/-- The elements of some trees in document order, the first at `first`. -/
def treesEntries (parent : Option Nat) (first : Nat) : List Tree → List Entry
  | [] => []
  | t :: ts => t.entries parent first ++ treesEntries parent (first + t.size) ts

end

mutual

theorem length_entries (parent : Option Nat) (index : Nat) :
    ∀ t : Tree, (t.entries parent index).length = t.size
  | .element tag attributes children => by
      rw [Tree.entries, Tree.size, List.length_cons, length_treesEntries]

theorem length_treesEntries (parent : Option Nat) (first : Nat) :
    ∀ ts : List Tree, (treesEntries parent first ts).length = treesSize ts
  | [] => rfl
  | t :: ts => by
      rw [treesEntries, treesSize, List.length_append, length_entries, length_treesEntries]

end

theorem roots_append (first : Nat) (ts us : List Tree) :
    roots first (ts ++ us) = roots first ts ++ roots (first + treesSize ts) us := by
  induction ts generalizing first with
  | nil => rfl
  | cons t ts ih =>
      rw [List.cons_append, roots, roots, treesSize, ih, List.cons_append, Nat.add_assoc]

theorem treesEntries_append (parent : Option Nat) (first : Nat) (ts us : List Tree) :
    treesEntries parent first (ts ++ us) =
      treesEntries parent first ts ++ treesEntries parent (first + treesSize ts) us := by
  induction ts generalizing first with
  | nil => rfl
  | cons t ts ih =>
      rw [List.cons_append, treesEntries, treesEntries, treesSize, ih, List.append_assoc,
        Nat.add_assoc]

end Markup

end AndroidLint
