/-
Grammar — grammars as data, and how a text is read by one.

A form says what may stand at a place of a text and which nodes it makes.
Choices are ordered: the first that fits is taken, for good.  What a form
makes is put behind what its node has so far; a form may also enclose that,
which is how a chain such as `a.b().c()` grows from the left.

Reading takes one unit of fuel per form on the way down and per repetition.
A form that takes no token leads to one that does in a number of steps
that only depends on the grammar, so fuel in proportion to the length of
the text is enough for every text a grammar of this size fits.
-/
import AndroidLint.Syntax.Tree

namespace AndroidLint

namespace Syntax

/-- What may stand at a place, over the rules `ρ` of a grammar. -/
inductive Form (ρ : Type) where
  /-- A word or symbol as written. -/
  | word (text : String)
  /-- A token that satisfies `p`. -/
  | bare (p : Token → Bool)
  /-- A token that satisfies `p`, as a node. -/
  | leaf (k : Kind) (p : Token → Bool)
  /-- Nothing, where what follows satisfies `p`. -/
  | ahead (p : List Token → Bool)
  | rule (r : ρ)
  /-- One after the other. -/
  | all (fs : List (Form ρ))
  /-- The first that fits. -/
  | any (fs : List (Form ρ))
  /-- As often as it fits. -/
  | many (f : Form ρ)
  /-- A node of what `f` makes. -/
  | node (k : Kind) (f : Form ρ)
  /-- What `f` makes, in a role. -/
  | part (r : Role) (f : Form ρ)
  /-- What `f` makes, as if nothing stood before it in its node. -/
  | group (f : Form ρ)
  /-- A node of what its group has so far, in a role if one is given, and
  what `f` makes. -/
  | around (k : Kind) (r? : Option Role) (f : Form ρ)

instance {ρ : Type} : Coe String (Form ρ) := ⟨.word⟩

namespace Form

variable {ρ : Type}

/-- The form or nothing. -/
def maybe (f : Form ρ) : Form ρ :=
  .any [f, .all []]

/-- The form once or more often. -/
def oneOrMore (f : Form ρ) : Form ρ :=
  .all [f, .many f]

/-- The form once or more often, with a word between. -/
def separated (f : Form ρ) (separator : String) : Form ρ :=
  .all [f, .many (.all [.word separator, f])]

/-- One of several words. -/
def oneOf (texts : List String) : Form ρ :=
  .bare fun t => texts.any t.isWord

/-- What a form makes of the tokens `ts` behind the trees `done`, and the
tokens it leaves.  Trees are kept the last first. -/
def read (g : ρ → Form ρ) :
    Nat → Form ρ → List Tree → List Token → Option (List Tree × List Token)
  | 0, _, _, _ => none
  | fuel + 1, f, done, ts =>
      match f with
      | .word text =>
          match ts with
          | t :: r => if t.isWord text then some (.word t.text t.span :: done, r) else none
          | [] => none
      | .bare p =>
          match ts with
          | t :: r => if p t then some (.word t.text t.span :: done, r) else none
          | [] => none
      | .leaf k p =>
          match ts with
          | t :: r => if p t then some (.node k none t.span [] :: done, r) else none
          | [] => none
      | .ahead p => if p ts then some (done, ts) else none
      | .rule r => read g fuel (g r) done ts
      | .all [] => some (done, ts)
      | .all (f :: fs) => (read g fuel f done ts).bind fun s => read g fuel (.all fs) s.1 s.2
      | .any [] => none
      | .any (f :: fs) => (read g fuel f done ts).orElse fun _ => read g fuel (.any fs) done ts
      | .many f =>
          match read g fuel f done ts with
          | none => some (done, ts)
          | some s => read g fuel (.many f) s.1 s.2
      | .node k f => (read g fuel f [] ts).map fun s => (Tree.around k s.1 :: done, s.2)
      | .part r f => (read g fuel f [] ts).map fun s => (s.1.map (Tree.withRole r) ++ done, s.2)
      | .group f => (read g fuel f [] ts).map fun s => (s.1 ++ done, s.2)
      | .around k r? f =>
          let inner := match r? with
            | none => done
            | some r => done.map (Tree.withRole r)
          (read g fuel f inner ts).map fun s => ([Tree.around k s.1], s.2)

end Form

/-- A language: how it is cut, the rules of its grammar, and the rule for a
whole file. -/
structure Grammar where
  Rule : Type
  spelling : Spelling
  form : Rule → Form Rule
  start : Rule

/-- The tree of a text, its comments in place, if all of it can be read. -/
def Grammar.parse? (g : Grammar) (text : List Char) : Option Tree :=
  let l := lex g.spelling text
  match Form.read g.form (2000 * (l.tokens.length + 1)) (.rule g.start) [] l.tokens with
  | some ([t], []) => some (l.comments.foldl (fun t c => t.insert c) t)
  | _ => none

end Syntax

end AndroidLint
