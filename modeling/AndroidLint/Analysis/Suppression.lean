/-
Suppression — findings silenced where they arise.

In a resource file the attribute `tools:ignore` of an element or of one
around it names the rules to silence.  In a source file the annotations of
a class or method, or of one around it, do.  A list of rules is separated
by commas, and `all` stands for every rule.
-/
import AndroidLint.Rule.Basic
import AndroidLint.Code.Enclosing

namespace AndroidLint

namespace Suppression

open Code (SourceFile Scope Owner)

/-- An item of a list without blanks and without quotes around it. -/
def item (cs : List Char) : String :=
  String.ofList (Text.strip (· == '"') (Text.strip Text.isBlank cs))

/-- The items of a list of rules. -/
def items (list : String) : List String :=
  (Text.pieces (· == ',') list.toList).map item

/-- Whether a list names a rule. -/
def names (list id : String) : Bool :=
  (items list).any fun i => i == id || i == "all"

/-- Whether an element names a rule to be silenced. -/
def elementSilences (id : String) (e : Markup.Element) : Bool :=
  (e.attribute? "tools:ignore").any fun a => names a.value id

/-- Whether an element or one around it names a rule. -/
def silencedAt (d : Markup.Document) (index : Nat) (id : String) : Bool :=
  (d.ancestorsOrSelf index).any (elementSilences id)

/-- The last segments of the annotations that silence rules. -/
def annotationNames : List String :=
  ["SuppressLint", "Suppress", "SuppressWarnings"]

/-- Whether an annotation names a rule to be silenced. -/
def annotationSilences (id : String) (a : Code.Annotation) : Bool :=
  annotationNames.contains a.simpleName && a.value?.any fun list => names list id

/-- The annotations of a class or method. -/
def annotationsOf (f : SourceFile) : Owner → List Code.Annotation
  | .method m => ((f.method? m).map (·.annotations)).getD []
  | .type c => ((f.class? c).map (·.annotations)).getD []
  | .file => []

/-- Whether a class or method names a rule. -/
def ownerSilences (f : SourceFile) (id : String) (o : Owner) : Bool :=
  (annotationsOf f o).any (annotationSilences id)

/-- Whether a scope or one around it names a rule. -/
def silencedIn (f : SourceFile) (s : Scope) (id : String) : Bool :=
  (f.owners s).any (ownerSilences f id)

/-- Whether a rule is silenced at a node. -/
def isSilenced (x : Rule.Context) (n : Rule.Node) (id : String) : Bool :=
  match n, x.source? with
  | .element d index _, _ => silencedAt d index id
  | .attribute d index _, _ => silencedAt d index id
  | .type c, some f => c.annotations.any (annotationSilences id) || silencedIn f c.scope id
  | .method m, some f =>
      m.annotations.any (annotationSilences id) || silencedIn f ⟨m.class?, none⟩ id
  | .call c, some f => silencedIn f c.scope id
  | .reference r, some f => silencedIn f r.scope id
  | .lambda l, some f => silencedIn f l.scope id
  | _, _ => false

end Suppression

end AndroidLint
