/-
Tree — a program as a tree of nodes over its words.

A tree is complete: every word and symbol of a node stands among its
children, in order, between the nodes it is made of.  Words have no kind;
"named" children are those that are nodes.  A comment is a node too; it is
put where it stands, into the innermost node that has something on either
side of it.
-/
import AndroidLint.Syntax.Token

namespace AndroidLint

namespace Syntax

/-- The kinds of nodes that are told apart; all others are `other`. -/
inductive Kind where
  | file
  | packageHeader
  | importHeader
  | importAlias
  | wildcard
  /-- A dotted name. -/
  | path
  | identifier
  | typeName
  | qualifiedTypeName
  | classDeclaration
  | interfaceDeclaration
  | enumDeclaration
  | markerDeclaration
  | recordDeclaration
  | objectDeclaration
  | companionObject
  | objectLiteral
  /-- A method, a constructor with a body, or a function. -/
  | method
  | property
  /-- Variables of one type. -/
  | variables
  /-- One of them, with its initial value. -/
  | declarator
  /-- A name, with its type where that is given. -/
  | variable
  | parameters
  | parameter
  | spreadParameter
  | modifiers
  | modifier
  | annotationUse
  | constructorInvocation
  | elementPair
  | superclass
  | interfaces
  | typeList
  | delegationSpecifier
  | explicitDelegation
  | userType
  | nullableType
  | functionType
  | classBody
  | functionBody
  | statements
  | call
  | callSuffix
  | arguments
  | argument
  | annotatedLambda
  | navigation
  | navigationSuffix
  | fieldAccess
  | reference
  | creation
  | lambda
  | anonymousFunction
  | string
  | literal
  | this
  | parenthesized
  | returnStatement
  | jump
  | comment
  | other
deriving DecidableEq, Inhabited

/-- What a node is to the node it stands in. -/
inductive Role where
  | name
  | type
  | object
  | arguments
  | parameters
  | key
  | value
  | superclass
  | interfaces
deriving DecidableEq

/-- A node, or a word or symbol as written. -/
inductive Tree where
  | word (text : String) (span : Span)
  | node (kind : Kind) (role? : Option Role) (span : Span) (children : List Tree)
deriving Inhabited

namespace Tree

/-- The range a tree covers. -/
def span : Tree → Span
  | .word _ s => s
  | .node _ _ s _ => s

/-- The kind of a node. -/
def kind? : Tree → Option Kind
  | .word .. => none
  | .node k _ _ _ => some k

/-- Whether a tree is a node of a kind. -/
def isKind (k : Kind) (t : Tree) : Bool :=
  t.kind? == some k

/-- What a node is to the node it stands in. -/
def role? : Tree → Option Role
  | .word .. => none
  | .node _ r _ _ => r

/-- Whether a tree is a node. -/
def isNamed (t : Tree) : Bool :=
  t.kind?.isSome

/-- Everything in a node. -/
def children : Tree → List Tree
  | .word .. => []
  | .node _ _ _ ts => ts

/-- The nodes in a node. -/
def named (t : Tree) : List Tree :=
  t.children.filter isNamed

/-- The first node of a kind in a node. -/
def child? (t : Tree) (k : Kind) : Option Tree :=
  t.children.find? (isKind k)

/-- The nodes of a kind in a node. -/
def childrenOf (t : Tree) (k : Kind) : List Tree :=
  t.children.filter (isKind k)

/-- The node that has a role in a node. -/
def part? (t : Tree) (r : Role) : Option Tree :=
  t.children.find? fun u => u.role? == some r

/-- Whether a tree is a word as written. -/
def isWord (text : String) : Tree → Bool
  | .word s _ => s == text
  | .node .. => false

/-- Whether a word stands in a node. -/
def hasWord (t : Tree) (text : String) : Bool :=
  t.children.any (isWord text)

/-- A node with a role. -/
def withRole (r : Role) : Tree → Tree
  | .word s p => .word s p
  | .node k _ p ts => .node k (some r) p ts

/-- A node around trees, which are given the last first. -/
def around (k : Kind) (ts : List Tree) : Tree :=
  .node k none ⟨(ts.getLast?.map (·.span.start)).getD 0, (ts.head?.map (·.span.stop)).getD 0⟩
    ts.reverse

/-- A comment. -/
def ofComment (s : Span) : Tree :=
  .node .comment none s []

mutual

/-- A node with a comment that stands in it. -/
def insert (c : Span) : Tree → Tree
  | .word s p => .word s p
  | .node k r p ts => .node k r p (insertAmong c ts)

/-- Trees in a row with a comment that stands before, between or in them. -/
def insertAmong (c : Span) : List Tree → List Tree
  | [] => [ofComment c]
  | t :: ts =>
      if c.stop ≤ t.span.start then ofComment c :: t :: ts
      else if t.span.stop ≤ c.start then t :: insertAmong c ts
      else t.insert c :: ts

end

end Tree

end Syntax

end AndroidLint
