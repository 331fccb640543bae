/-
KotlinGrammar — the grammar of Kotlin files.

A statement ends at a line break unless what follows can only go on with
it.  The rule looks at the next token alone: a bracket that opens, a comma,
a dot, a colon, most operators, `else` and `in` go on; a sign goes on
unless it is doubled or a digit follows.  Between round or square brackets
no statement can end.  So whatever may follow a complete expression is
tried only where no statement has ended.

Operators are not sorted by precedence: a row of operands is one node, for
no reader asks how it is bracketed.
-/
import AndroidLint.Syntax.Grammar

namespace AndroidLint

namespace Syntax

namespace Kotlin

/-- The rules that refer to themselves or are used in several places. -/
inductive Rule where
  | file
  | path
  | modifiers
  | annotationUse
  | annotationBody
  | declaration
  | accessor
  | classDeclaration
  | typeParameters
  | constraints
  | classParameters
  | delegations
  | classBody
  | enumBody
  | member
  | parameters
  | functionBody
  | receiver
  | variable
  | variables
  | type
  | userType
  | functionType
  | typeArguments
  | block
  | statements
  | statement
  | body
  | expression
  /-- What a class header delegates to; constraints may follow it. -/
  | delegate
  | operand
  | chain
  | primary
  | callSuffix
  | valueArguments
  | lambda
  | string
  | conditional
  | selection
  | attempt
  | jump
deriving DecidableEq

/-- The symbols of more than one character.  Brackets that close types are
kept single, so there is none that begins with `>`. -/
def spelling : Spelling where
  symbols := ["===", "!==", "..<", "->", "::", "++", "--", "&&", "||", "==", "!=", "!!", "<=",
    "..", "?:", "+=", "-=", "*=", "/=", "%="]
  hasTemplates := true
  nestsComments := true
  hasInterpreterLine := true
  numbersEndInPoint := false

/-- The words that are no names. -/
def reserved : List String :=
  ["as", "break", "class", "continue", "do", "else", "false", "for", "fun", "if", "in",
   "interface", "is", "null", "object", "package", "return", "super", "this", "throw", "true",
   "try", "typealias", "val", "var", "when", "while"]

/-- The words among the modifiers. -/
def modifierWords : List String :=
  ["public", "private", "internal", "protected", "abstract", "final", "open", "override",
   "lateinit", "sealed", "annotation", "data", "inner", "value", "tailrec", "operator", "infix",
   "inline", "external", "suspend", "const", "expect", "actual", "vararg", "noinline",
   "crossinline", "reified", "in", "out"]

/-- What an annotation may be meant for. -/
def targets : List String :=
  ["field", "property", "get", "set", "receiver", "param", "setparam", "delegate"]

/-- The operators between two operands that are symbols, those with `>`
apart. -/
def operators : List String :=
  ["*", "/", "%", "+", "-", "..", "..<", "?:", "<=", "<", "==", "!=", "===", "!==", "&&", "||"]

/-- The assignments. -/
def assignments : List String :=
  ["=", "+=", "-=", "*=", "/=", "%="]

/-- The symbols that never begin a statement on a new line. -/
def continuing : List Char :=
  [',', '.', ':', '*', '%', '>', '<', '=', '\x7b', '[', '(', '?', '|', '&', '/']

/-- Whether the next token, on a new line, goes on with the statement
before it. -/
def continues : List Token → Bool
  | [] => false
  | t :: r =>
      match t.cls, t.text.toList with
      | .symbol, ['+'] | .symbol, ['-'] =>
          !r.head?.any fun u => u.cls == .number && u.gap == .none
      | .symbol, '+' :: _ | .symbol, '-' :: _ => t.text != "++" && t.text != "--"
      | .symbol, '!' :: c => c.head? == some '='
      | .symbol, c :: _ => continuing.contains c
      | .word, 'i' :: 'n' :: c => c.head?.all fun d => !d.isAlpha
      | .word, _ => t.text == "else"
      | _, _ => false

/-- Whether a statement goes on with the next token. -/
def sameStatement (ts : List Token) : Bool :=
  match ts with
  | [] => false
  | t :: _ => t.gap != .line || t.inBrackets || continues ts

/-- Whether a statement that is complete ends here. -/
def endsStatement (ts : List Token) : Bool :=
  !sameStatement ts || ts.head?.any fun t => t.isWord ";" || t.isWord "\x7d"

/-- Whether a branch of a selection begins here: on a new line, in which an
arrow follows. -/
def isBranch : List Token → Bool
  | [] => false
  | t :: r => t.gap == .line && (r.takeWhile (·.gap != .line)).any (·.isWord "->")

/-- The tokens behind the bracket that closes `depth` open ones. -/
def behindBracket : (depth : Nat) → List Token → List Token
  | _, [] => []
  | depth, t :: r =>
      if t.isWord "(" then behindBracket (depth + 1) r
      else if t.isWord ")" then if depth ≤ 1 then r else behindBracket (depth - 1) r
      else behindBracket depth r

/-- Whether brackets and an arrow follow, as in the type of a function. -/
def beginsFunctionType (ts : List Token) : Bool :=
  ts.head?.any (·.isWord "(") && (behindBracket 0 ts).head?.any (·.isWord "->")

/-- A form of this grammar. -/
abbrev Part := Form Rule

/-- Nothing, where no statement has ended. -/
def onward : Part :=
  .ahead sameStatement

/-- Nothing, where the next token follows without a gap. -/
def glued : Part :=
  .ahead fun ts => ts.head?.any (·.gap == .none)

/-- A name. -/
def identifier : Part :=
  .leaf .identifier (Token.isName reserved)

/-- A type's name. -/
def typeName : Part :=
  .leaf .typeName (Token.isName reserved)

/-- A word as a node. -/
def keyword (text : String) : Part :=
  .leaf .other (·.isWord text)

/-- The modifiers, if there are any. -/
def modified : Part :=
  .maybe (.rule .modifiers)

/-- The annotations at a place. -/
def annotations : Part :=
  .many (.rule .annotationUse)

/-- A word that is a modifier: one of the list before another word or an
annotation. -/
def isModifier : List Token → Bool
  | t :: u :: _ =>
      t.cls == .word && modifierWords.contains t.text
        && (u.cls == .word || u.cls == .quotedName || u.isWord "@")
  | _ => false

/-- Whether an accessor begins here with a modifier. -/
def beginsAccessor : List Token → Bool
  | t :: u :: _ =>
      t.cls == .word && modifierWords.contains t.text && (u.isWord "get" || u.isWord "set")
  | _ => false

/-- Whether an accessor that is its word alone ends here: with the statement,
or before another accessor. -/
def endsAccessor (ts : List Token) : Bool :=
  endsStatement ts || beginsAccessor ts || ts.head?.any fun t => t.isWord "get" || t.isWord "set"

/-- A modifier. -/
def modifier : Part :=
  .all [.ahead isModifier, .leaf .modifier (·.cls == .word)]

/-- A type after a colon, if there is one. -/
def typed : Part :=
  .maybe (.all [":", .rule .type])

/-- A list that may end in a comma. -/
def commaList (f : Part) : Part :=
  .maybe (.all [.separated f ",", .maybe ","])

/-- A name behind a `@`, where that follows without a gap. -/
def label : Part :=
  .maybe (.all [glued, "@", glued, .leaf .other (·.cls == .word)])

/-- A label before what it names. -/
def labelled : Part :=
  .node .other (.all [.bare (Token.isName reserved), glued, "@"])

/-- Operators with their right operands, types for some of them, that may
go on after an operand; an infix function's name is read by `name`. -/
def further (name : Part) : Part :=
  .all [onward, .any
    [.all [.oneOf operators, .rule .operand],
     .all [.ahead (!isBranch ·), "in", .rule .operand],
     .all [">", .maybe (.all [glued, "="]), .rule .operand],
     .all ["!", glued, "in", .rule .operand],
     .all [.maybe (.all ["!", glued]), "is", .rule .type],
     .all ["as", .maybe (.all [glued, "?"]), .rule .type],
     .all [.ahead (!beginsAccessor ·), name, .rule .operand]]]

/-- An operand with what goes on after it. -/
def operation (name : Part) : Part :=
  .group (.all [.rule .operand, .maybe (.around .other none (.oneOrMore (further name)))])

/-- The body of a class, if there is one.  A bracket that opens behind a header
opens its body in any case. -/
def withMembers (body : Part) : Part :=
  .any [body, .ahead fun ts => !ts.head?.any (·.isWord "\x7b")]

/-- The types a class extends, if any. -/
def extending : Part :=
  .maybe (.all [":", .rule .delegations])

/-- The constraints on the parameters of a type, if any. -/
def constrained : Part :=
  .maybe (.all [onward, .rule .constraints])

/-- A simple type, that may be followed by arguments. -/
def simpleType : Part :=
  .all [typeName, .maybe (.rule .typeArguments)]

/-- The body of a function, if there is one. -/
def withBody : Part :=
  .maybe (.rule .functionBody)

/-- Whether a type goes on to a member of it. -/
def beforeMember (ts : List Token) : Bool :=
  ts.head?.any fun t => t.isWord "." || t.isWord "?"

/-- The accessors of a property in the same statement. -/
def accessors : Part :=
  .maybe (.all [onward, .rule .accessor, .maybe (.all [onward, .rule .accessor])])

/-- Two annotations of which the second has arguments, and a class without
super types: an annotated expression, in which the word for the class is a
name, the name of the class an infix function and its body a lambda. -/
def annotatedInfix : Part :=
  .group (.all [.rule .annotationUse,
    .node .annotationUse (.all ["@",
      .node .constructorInvocation (.all [.rule .userType, .rule .valueArguments])]),
    .node .other (.all
      [.leaf .identifier fun t => t.isWord "class" || t.isWord "interface",
       identifier, .rule .lambda])])

/-- The form of each rule. -/
def form : Rule → Part
  | .file =>
      .node .file (.all
        [.many (.node .other (.all ["@", "file", ":", .any
           [.all ["[", .oneOrMore (.rule .annotationBody), "]"],
            .rule .annotationBody]])),
         .maybe (.node .packageHeader (.all ["package", .rule .path])),
         .many (.any
           [";",
            .node .importHeader (.all ["import", .rule .path, .maybe (.any
              [.all [".", .leaf .wildcard (·.isWord "*")],
               .all [onward, .node .importAlias (.all ["as", typeName])]]), .maybe ";"])]),
         .many (.any [";", .rule .accessor, .rule .statement])])
  | .path => .node .path (.separated identifier ".")
  | .modifiers => .node .modifiers (.oneOrMore (.any [.rule .annotationUse, modifier]))
  | .annotationUse =>
      .node .annotationUse (.all ["@",
        .maybe (.node .other (.all [.oneOf targets, ":"])),
        .any [.all ["[", .oneOrMore (.rule .annotationBody), "]"],
          .rule .annotationBody]])
  | .annotationBody =>
      .any
        [.all [.rule .userType, .ahead beginsFunctionType],
         .node .constructorInvocation (.all [.rule .userType, .rule .valueArguments]),
         .rule .userType]
  | .declaration =>
      .any
        [.rule .classDeclaration,
         .node .objectDeclaration (.all [modified, "object", typeName, extending,
           withMembers (.rule .classBody)]),
         .node .method (.all [modified, "fun", .maybe (.rule .typeParameters),
           .maybe (.rule .receiver), identifier, .rule .parameters, typed, constrained, withBody]),
         .node .property (.all [modified, .any [keyword "val", keyword "var"],
           .maybe (.rule .typeParameters), .maybe (.rule .receiver),
           .any [.rule .variable, .rule .variables], constrained,
           .maybe (.any
             [.all ["=", .rule .expression],
              .all [onward, .node .other (.all ["by", .rule .expression])]]),
           accessors]),
         .node .other (.all [modified, "typealias", typeName, .maybe (.rule .typeParameters), "=",
           .rule .type])]
  | .accessor =>
      .node .other (.any
        [.all [modified, "get", "(", ")", typed, .rule .functionBody],
         .all [modified, "set", "(",
           .node .other (.all [modified, identifier, typed]), .maybe ",", ")", typed,
           .rule .functionBody],
         .all [.rule .modifiers, .oneOf ["get", "set"]],
         .all [.oneOf ["get", "set"], .ahead endsAccessor]])
  | .classDeclaration =>
      let header : List Part :=
        [typeName, .maybe (.rule .typeParameters),
         .maybe (.all [onward, .rule .classParameters]), extending, constrained]
      .any
        [.node .classDeclaration (.all (modified :: "enum" :: "class" :: header ++
          [withMembers (.rule .enumBody)])),
         .node .classDeclaration (.all (modified ::
          .any ["class", .all [.maybe "fun", "interface"]] :: header ++
          [withMembers (.rule .classBody)]))]
  | .typeParameters =>
      .node .other (.all ["<", .separated (.node .other (.all
        [.many (.any [.rule .annotationUse, modifier]), typeName, typed])) ",", .maybe ",", ">"])
  | .constraints =>
      .node .other (.all ["where", .separated (.node .other (.all
        [annotations, typeName, ":", .rule .type])) ","])
  | .classParameters =>
      .node .other (.all [.maybe (.all [modified, "constructor"]), "(",
        commaList (.node .parameter (.all [modified,
          .maybe (.any [keyword "val", keyword "var"]), identifier, ":", .rule .type,
          .maybe (.all ["=", .rule .expression])])), ")"])
  | .delegations =>
      .separated (.node .delegationSpecifier (.any
        [.node .constructorInvocation (.all [.rule .userType, .rule .valueArguments]),
         .node .explicitDelegation (.all [.any [.rule .functionType, .rule .userType], "by",
           .rule .delegate]),
         .rule .functionType,
         .rule .userType])) ","
  | .classBody => .node .classBody (.all ["\x7b", .many (.rule .member), "\x7d"])
  | .enumBody =>
      .node .other (.all ["\x7b",
        commaList (.node .other (.all [modified, identifier, .maybe (.rule .valueArguments),
          .maybe (.rule .classBody)])),
        .maybe (.all [";", .many (.rule .member)]), "\x7d"])
  | .member =>
      .any
        [";",
         .rule .declaration,
         .node .companionObject (.all [modified, "companion", "object",
           .maybe (.all [onward, typeName]), extending, withMembers (.rule .classBody)]),
         .node .other (.all ["init", .rule .block]),
         .node .other (.all [modified, "constructor", .rule .parameters,
           .maybe (.all [":", .node .other (.all [.oneOf ["this", "super"],
             .rule .valueArguments])]),
           .maybe (.rule .block)]),
         .rule .accessor]
  | .parameters =>
      .node .parameters (.all ["(", commaList (.all
        [modified, .node .parameter (.all [identifier, ":", .rule .type]),
         .maybe (.all ["=", .rule .expression])]), ")"])
  | .functionBody => .node .functionBody (.any [.rule .block, .all ["=", .rule .expression]])
  | .receiver =>
      let receiving : Part := .node .userType (.all [simpleType,
        .many (.all [".", simpleType, .ahead beforeMember])])
      .all [annotations,
        .group (.all [.any [receiving, .node .other (.all ["(", .rule .type, ")"])],
          .maybe (.around .nullableType none (.oneOrMore "?"))]),
        "."]
  | .variable => .node .variable (.all [identifier, typed])
  | .variables => .node .other (.all ["(", commaList (.rule .variable), ")"])
  | .type =>
      .all
        [.maybe (.node .other (.oneOrMore (.any
          [.rule .annotationUse,
           .all ["suspend", .ahead fun ts =>
             ts.head?.any fun t => t.cls == .word || t.isWord "("]]))),
         .any
          [.rule .functionType,
           .group (.all [.any
               [.node .other (.all ["(", .rule .type, ")"]), "dynamic", .rule .userType],
             .maybe (.around .nullableType none (.oneOrMore "?")),
             .maybe (.around .other none (.all ["&", .rule .type]))])]]
  | .userType => .node .userType (.separated simpleType ".")
  | .functionType =>
      .node .functionType (.all
        [.maybe (.rule .receiver),
         .node .other (.all ["(", commaList (.any
           [.node .parameter (.all [identifier, ":", .rule .type]), .rule .type]), ")"]),
         "->", .rule .type])
  | .typeArguments =>
      .node .other (.all ["<", .separated (.node .other (.any
        ["*", .all [.many (.any [.rule .annotationUse, modifier]), .rule .type]])) ",",
        .maybe ",", ">"])
  | .block => .all ["\x7b", .maybe (.rule .statements), "\x7d"]
  | .statements => .node .statements (.oneOrMore (.any [";", .rule .statement]))
  | .statement =>
      .any
        [annotatedInfix,
         .rule .declaration,
         .all [.many (.any [labelled, .rule .annotationUse]), .any
          [.node .other (.all ["for", "(", annotations, .any [.rule .variable, .rule .variables],
             "in", .rule .expression, ")", .maybe (.rule .body)]),
           .node .other (.all ["while", "(", .rule .expression, ")", .any [";", .rule .body]]),
           .node .other (.all ["do", .maybe (.rule .body), "while", "(", .rule .expression, ")"]),
           .group (.all [.rule .expression,
             .maybe (.all [onward,
               .around .other none (.all [.oneOf assignments, .rule .expression])])])]]]
  | .body => .node .other (.any [.rule .block, .rule .statement])
  | .expression => operation identifier
  | .delegate => operation (.leaf .identifier (Token.isName ("where" :: reserved)))
  | .operand =>
      .any
        [.node .other (.all [.oneOf ["+", "-", "++", "--", "!", "!!"], .rule .operand]),
         .node .other (.all [.any [labelled, .rule .annotationUse], .rule .operand]),
         .rule .chain]
  | .chain =>
      .group (.all [.rule .primary, .many (.all [onward, .any
        [.around .navigation none (.node .navigationSuffix (.all
           [.any [".", .all ["?", "."], "::"],
            .any [identifier, "class",
              .node .parenthesized (.all ["(", .rule .expression, ")"])]])),
         .around .call none (.rule .callSuffix),
         .around .other none (.node .other (.all ["[", commaList (.rule .expression), "]"])),
         .around .other none (.oneOf ["++", "--", "!!"])]])])
  | .primary =>
      .any
        [.node .parenthesized (.all ["(", .rule .expression, ")"]),
         .leaf .literal fun t =>
           t.cls == .number || t.cls == .quotedText || t.isWord "true" || t.isWord "false",
         "null",
         .rule .string,
         .node .objectLiteral (.all ["object", extending, .rule .classBody]),
         .node .anonymousFunction (.all ["fun", .maybe (.rule .receiver), .rule .parameters, typed,
           withBody]),
         .rule .lambda,
         .rule .conditional,
         .rule .selection,
         .rule .attempt,
         .rule .jump,
         .node .this (.all ["this", label]),
         .node .other (.all ["super", .maybe (.all ["<", .rule .type, ">"]), label]),
         .node .reference (.all ["::", .any [identifier, "class"]]),
         .node .other (.all ["[", commaList (.rule .expression), "]"]),
         identifier]
  | .callSuffix =>
      let block : Part :=
        .node .annotatedLambda (.all [annotations, .maybe labelled, .rule .lambda])
      .node .callSuffix (.any
        [.all [.rule .typeArguments, .any [.rule .valueArguments, block]],
         .rule .valueArguments,
         block])
  | .valueArguments =>
      .node .arguments (.all ["(", commaList (.node .argument (.all
        [.maybe (.rule .annotationUse),
         .maybe (.all [identifier, "="]),
         .any [.node .other (.all ["*", .rule .expression]), .rule .expression]])), ")"])
  | .lambda =>
      .node .lambda (.all ["\x7b",
        .maybe (.any
          [.all [.node .other (.all
             [.separated (.any [.rule .variable, .all [.rule .variables, typed]]) ",",
              .maybe ","]), "->"],
           "->"]),
        .maybe (.rule .statements), "\x7d"])
  | .string =>
      .node .string (.all [.bare (·.cls == .quote),
        .many (.any
          [.bare (·.cls == .fragment),
           .leaf .other (·.cls == .reference),
           .all ["$\x7b", .node .other (.rule .expression), "\x7d"]]),
        .bare (·.cls == .quote)])
  | .conditional =>
      let otherwise : Part := .all [.maybe ";", "else", .any [.rule .body, ";"]]
      .node .other (.all ["if", "(", .rule .expression, ")",
        .any [.all [.rule .body, .maybe otherwise], otherwise, ";"]])
  | .selection =>
      let condition : Part := .node .other (.any
        [.all [.maybe (.all ["!", glued]), "in", .rule .expression],
         .all [.maybe (.all ["!", glued]), "is", .rule .type],
         .rule .expression])
      .node .other (.all ["when",
        .maybe (.node .other (.all ["(",
          .maybe (.all [annotations, "val", .rule .variable, "="]), .rule .expression, ")"])),
        "\x7b",
        .many (.node .other (.all
          [.any ["else", .separated condition ","], .maybe ",", "->", .rule .body, .maybe ";"])),
        "\x7d"])
  | .attempt =>
      let handler : Part := .node .other (.all
        ["catch", "(", annotations, identifier, ":", .rule .type, .maybe ",", ")", .rule .block])
      let atLast : Part := .node .other (.all ["finally", .rule .block])
      .node .other (.all ["try", .rule .block,
        .any
          [.all [handler, .many (.all [onward, handler]), .maybe (.all [onward, atLast])],
           atLast]])
  | .jump =>
      .node .jump (.any
        [.all ["throw", .rule .expression],
         .all ["return", label, .maybe (.all [onward, .rule .expression])],
         .all [.oneOf ["continue", "break"], label]])

/-- The grammar of Kotlin files. -/
def grammar : Grammar where
  Rule := Rule
  spelling := spelling
  form := form
  start := .file

end Kotlin

end Syntax

end AndroidLint
