/-
JavaGrammar — the grammar of Java files.

Operators are not sorted by precedence: a row of operands is one node, for
no reader asks how it is bracketed.  Where a type and an expression begin
alike, the type is tried first and what follows it decides.  A declaration of
a type is tried before a method, for where both can stand `record` is the word
that declares one and no type's name.
-/
import AndroidLint.Syntax.Grammar

namespace AndroidLint

namespace Syntax

namespace Java

/-- The rules that refer to themselves or are used in several places. -/
inductive Rule where
  | file
  | module
  | name
  | modifiers
  | annotationUse
  | elementValue
  | typeDeclaration
  | typeParameters
  | implemented
  | typeList
  | classBody
  | interfaceBody
  | enumBody
  | markerBody
  | method
  | constructor
  | variables
  | parameters
  | throws
  | type
  | classType
  | typeArguments
  | dimensions
  | declarator
  | arrayValues
  | block
  | statement
  | resource
  | caseLabel
  | pattern
  | expression
  | ternary
  | operation
  | unary
  | chain
  | primary
  | created
  | arguments
  | lambda
  | switch
  | parenthesized
deriving DecidableEq

/-- The symbols of more than one character.  Brackets that close types are
kept single, so there is none that begins with `>`. -/
def spelling : Spelling where
  symbols := ["<<=", "...", "->", "::", "++", "--", "&&", "||", "==", "!=", "<=", "<<",
    "+=", "-=", "*=", "/=", "&=", "|=", "^=", "%="]
  hasTemplates := false
  nestsComments := false
  hasInterpreterLine := false
  numbersEndInPoint := true

/-- The words that are no names. -/
def reserved : List String :=
  ["abstract", "assert", "boolean", "break", "byte", "case", "catch", "char", "class", "const",
   "continue", "default", "do", "double", "else", "enum", "extends", "false", "final", "finally",
   "float", "for", "goto", "if", "implements", "import", "instanceof", "int", "interface", "long",
   "native", "new", "null", "package", "private", "protected", "public", "return", "short",
   "static", "strictfp", "super", "switch", "synchronized", "this", "throw", "throws",
   "transient", "true", "try", "void", "volatile", "while"]

/-- The words among the modifiers. -/
def modifierWords : List String :=
  ["public", "protected", "private", "abstract", "static", "final", "strictfp", "default",
   "synchronized", "native", "transient", "volatile", "sealed"]

/-- The types that are words. -/
def primitives : List String :=
  ["byte", "short", "int", "long", "char", "float", "double", "boolean", "void"]

/-- The operators between two operands, those with `>` apart. -/
def operators : List String :=
  ["+", "-", "*", "/", "%", "&", "|", "^", "&&", "||", "==", "!=", "<=", "<<", "<"]

/-- The assignments. -/
def assignments : List String :=
  ["=", "+=", "-=", "*=", "/=", "&=", "|=", "^=", "%=", "<<="]

/-- A form of this grammar. -/
abbrev Part := Form Rule

/-- A name. -/
def identifier : Part :=
  .leaf .identifier (Token.isName reserved)

/-- A name in its role. -/
def named : Part :=
  .part .name identifier

/-- A type's name. -/
def typeName : Part :=
  .leaf .typeName (Token.isName reserved)

/-- A type that is a word. -/
def primitive : Part :=
  .leaf .other fun t => t.cls == .word && primitives.contains t.text

/-- A type in its role. -/
def typed : Part :=
  .part .type (.rule .type)

/-- The modifiers, if there are any. -/
def modified : Part :=
  .maybe (.rule .modifiers)

/-- The annotations at a place. -/
def annotations : Part :=
  .many (.rule .annotationUse)

/-- A number, a character, a truth value or null. -/
def literal : Part :=
  .leaf .literal fun t =>
    t.cls == .number || (t.cls == .quotedText && Text.startsWith t.text "'")
      || (t.cls == .word && ["true", "false", "null"].contains t.text)

/-- A string. -/
def stringLiteral : Part :=
  .leaf .string fun t => t.cls == .quotedText && Text.startsWith t.text "\""

/-- A name that may be followed by brackets. -/
def declaredName : Part :=
  .all [named, .maybe (.rule .dimensions)]

/-- The arguments of a call in their role. -/
def applied : Part :=
  .part .arguments (.rule .arguments)

/-- What may begin the operand of a cast to a class. -/
def beginsOperand (ts : List Token) : Bool :=
  match ts.head? with
  | none => false
  | some t => t.cls == .number || t.cls == .quotedText
      || (t.cls == .word && t.text != "instanceof")
      || ["(", "!", "~"].any t.isWord

/-- Whether a type is followed by what only follows a type: a member
reference, or the word for its class. -/
def namesType (ts : List Token) : Bool :=
  match ts with
  | t :: u :: _ => t.isWord "::" || (t.isWord "." && u.isWord "class")
  | _ => false

/-- A declaration of a type after its modifiers: its word, its name and
what comes up to its body. -/
def declarationOf (k : Kind) (words : List Part) (rest : List Part) : Part :=
  .node k (.all (modified :: words ++ named :: rest))

/-- The form of each rule. -/
def form : Rule → Part
  | .file =>
      .node .file (.many (.any
        [.node .packageHeader (.all [annotations, "package", .rule .name, ";"]),
         .node .importHeader (.all ["import", .maybe "static", .rule .name,
           .maybe (.all [".", .leaf .wildcard (·.isWord "*")]), ";"]),
         .rule .typeDeclaration,
         .rule .method,
         .rule .statement,
         .rule .module]))
  | .module =>
      .node .other (.all [annotations, .maybe "open", "module", .rule .name, "\x7b",
        .many (.node .other (.all [.oneOf ["requires", "exports", "opens", "uses", "provides"],
          .many (.all [.oneOf ["transitive", "static"],
            .ahead fun ts => ts.head?.any (·.cls == .word)]),
          .rule .name,
          .maybe (.all [.oneOf ["to", "with"], .separated (.rule .name) ","]), ";"])),
        "\x7d"])
  | .name => .group (.all [identifier, .many (.around .path none (.all [".", identifier]))])
  | .modifiers =>
      .node .modifiers (.oneOrMore (.any
        [.oneOf modifierWords, .all ["non", "-", "sealed"], .rule .annotationUse]))
  | .annotationUse =>
      .node .annotationUse (.all ["@", .part .name (.rule .name),
        .maybe (.part .arguments (.node .other (.all ["(",
          .maybe (.separated (.any
            [.node .elementPair (.all [.part .key identifier, "=",
               .part .value (.rule .elementValue)]),
             .rule .elementValue]) ","), ")"])))])
  | .elementValue =>
      .any [.rule .annotationUse,
        .node .other (.all ["\x7b", .maybe (.separated (.rule .elementValue) ","),
          .maybe ",", "\x7d"]),
        .rule .ternary]
  | .typeDeclaration =>
      .any
        [declarationOf .classDeclaration ["class"]
          [.maybe (.rule .typeParameters),
           .maybe (.part .superclass (.node .superclass (.all ["extends", .rule .type]))),
           .maybe (.rule .implemented),
           .maybe (.node .other (.all ["permits", .rule .typeList])),
           .rule .classBody],
         declarationOf .interfaceDeclaration ["interface"]
          [.maybe (.rule .typeParameters),
           .maybe (.part .interfaces (.node .interfaces (.all ["extends", .rule .typeList]))),
           .maybe (.node .other (.all ["permits", .rule .typeList])),
           .rule .interfaceBody],
         declarationOf .enumDeclaration ["enum"]
          [.maybe (.rule .implemented), .rule .enumBody],
         declarationOf .markerDeclaration ["@", "interface"] [.rule .markerBody],
         declarationOf .recordDeclaration ["record"]
          [.maybe (.rule .typeParameters), .part .parameters (.rule .parameters),
           .maybe (.rule .implemented), .rule .classBody]]
  | .typeParameters =>
      .node .other (.all ["<", .separated (.node .other (.all [annotations, typeName,
        .maybe (.node .other (.all ["extends", .separated (.rule .type) "&"]))])) ",", ">"])
  | .implemented =>
      .part .interfaces (.node .interfaces (.all ["implements", .rule .typeList]))
  | .typeList => .node .typeList (.separated (.rule .type) ",")
  | .classBody =>
      .node .classBody (.all ["\x7b", .many (.any
        [";",
         .node .other (.all ["static", .rule .block]),
         .rule .typeDeclaration,
         .rule .method,
         .rule .constructor,
         .node .other (.all [modified, named, .rule .block]),
         .rule .variables,
         .rule .block]), "\x7d"])
  | .interfaceBody =>
      .node .other (.all ["\x7b", .many (.any
        [";", .rule .typeDeclaration, .rule .method, .rule .variables]), "\x7d"])
  | .enumBody =>
      .node .other (.all ["\x7b",
        .maybe (.separated (.node .other (.all [modified, named, .maybe applied,
          .maybe (.rule .classBody)])) ","),
        .maybe ",",
        .maybe (.node .other (.all [";", .many (.any
          [";",
           .node .other (.all ["static", .rule .block]),
           .rule .typeDeclaration,
           .rule .method,
           .rule .constructor,
           .rule .variables,
           .rule .block])])),
        "\x7d"])
  | .markerBody =>
      .node .other (.all ["\x7b", .many (.any
        [";",
         .node .other (.all [modified, typed, named, "(", ")", .maybe (.rule .dimensions),
           .maybe (.all ["default", .part .value (.rule .elementValue)]), ";"]),
         .rule .variables,
         .rule .typeDeclaration]), "\x7d"])
  | .method =>
      .node .method (.all [modified, .maybe (.all [.rule .typeParameters, annotations]),
        typed, named, .part .parameters (.rule .parameters), .maybe (.rule .dimensions),
        .maybe (.rule .throws), .any [.rule .block, ";"]])
  | .constructor =>
      .node .method (.all [modified, .maybe (.rule .typeParameters), named,
        .part .parameters (.rule .parameters), .maybe (.rule .throws), .rule .block])
  | .variables =>
      .node .variables (.all [modified, typed, .separated (.rule .declarator) ",", ";"])
  | .parameters =>
      .node .parameters (.all ["(", .maybe (.separated (.any
        [.node .spreadParameter (.all [modified, .rule .type, annotations, "...",
           .node .declarator declaredName]),
         .node .other (.all [annotations, .rule .type, .many (.all [identifier, "."]), "this"]),
         .node .parameter (.all [modified, typed, declaredName])]) ","), ")"])
  | .throws => .node .other (.all ["throws", .separated (.rule .type) ","])
  | .type =>
      let plain : Part := .group (.all [.any [primitive, .rule .classType],
        .maybe (.around .other none (.rule .dimensions))])
      .any [.node .other (.all [.rule .annotationUse, annotations, plain]), plain]
  | .classType =>
      .group (.all [typeName, .many (.any
        [.around .qualifiedTypeName none (.all [".", annotations, typeName]),
         .around .other none (.rule .typeArguments)])])
  | .typeArguments =>
      .node .other (.all ["<", .maybe (.separated (.any
        [.node .other (.all [annotations, "?",
           .maybe (.all [.oneOf ["extends", "super"], .rule .type])]),
         .rule .type]) ","), ">"])
  | .dimensions => .node .other (.oneOrMore (.all [annotations, "[", "]"]))
  | .declarator =>
      .node .declarator (.all [declaredName,
        .maybe (.all ["=", .part .value (.any [.rule .arrayValues, .rule .expression])])])
  | .arrayValues =>
      .node .other (.all ["\x7b", .maybe (.separated
        (.any [.rule .arrayValues, .rule .expression]) ","), .maybe ",", "\x7d"])
  | .block => .node .other (.all ["\x7b", .many (.rule .statement), "\x7d"])
  | .statement =>
      .any
        [";",
         .rule .block,
         .node .returnStatement (.all ["return", .maybe (.rule .expression), ";"]),
         .node .other (.all ["if", .rule .parenthesized, .rule .statement,
           .maybe (.all ["else", .rule .statement])]),
         .node .other (.all ["while", .rule .parenthesized, .rule .statement]),
         .node .other (.all ["do", .rule .statement, "while", .rule .parenthesized, ";"]),
         .node .other (.all ["for", "(", modified, .rule .type, declaredName, ":",
           .rule .expression, ")", .rule .statement]),
         .node .other (.all ["for", "(",
           .any [.rule .variables, .all [.maybe (.separated (.rule .expression) ","), ";"]],
           .maybe (.rule .expression), ";",
           .maybe (.separated (.rule .expression) ","), ")", .rule .statement]),
         .rule .switch,
         .node .other (.all ["try",
           .maybe (.node .other (.all ["(", .separated (.rule .resource) ";", .maybe ";", ")"])),
           .rule .block,
           .many (.node .other (.all ["catch", "(",
             .node .other (.all [modified, .separated (.rule .type) "|", declaredName]), ")",
             .rule .block])),
           .maybe (.node .other (.all ["finally", .rule .block]))]),
         .node .other (.all ["synchronized", .rule .parenthesized, .rule .block]),
         .node .other (.all ["assert", .rule .expression,
           .maybe (.all [":", .rule .expression]), ";"]),
         .node .other (.all [.oneOf ["throw", "yield"], .rule .expression, ";"]),
         .node .other (.all [.oneOf ["break", "continue"], .maybe identifier, ";"]),
         .node .other (.all [identifier, ":", .rule .statement]),
         .rule .typeDeclaration,
         .rule .variables,
         .node .other (.all [.rule .expression, ";"])]
  | .resource =>
      .node .other (.any
        [.all [modified, typed, declaredName, "=", .rule .expression], .rule .expression])
  | .caseLabel =>
      .node .other (.any
        [.all ["case", .separated (.any [.rule .pattern, .all ["default"], .rule .ternary]) ",",
           .maybe (.all ["when", .rule .ternary])],
         .all ["default"]])
  | .pattern =>
      .any
        [.node .other (.all [.rule .type,
           .node .other (.all ["(", .maybe (.separated (.rule .pattern) ","), ")"]),
           .maybe identifier]),
         .node .other (.all [.maybe "final", .rule .type, identifier])]
  | .expression =>
      .any
        [.rule .lambda,
         .group (.all [.rule .ternary,
           .maybe (.around .other none (.all [.oneOf assignments, .rule .expression]))])]
  | .ternary =>
      .group (.all [.rule .operation,
        .maybe (.around .other none (.all ["?", .rule .expression, ":",
          .any [.rule .lambda, .rule .ternary]]))])
  | .operation =>
      let operand : Part := .any
        [.all [.oneOf operators, .rule .unary],
         .all [">", .maybe ">", .maybe ">", .maybe "=", .rule .unary],
         .all ["instanceof", .maybe "final", .any [.rule .pattern, .rule .type]]]
      .group (.all [.rule .unary, .maybe (.around .other none (.oneOrMore operand))])
  | .unary =>
      .any
        [.node .other (.all [.oneOf ["++", "--", "+", "-", "!", "~"], .rule .unary]),
         .node .other (.all ["(", primitive, ")", .rule .unary]),
         .node .other (.all ["(", .separated (.rule .type) "&", ")", .ahead beginsOperand,
           .any [.rule .lambda, .rule .unary]]),
         .rule .chain]
  | .chain =>
      let superWord : Part := .leaf .other (·.isWord "super")
      .group (.all [.rule .primary, .many (.any
        [.around .call (some .object) (.all [".", .maybe (.all [superWord, "."]),
           .maybe (.rule .typeArguments), named, applied]),
         .around .creation none (.all [".", .rule .created]),
         .around .other none (.all [".", "super", .rule .arguments]),
         .around .other none (.all [".", "class"]),
         .around .fieldAccess none (.all [".", .maybe (.all [superWord, "."]),
           .any [identifier, .leaf .this (·.isWord "this")]]),
         .around .other none (.all [".", stringLiteral]),
         .around .other none (.all ["[", .rule .expression, "]"]),
         .around .reference none (.all ["::", .maybe (.rule .typeArguments),
           .any ["new", identifier]]),
         .around .other none (.oneOf ["++", "--"])])])
  | .primary =>
      .any
        [literal,
         stringLiteral,
         .rule .switch,
         .rule .parenthesized,
         .node .creation (.rule .created),
         .node .other (.all ["new", annotations, .any [primitive, .rule .classType],
           .any [.all [.rule .dimensions, .rule .arrayValues],
             .oneOrMore (.all [annotations, "[", .maybe (.rule .expression), "]"])]]),
         .all [.rule .type, .ahead namesType],
         .node .other (.all [.maybe (.rule .typeArguments), .oneOf ["this", "super"],
           .rule .arguments, .ahead fun ts => ts.head?.any (·.isWord ";")]),
         .leaf .this (·.isWord "this"),
         .leaf .other (·.isWord "super"),
         .node .call (.all [named, applied]),
         identifier]
  | .created =>
      .all ["new", annotations, .maybe (.rule .typeArguments), .part .type (.rule .classType),
        applied, .maybe (.rule .classBody)]
  | .arguments => .node .arguments (.all ["(", .maybe (.separated (.rule .expression) ","), ")"])
  | .lambda =>
      .node .lambda (.all
        [.any
          [.all [identifier, .ahead fun ts => ts.head?.any (·.isWord "->")],
           .rule .parameters,
           .node .other (.all ["(", .separated identifier ",", ")"])],
         "->",
         .any [.rule .block, .rule .expression]])
  | .switch =>
      .node .other (.all ["switch", .rule .parenthesized,
        .node .other (.all ["\x7b", .many (.any
          [.node .other (.all [.rule .caseLabel, .any ["->", ":"]]),
           .rule .statement]), "\x7d"])])
  | .parenthesized => .node .parenthesized (.all ["(", .rule .expression, ")"])

/-- The grammar of Java files. -/
def grammar : Grammar where
  Rule := Rule
  spelling := spelling
  form := form
  start := .file

end Java

end Syntax

end AndroidLint
