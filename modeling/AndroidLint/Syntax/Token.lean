/-
Token — a program text cut into words, numbers, literals and symbols.

A cut looks at the characters in front of it and at the brackets and
strings it stands in: inside a string the text is taken as it stands, up to
the end of the string or to an expression in it.  What a cut takes is never
empty, so a text of `n` characters is used up after `n` cuts.  Blanks and
comments are no tokens; a token remembers the blanks before it, and
comments are kept with their place.
-/
import AndroidLint.Text

namespace AndroidLint

namespace Syntax

/-- A range of bytes. -/
structure Span where
  start : Nat
  stop : Nat
deriving DecidableEq, Inhabited

/-- What stands between a token and the one before it, or the last comment
before it. -/
inductive Gap where
  | none
  | blank
  | line
deriving DecidableEq, Inhabited

/-- What a token is. -/
inductive TokenClass where
  | word
  /-- A name between backquotes. -/
  | quotedName
  | number
  /-- A character, or a string that holds no expressions. -/
  | quotedText
  /-- Either end of a string that may hold expressions. -/
  | quote
  /-- Text in such a string. -/
  | fragment
  /-- A name in such a string, with the dollar sign in front. -/
  | reference
  | symbol
deriving DecidableEq, Inhabited

/-- A token with its place, the gap before it, and whether the innermost
bracket around it is a round or a square one. -/
structure Token where
  cls : TokenClass
  text : String
  span : Span
  gap : Gap
  inBrackets : Bool
deriving Inhabited

namespace Token

/-- Whether a token is a word or a symbol as written. -/
def isWord (t : Token) (text : String) : Bool :=
  (t.cls == .word || t.cls == .symbol) && t.text == text

/-- Whether a token is a name, given the words that are none. -/
def isName (reserved : List String) (t : Token) : Bool :=
  t.cls == .quotedName || (t.cls == .word && !reserved.contains t.text)

end Token

/-- How the texts of a language are cut. -/
structure Spelling where
  /-- The symbols of more than one character, the longer ones first. -/
  symbols : List String
  /-- Whether strings may hold expressions. -/
  hasTemplates : Bool
  /-- Whether a comment may hold comments. -/
  nestsComments : Bool
  /-- Whether the first line may name a program that runs the text. -/
  hasInterpreterLine : Bool
  /-- Whether a number may end in a point. -/
  numbersEndInPoint : Bool

/-- What a place in a text stands in. -/
inductive Mode where
  | braces
  | brackets
  /-- A string, and whether it is one between three quotes. -/
  | string (isRaw : Bool)
deriving DecidableEq

/-- What a cut takes from a text. -/
inductive Piece where
  | blank
  | comment
  | token (cls : TokenClass)

/-- Whether a word may begin with a character.  Outside literals and
comments every character beyond ASCII that is no blank is a letter. -/
def isLetter (c : Char) : Bool :=
  c.isAlpha || c == '_' || c == '$' || (127 < c.toNat && !Text.isBlank c)

/-- Whether a word may go on with a character. -/
def isWordPart (c : Char) : Bool :=
  isLetter c || c.isDigit

/-- The rest of a number: letters, digits, a point before a digit or any
point if a number may end in one, and a sign after the letter of an
exponent. -/
def numberPart (s : Spelling) (isHex : Bool) : List Char → List Char
  | [] => []
  | [c] => if isWordPart c || (c == '.' && s.numbersEndInPoint) then [c] else []
  | c :: d :: r =>
      if c == '.' && (d.isDigit || s.numbersEndInPoint) then c :: numberPart s isHex (d :: r)
      else if isWordPart c then
        let isExponent := if isHex then c == 'p' || c == 'P' else c == 'e' || c == 'E'
        if isExponent && (d == '+' || d == '-') then c :: d :: numberPart s isHex r
        else c :: numberPart s isHex (d :: r)
      else []

/-- The number at the start of a text. -/
def number (s : Spelling) (cs : List Char) : List Char :=
  match cs with
  | '0' :: 'x' :: r => '0' :: 'x' :: numberPart s true r
  | '0' :: 'X' :: r => '0' :: 'X' :: numberPart s true r
  | _ => numberPart s false cs

/-- A text up to and with the first place where `stop` occurs, skipping
what a backslash guards. -/
def quotedUntil (stop : List Char) : List Char → List Char
  | [] => []
  | '\\' :: c :: r => '\\' :: c :: quotedUntil stop r
  | c :: r =>
      if stop.isPrefixOf (c :: r) then stop else c :: quotedUntil stop r

/-- A comment from behind its first two characters to its end, `depth`
comments deep. -/
def commentPart (nests : Bool) : Nat → List Char → List Char
  | _, [] => []
  | 0, '*' :: '/' :: _ => ['*', '/']
  | depth + 1, '*' :: '/' :: r => '*' :: '/' :: commentPart nests depth r
  | depth, '/' :: '*' :: r =>
      '/' :: '*' :: commentPart nests (if nests then depth + 1 else depth) r
  | depth, c :: r => c :: commentPart nests depth r

/-- Three quotes. -/
def tripleQuote : List Char :=
  ['"', '"', '"']

/-- The end of a string if it comes next; between three quotes a string may
itself end in quotes. -/
def closing? (isRaw : Bool) (cs : List Char) : Option (List Char) :=
  match isRaw, cs with
  | true, '"' :: '"' :: '"' :: '"' :: _ => none
  | true, '"' :: '"' :: '"' :: _ => some tripleQuote
  | false, '"' :: _ => some ['"']
  | _, _ => none

/-- Whether the text of a string stops: it ends, or an expression or a name
begins. -/
def stopsFragment (isRaw : Bool) (cs : List Char) : Bool :=
  (closing? isRaw cs).isSome ||
    match cs with
    | '$' :: c :: _ => c == '\x7b' || isLetter c
    | _ => false

/-- The text of a string up to where it stops. -/
def fragment (isRaw : Bool) : List Char → List Char
  | [] => []
  | [c] => if stopsFragment isRaw [c] then [] else [c]
  | c :: d :: r =>
      if stopsFragment isRaw (c :: d :: r) then []
      else if c == '\\' && !isRaw then c :: d :: fragment isRaw r
      else c :: fragment isRaw (d :: r)

/-- What a cut takes inside a string. -/
def cutString (isRaw : Bool) (cs : List Char) : Piece × List Char :=
  match closing? isRaw cs, cs with
  | some q, _ => (.token .quote, q)
  | none, '$' :: c :: r =>
      if c == '\x7b' then (.token .symbol, ['$', c])
      else if isLetter c then (.token .reference, '$' :: c :: r.takeWhile isWordPart)
      else (.token .fragment, fragment isRaw cs)
  | none, _ => (.token .fragment, fragment isRaw cs)

/-- The longest symbol at the start of a text. -/
def symbol (s : Spelling) (c : Char) (r : List Char) : List Char :=
  ((s.symbols.map String.toList).find? fun t => t.isPrefixOf (c :: r)).getD [c]

/-- What a cut takes at a quote outside strings. -/
def cutQuote (s : Spelling) (r : List Char) : Piece × List Char :=
  match s.hasTemplates, r with
  | true, '"' :: '"' :: _ => (.token .quote, tripleQuote)
  | true, _ => (.token .quote, ['"'])
  | false, '"' :: '"' :: r =>
      (.token .quotedText, tripleQuote ++ quotedUntil tripleQuote r)
  | false, _ => (.token .quotedText, '"' :: quotedUntil ['"'] r)

/-- What a cut takes outside strings. -/
def cutCode (s : Spelling) (c : Char) (r : List Char) : Piece × List Char :=
  if Text.isBlank c then (.blank, c :: r.takeWhile Text.isBlank)
  else if isLetter c then (.token .word, c :: r.takeWhile isWordPart)
  else if c.isDigit then (.token .number, number s (c :: r))
  else match c, r with
    | '/', '/' :: r => (.comment, '/' :: '/' :: r.takeWhile (· != '\n'))
    | '/', '*' :: r => (.comment, '/' :: '*' :: commentPart s.nestsComments 0 r)
    | '"', r => cutQuote s r
    | '\'', r => (.token .quotedText, '\'' :: quotedUntil ['\''] r)
    | '`', r => (.token .quotedName, '`' :: (r.takeWhile (· != '`') ++ ['`']))
    | '.', d :: _ =>
        if d.isDigit then (.token .number, number s (c :: r)) else (.token .symbol, symbol s c r)
    | _, _ => (.token .symbol, symbol s c r)

/-- What stands in the brackets after a token. -/
def Mode.after (modes : List Mode) (cls : TokenClass) (text : String) : List Mode :=
  match cls, modes with
  | .quote, .string _ :: ms => ms
  | .quote, ms => .string (text.length == 3) :: ms
  | .symbol, ms =>
      if text == "\x7b" || text == "$\x7b" then .braces :: ms
      else if text == "(" || text == "[" then .brackets :: ms
      else if text == ")" || text == "]" || text == "\x7d" then ms.tail
      else ms
  | _, ms => ms

/-- The gap that blanks leave after a gap. -/
def Gap.widen (g : Gap) (blanks : List Char) : Gap :=
  if g == .line || blanks.any fun c => c == '\n' || c == '\r' then .line else .blank

/-- The tokens of a text, and where its comments are. -/
structure Lexed where
  tokens : List Token
  comments : List Span

/-- The tokens and comments of a text that begins at byte `start`, in at
most `fuel` cuts. -/
def lexWithin (s : Spelling) : Nat → List Mode → Nat → Gap → List Char → Lexed
  | 0, _, _, _, _ => ⟨[], []⟩
  | _ + 1, _, _, _, [] => ⟨[], []⟩
  | fuel + 1, modes, start, gap, c :: r =>
      let (piece, taken) := match modes with
        | .string isRaw :: _ => cutString isRaw (c :: r)
        | _ => cutCode s c r
      let stop := start + Text.byteCount taken
      let rest := (c :: r).drop taken.length
      match piece with
      | .blank => lexWithin s fuel modes stop (gap.widen taken) rest
      | .comment =>
          let l := lexWithin s fuel modes stop .blank rest
          ⟨l.tokens, ⟨start, stop⟩ :: l.comments⟩
      | .token cls =>
          let text := String.ofList taken
          let t : Token := ⟨cls, text, ⟨start, stop⟩, gap, modes.head? == some .brackets⟩
          let l := lexWithin s fuel (Mode.after modes cls text) stop .none rest
          ⟨t :: l.tokens, l.comments⟩

/-- The first line, if it names a program that runs the text. -/
def interpreterLine (s : Spelling) : List Char → List Char
  | '#' :: '!' :: r =>
      if s.hasInterpreterLine then
        '#' :: '!' :: r.takeWhile fun c => c != '\n' && c != '\r'
      else []
  | _ => []

/-- What comes before the first cut: a mark of byte order, and a first line for
a program that runs the text. -/
def opening (s : Spelling) : List Char → List Char
  | '\uFEFF' :: r => '\uFEFF' :: interpreterLine s r
  | text => interpreterLine s text

/-- The tokens and comments of a text; what opens it is no part of it, but
counts where places are told. -/
def lex (s : Spelling) (text : List Char) : Lexed :=
  let front := opening s text
  lexWithin s (text.length + 1) [] (Text.byteCount front) .none (text.drop front.length)

end Syntax

end AndroidLint
