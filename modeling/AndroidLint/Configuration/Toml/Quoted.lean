/-
Quoted — texts between quotes in TOML.

One kind of quotes lets characters be written by a backslash, the other
takes them as they are; three quotes let a text run over lines.  The line
break behind the three quotes does not count, and up to two quotes may
stand right before the closing three.  Every step takes a character, so a
text of `n` characters is read in `n` steps.
-/
import AndroidLint.Configuration.Escape
import AndroidLint.Text

namespace AndroidLint

namespace Configuration

namespace Toml

/-- What is left behind a line break. -/
def afterBreak? : List Char → Option (List Char)
  | '\n' :: r => some r
  | '\r' :: '\n' :: r => some r
  | _ => none

/-- Whether a character may stand in a line: no control character but the
tab. -/
def isInLine (c : Char) : Bool :=
  c == '\t' || (32 ≤ c.toNat && c.toNat != 127)

/-- The character that a letter behind a backslash stands for. -/
def escaped? : Char → Option Char
  | 'b' => some '\x08'
  | 't' => some '\t'
  | 'n' => some '\n'
  | 'f' => some '\x0c'
  | 'r' => some '\r'
  | 'e' => some '\x1b'
  | '"' => some '"'
  | '\\' => some '\\'
  | _ => none

/-- The character that stands behind a backslash, and the rest. -/
def escape? : List Char → Option (Char × List Char)
  | [] => none
  | c :: r =>
      match digitsAfter? c with
      | some count => numbered? count r
      | none => (escaped? c).map fun e => (e, r)

/-- A text from behind its quote, and the rest. -/
def basicRest? : Nat → List Char → Option (List Char × List Char)
  | 0, _ => none
  | _ + 1, [] => none
  | _ + 1, '"' :: r => some ([], r)
  | fuel + 1, '\\' :: r => do
      let (c, r) ← escape? r
      let (s, r) ← basicRest? fuel r
      return (c :: s, r)
  | fuel + 1, c :: r =>
      if isInLine c then (basicRest? fuel r).map fun (s, r) => (c :: s, r) else none

/-- A text that is taken as it is, from behind its quote, and the rest. -/
def literalRest? (cs : List Char) : Option (List Char × List Char) :=
  let s := cs.takeWhile fun c => c != '\'' && isInLine c
  match cs.drop s.length with
  | '\'' :: r => some (s, r)
  | _ => none

/-- What is left behind a backslash at the end of a line: all up to the
next character that is no blank. -/
def afterFold? (cs : List Char) : Option (List Char) :=
  (afterBreak? (cs.dropWhile fun c => c == ' ' || c == '\t')).map fun r =>
    r.dropWhile fun c => c == ' ' || c == '\t' || c == '\n' || c == '\r'

/-- A text over lines from behind its three quotes, and the rest; with
backslashes if the quotes are double. -/
def longRest? (quote : Char) : Nat → List Char → Option (List Char × List Char)
  | 0, _ => none
  | _ + 1, [] => none
  | fuel + 1, c :: r =>
      if c == quote then
        let quotes := (c :: r).takeWhile (· == quote)
        if quotes.length < 3 then (longRest? quote fuel r).map fun (s, r) => (c :: s, r)
        else if quotes.length ≤ 5 then
          some (quotes.drop 3, (c :: r).drop quotes.length)
        else none
      else match afterBreak? (c :: r) with
        | some r => (longRest? quote fuel r).map fun (s, r) => ('\n' :: s, r)
        | none =>
            if c == '\\' && quote == '"' then
              match afterFold? r with
              | some r => longRest? quote fuel r
              | none => do
                  let (e, r) ← escape? r
                  let (s, r) ← longRest? quote fuel r
                  return (e :: s, r)
            else if isInLine c then (longRest? quote fuel r).map fun (s, r) => (c :: s, r)
            else none

/-- A text over lines from behind its three quotes, without the line break
right behind them. -/
def long? (quote : Char) (cs : List Char) : Option (List Char × List Char) :=
  longRest? quote (cs.length + 1) ((afterBreak? cs).getD cs)

/-- The text in one line that stands in front, and the rest. -/
def quoted? : List Char → Option (String × List Char)
  | '"' :: r => (basicRest? (r.length + 1) r).map fun (s, r) => (String.ofList s, r)
  | '\'' :: r => (literalRest? r).map fun (s, r) => (String.ofList s, r)
  | _ => none

/-- The text that stands in front, in one line or more, and the rest. -/
def text? : List Char → Option (String × List Char)
  | '"' :: '"' :: '"' :: r => (long? '"' r).map fun (s, r) => (String.ofList s, r)
  | '\'' :: '\'' :: '\'' :: r => (long? '\'' r).map fun (s, r) => (String.ofList s, r)
  | cs => quoted? cs

end Toml

end Configuration

end AndroidLint
