/-
Scalar — the texts of YAML.

A plain text ends where a colon with a blank behind it, a comment, or a
line that is not indented enough begins; within brackets also where one of
their indicators stands.  Texts between quotes and below a bar or an angle
follow their own rules.  Every step takes a character.
-/
import AndroidLint.Configuration.Escape
import AndroidLint.Configuration.Yaml.Cursor

namespace AndroidLint

namespace Configuration

namespace Yaml

/-! ## Plain texts -/

/-- The characters that part things within brackets. -/
def isFlowMark (c : Char) : Bool :=
  [',', '[', ']', '\x7b', '\x7d'].contains c

/-- The characters with a meaning of their own where a text would begin. -/
def isIndicator (c : Char) : Bool :=
  ['#', '&', '*', '!', '|', '>', '\'', '"', '%', '@', '\x60'].contains c

/-- Whether a plain text can begin with what follows. -/
def beginsPlain (inFlow : Bool) : List Char → Bool
  | [] => false
  | c :: r =>
      if c == '-' then !endsWord r
      else if c == '?' || c == ':' then !inFlow && !endsWord r
      else !isFlowMark c && !isIndicator c && !endsWord (c :: r)

/-- The characters up to the next blank that belong to a plain text. -/
def plainWord? (inFlow : Bool) : List Char → Option (List Char × List Char)
  | [] => some ([], [])
  | c :: r =>
      if endsWord (c :: r) || (c == ':' && endsWord r) || (inFlow && isFlowMark c) then
        some ([], c :: r)
      else if inFlow && c == ':' && r.head?.any (fun d => d == '?' || isFlowMark d) then none
      else (plainWord? inFlow r).map fun (w, r) => (c :: w, r)

/-- Whether a plain text goes on behind a gap. -/
def goesOn (inFlow : Bool) (least : Nat) (g : Gap) : Bool :=
  !(g.blanks.isEmpty && g.breaks == 0)
    && !(!inFlow && g.breaks != 0 && g.after.column < least)
    && !g.after.isAtEnd && g.after.rest.head? != some '#'

/-- The plain text at a place, indented by `least` columns where it goes
on in further lines, and the place behind it and its blanks. -/
def plain? (inFlow : Bool) (least : Nat) : Nat → Cursor → Option (List Char × Cursor)
  | 0, _ => none
  | fuel + 1, c => do
      let (w, _) ← plainWord? inFlow c.rest
      let g := Gap.here least (c.advance w.length)
      if g.hasEarlyTab then none
      else if goesOn inFlow least g then
        let (more, c) ← plain? inFlow least fuel g.after
        return (if more.isEmpty then w else w ++ g.folded ++ more, c)
      else return (w, g.after)

/-! ## Texts between quotes -/

/-- The character that a letter behind a backslash stands for. -/
def escaped? : Char → Option Char
  | '0' => some '\x00'
  | 'a' => some '\x07'
  | 'b' => some '\x08'
  | 't' => some '\t'
  | '\t' => some '\t'
  | 'n' => some '\n'
  | 'v' => some '\x0b'
  | 'f' => some '\x0c'
  | 'r' => some '\r'
  | 'e' => some '\x1b'
  | ' ' => some ' '
  | '"' => some '"'
  | '/' => some '/'
  | '\\' => some '\\'
  | 'N' => some '\u0085'
  | '_' => some '\u00a0'
  | 'L' => some '\u2028'
  | 'P' => some '\u2029'
  | _ => none

/-- The character that stands behind a backslash, and how many characters
say so. -/
def escape? : List Char → Option (Char × Nat)
  | [] => none
  | c :: r =>
      match digitsAfter? c with
      | some count => (numbered? count r).map fun (e, _) => (e, count + 1)
      | none => (escaped? c).map fun e => (e, 1)

/-- The text from behind a quote, and the place behind its end. -/
def quotedRest? (quote : Char) : Nat → Cursor → Option (List Char × Cursor)
  | 0, _ => none
  | fuel + 1, c =>
      if c.isAtEnd then none
      else match c.rest with
        | [] => none
        | d :: r =>
            if d == quote then
              if quote == '\'' && r.head? == some quote then
                (quotedRest? quote fuel (c.advance 2)).map fun (s, c) => (quote :: s, c)
              else some ([], c.advance 1)
            else if endsWord (d :: r) then
              let g := Gap.here 0 c
              (quotedRest? quote fuel g.after).map fun (s, c) => (g.folded ++ s, c)
            else if d == '\\' && quote == '"' then
              if r.head? == some '\n' then
                let g := Gap.here 0 (c.advance 1)
                (quotedRest? quote fuel g.after).map fun (s, c) =>
                  (List.replicate (g.breaks - 1) '\n' ++ s, c)
              else do
                let (e, n) ← escape? r
                let (s, c) ← quotedRest? quote fuel (c.advance (n + 1))
                return (e :: s, c)
            else (quotedRest? quote fuel (c.advance 1)).map fun (s, c) => (d :: s, c)

/-- The text between quotes at a place, and the place behind it. -/
def quoted? (c : Cursor) : Option (List Char × Cursor) :=
  match c.rest with
  | [] => none
  | d :: _ => quotedRest? d (c.rest.length + 1) (c.advance 1)

/-! ## Texts below a bar or an angle -/

/-- What becomes of the line breaks at the end of a text. -/
inductive Chomping where
  | strip
  | clip
  | keep

/-- What stands behind a bar or an angle. -/
structure BlockHeader where
  chomping : Chomping
  indent? : Option Nat

/-- The header of a text in lines. -/
def blockHeader? (cs : List Char) : Option BlockHeader :=
  let chomping? (c : Char) : Option Chomping :=
    if c == '-' then some .strip else if c == '+' then some .keep else none
  let indent? (c : Char) : Option Nat :=
    if c.isDigit && c != '0' then some (c.toNat - 48) else none
  match cs.takeWhile fun c => !endsWord [c] with
  | [] => some ⟨.clip, none⟩
  | [a] =>
      match chomping? a, indent? a with
      | some ch, _ => some ⟨ch, none⟩
      | _, some n => some ⟨.clip, some n⟩
      | _, _ => none
  | [a, b] =>
      match chomping? a, indent? b, indent? a, chomping? b with
      | some ch, some n, _, _ => some ⟨ch, some n⟩
      | _, _, some n, some ch => some ⟨ch, some n⟩
      | _, _, _, _ => none
  | _ => none

/-- The number of spaces in front. -/
def indentOf (line : List Char) : Nat :=
  (line.takeWhile (· == ' ')).length

/-- Whether a line holds nothing beyond an indentation. -/
def isVoidLine (indent : Nat) (line : List Char) : Bool :=
  line.length ≤ indent && line.all (· == ' ')

/-- The indentation of lines: the deepest of the void ones in front and the
first that is not. -/
def indentOfLines (least : Nat) : List (List Char) → Nat
  | [] => least
  | line :: rest =>
      let deeper := max least (indentOf line)
      if line.all (· == ' ') then indentOfLines deeper rest else deeper

/-- The lines that are indented far enough or void, without their
indentation, and those left. -/
def blockLines (indent : Nat) : List (List Char) → List (List Char) × List (List Char)
  | [] => ([], [])
  | line :: rest =>
      if isVoidLine indent line then
        let (ls, left) := blockLines indent rest
        ([] :: ls, left)
      else if indent ≤ indentOf line then
        let (ls, left) := blockLines indent rest
        (line.drop indent :: ls, left)
      else ([], line :: rest)

/-- Lines as one text in which a break between two lines that begin with
no blank is a space; `breaks` are those since the last line. -/
def foldedLines : (isOpen : Bool) → (breaks : Nat) → List (List Char) → List Char
  | _, _, [] => []
  | isOpen, breaks, [] :: ls => foldedLines isOpen (breaks + 1) ls
  | isOpen, breaks, line :: ls =>
      let between :=
        if isOpen && !endsWord line then
          if breaks == 1 then [' '] else List.replicate (breaks - 1) '\n'
        else List.replicate breaks '\n'
      between ++ line ++ foldedLines (!endsWord line) 1 ls

/-- The text below a bar or an angle at a place, indented by `least`
columns, and the place behind it. -/
def block? (least : Nat) (c : Cursor) : Option (List Char × Cursor) :=
  match c.rest with
  | [] => none
  | style :: r => do
      let header ← blockHeader? r
      let behind := (r.dropWhile fun c => !endsWord [c]).dropWhile fun c => c == ' ' || c == '\t'
      let behind := if behind.head? == some '#' then behind.dropWhile (· != '\n') else behind
      match behind with
      | [] => return ([], { c with rest := [], mayBeKey := true })
      | '\n' :: r => do
          let lines := Text.pieces (· == '\n') r
          let indent := match header.indent? with
            | some n => (least - 1) + n
            | none => indentOfLines (max least 1) lines
          let (taken, left) := blockLines indent lines
          let inner := (taken.reverse.dropWhile (·.isEmpty)).reverse
          let breaks := taken.length - inner.length + (if left.isEmpty then 0 else 1)
          let text :=
            if style == '|' then (List.intersperse ['\n'] inner).flatten
            else foldedLines false 0 inner
          let ending := match header.chomping with
            | .strip => 0
            | .clip => if inner.isEmpty then 0 else min breaks 1
            | .keep => if inner.isEmpty then breaks - 1 else breaks
          return (text ++ List.replicate ending '\n',
            { c with
              rest := (List.intersperse ['\n'] left).flatten
              column := 0
              line := c.line + 1 + taken.length
              mayBeKey := true })
      | _ => none

end Yaml

end Configuration

end AndroidLint
