/-
Glob — patterns for paths.

`?` stands for one byte and `*` for any number of bytes other than a
slash, `[...]` for a byte of a class, `{a,b}` for either of several
patterns, and `**` between slashes for any number of folders.  A backslash
takes its meaning from the character after it.  Patterns are matched
against the bytes of a path: each part of a pattern may end at several
places, and a path matches if the last part can end where the path does.
-/
import AndroidLint.Text

namespace AndroidLint

namespace Project

namespace Glob

/-- A part of a pattern. -/
inductive Part where
  | literal (c : Char)
  /-- `?` -/
  | one
  /-- `*` -/
  | run
  /-- `**/` at the start. -/
  | leading
  /-- `/**` at the end. -/
  | trailing
  /-- `/**/` between other parts. -/
  | between
  | set (isNegated : Bool) (ranges : List (Char × Char))
  | choice (branches : List (List Part))
deriving Inhabited

/-! ## Reading -/

/-- How a class of bytes ends. -/
inductive ClassEnd where
  | closed (ranges : List (Char × Char)) (rest : List Char)
  | unclosed
  | invalid

/-- The ranges with the last one ended anew; `none` if it would be empty. -/
def extendLast (c : Char) : List (Char × Char) → Option (List (Char × Char))
  | [] => none
  | (a, _) :: rs => if c < a then none else some ((a, c) :: rs)

/-- The ranges of a class, the last first, up to its closing bracket.  A
bracket or a hyphen that comes first, and a hyphen that comes last, stand
for themselves. -/
def classRanges (isFirst inRange : Bool) (rs : List (Char × Char)) : List Char → ClassEnd
  | [] => .unclosed
  | c :: r =>
      if c == ']' && !isFirst then
        .closed (if inRange then ('-', '-') :: rs else rs).reverse r
      else if c == '-' && !isFirst && !inRange then classRanges false true rs r
      else if inRange then
        match extendLast c rs with
        | none => .invalid
        | some rs => classRanges false false rs r
      else classRanges false false ((c, c) :: rs) r

/-- The branch being read, the last part first, and for each group around
it the branches read before, with the parts before the group. -/
structure Progress where
  current : List Part
  outer : List (List (List Part) × List Part)

/-- The progress with one more part. -/
def Progress.add (g : Progress) (t : Part) : Progress :=
  { g with current := t :: g.current }

/-- What two stars stand for, and the rest after the slash they take with
them. -/
def stars (g : Progress) (before : Option Char) (rest : List Char) : Progress × List Char :=
  let plain := ((g.add .run).add .run, rest)
  let inGroup := !g.outer.isEmpty
  if g.current.isEmpty then
    match rest with
    | [] => (g.add .leading, [])
    | '/' :: r => (g.add .leading, r)
    | _ => plain
  else if before != some '/' && !(inGroup && (before == some ',' || before == some '\x7b')) then
    plain
  else
    let close (t : Part) : Progress :=
      match g.current with
      | .leading :: _ | .trailing :: _ => g
      | ts => { g with current := t :: ts.drop 1 }
    match rest with
    | [] => (close .trailing, [])
    | '/' :: r => (close .between, r)
    | c :: _ => if inGroup && (c == ',' || c == '\x7d') then (close .trailing, rest) else plain

/-- The parts of a pattern, if it is well formed.  A class that is not
closed is an error, unless `lenient`: then its bracket and all that follow
stand for themselves. -/
def readWithin (lenient : Bool) :
    Nat → Bool → Option Char → Progress → List Char → Option (List Part)
  | 0, _, _, _, _ => none
  | _ + 1, _, _, g, [] => if g.outer.isEmpty then some g.current.reverse else none
  | fuel + 1, plainBrackets, before, g, c :: r =>
      let go (g : Progress) (r : List Char) : Option (List Part) :=
        readWithin lenient fuel plainBrackets (some c) g r
      match c, r with
      | '?', _ => go (g.add .one) r
      | '*', '*' :: r' =>
          let (g', rest) := stars g before r'
          let last := if rest.length < r'.length then '/' else '*'
          readWithin lenient fuel plainBrackets (some last) g' rest
      | '*', _ => go (g.add .run) r
      | '[', _ =>
          if plainBrackets then go (g.add (.literal '[')) r
          else
            let isNegated := r.head? == some '!' || r.head? == some '^'
            match classRanges true false [] (if isNegated then r.drop 1 else r) with
            | .closed ranges rest =>
                readWithin lenient fuel plainBrackets (some ']') (g.add (.set isNegated ranges))
                  rest
            | .unclosed =>
                if lenient then
                  readWithin lenient fuel true (some '[') (g.add (.literal '[')) r
                else none
            | .invalid => none
      | '\x7b', _ => go ⟨[], ([], g.current) :: g.outer⟩ r
      | '\x7d', _ =>
          match g.outer with
          | [] => none
          | (branches, parts) :: outer =>
              go ⟨.choice (g.current.reverse :: branches).reverse :: parts, outer⟩ r
      | ',', _ =>
          match g.outer with
          | [] => go (g.add (.literal ',')) r
          | (branches, parts) :: outer =>
              go ⟨[], (g.current.reverse :: branches, parts) :: outer⟩ r
      | '\\', [] => none
      | '\\', d :: r' => readWithin lenient fuel plainBrackets (some d) (g.add (.literal d)) r'
      | c, _ => go (g.add (.literal c)) r

/-- The parts of a pattern, if it is well formed. -/
def read? (lenient : Bool) (pattern : String) : Option (List Part) :=
  readWithin lenient (pattern.length + 1) false none ⟨[], []⟩ pattern.toList

/-! ## Matching -/

/-- The bytes of a text. -/
def bytes (text : String) : List UInt8 :=
  text.toList.flatMap String.utf8EncodeChar

/-- The byte of a slash. -/
def slash : UInt8 := 47

/-- Whether a run over several folders may pass a byte. -/
def isPassed (b : UInt8) : Bool :=
  b != 10

/-- What is left after each number of bytes that satisfy `p`. -/
def tails (p : UInt8 → Bool) : List UInt8 → List (List UInt8)
  | [] => [[]]
  | b :: r => (b :: r) :: if p b then tails p r else []

/-- What is left after each slash. -/
def afterSlashes (s : List UInt8) : List (List UInt8) :=
  (tails isPassed s).filterMap fun t =>
    match t with
    | b :: r => if b == slash then some r else none
    | [] => none

/-- Whether a byte is in a range of characters.  The bytes of a character
of several bytes stand one by one, and the range is that between the last
byte of its first end and the first byte of its other. -/
def inRange (b : UInt8) (r : Char × Char) : Bool :=
  let lo := String.utf8EncodeChar r.1
  let hi := String.utf8EncodeChar r.2
  if r.1 == r.2 then lo.contains b
  else (lo.dropLast ++ hi.drop 1).contains b || (lo.getLastD 0 ≤ b && b ≤ hi.headD 0)

/-- What is left after a text. -/
def afterBytes? : List UInt8 → List UInt8 → Option (List UInt8)
  | [], s => some s
  | _ :: _, [] => none
  | a :: t, b :: s => if a == b then afterBytes? t s else none

mutual

/-- Where a part may end in a path. -/
def ends (s : List UInt8) : Part → List (List UInt8)
  | .literal c => (afterBytes? (String.utf8EncodeChar c) s).toList
  | .one =>
      match s with
      | [] => []
      | b :: r => if b == slash then [] else [r]
  | .run => tails (· != slash) s
  | .leading => s :: afterSlashes s
  | .trailing =>
      match s with
      | [] => []
      | b :: r => if b == slash then tails isPassed r else []
  | .between =>
      match s with
      | [] => []
      | b :: r => if b == slash then r :: afterSlashes r else []
  | .set isNegated ranges =>
      match s with
      | [] => []
      | b :: r => if ranges.any (inRange b) != isNegated then [r] else []
  | .choice branches => if branches.all List.isEmpty then [s] else endsOfAny s branches

/-- Where parts one after the other may end. -/
def endsOfAll (s : List UInt8) : List Part → List (List UInt8)
  | [] => [s]
  | t :: ts => (ends s t).flatMap fun r => endsOfAll r ts

/-- Where branches that are not empty may end. -/
def endsOfAny (s : List UInt8) : List (List Part) → List (List UInt8)
  | [] => []
  | ts :: rest => (if ts.isEmpty then [] else endsOfAll s ts) ++ endsOfAny s rest

end

/-- Whether a path matches a pattern; two stars alone match every path. -/
def isMatch (pattern : List Part) (path : String) : Bool :=
  match pattern with
  | [.leading] => true
  | _ => (endsOfAll (bytes path) pattern).any (·.isEmpty)

end Glob

end Project

end AndroidLint
