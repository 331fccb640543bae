/-
Text — the words, pieces and blanks of a text.

Everything here works on the characters of a text from left to right, so
that each function is a recursion on a list.  Blanks are the characters
with the Unicode property White_Space; a level is an unsigned number of
at most 32 bits.
-/

namespace AndroidLint

namespace Text

/-- The characters with the Unicode property White_Space. -/
def isBlank (c : Char) : Bool :=
  let n := c.toNat
  (9 ≤ n && n ≤ 13) || n == 0x20 || n == 0x85 || n == 0xA0 || n == 0x1680
    || (0x2000 ≤ n && n ≤ 0x200A) || n == 0x2028 || n == 0x2029 || n == 0x202F
    || n == 0x205F || n == 0x3000

/-- The pieces of a text between the characters that satisfy `p`: one
more than there are such characters. -/
def pieces (p : Char → Bool) : List Char → List (List Char)
  | [] => [[]]
  | c :: r =>
      match p c, pieces p r with
      | true, ps => [] :: ps
      | false, [] => [[c]]
      | false, w :: ps => (c :: w) :: ps

/-- The pieces of `s` between occurrences of the character `c`. -/
def splitAll (c : Char) (s : String) : List String :=
  (pieces (· == c) s.toList).map String.ofList

/-- The maximal runs of characters that are not blank. -/
def words (s : String) : List String :=
  ((pieces isBlank s.toList).filter (!·.isEmpty)).map String.ofList

/-- The words of a text, one space apart. -/
def oneLine (s : String) : String :=
  " ".intercalate (words s)

/-- `s` without its blanks. -/
def compact (s : String) : String :=
  String.ofList (s.toList.filter (!isBlank ·))

/-- A list without the elements at either end that satisfy `p`. -/
def strip (p : Char → Bool) (cs : List Char) : List Char :=
  ((cs.dropWhile p).reverse.dropWhile p).reverse

/-- `s` without the blanks at either end. -/
def trim (s : String) : String :=
  String.ofList (strip isBlank s.toList)

/-- `s` without the blanks at its end. -/
def trimEnd (s : String) : String :=
  String.ofList (s.toList.reverse.dropWhile isBlank).reverse

/-- What stands after the last `c`, the whole of `s` if there is none. -/
def afterLast (c : Char) (s : String) : String :=
  String.ofList (s.toList.reverse.takeWhile (· != c)).reverse

/-- What stands before the last `c`, nothing if there is none. -/
def beforeLast? (c : Char) (s : String) : Option String :=
  match s.toList.reverse.dropWhile (· != c) with
  | [] => none
  | _ :: r => some (String.ofList r.reverse)

/-- The two sides of the first `c`. -/
def splitFirst? (c : Char) (s : String) : Option (String × String) :=
  match s.toList.dropWhile (· != c) with
  | [] => none
  | _ :: r => some (String.ofList (s.toList.takeWhile (· != c)), String.ofList r)

/-- What stands before the first `c`, the whole of `s` if there is none. -/
def beforeFirst (c : Char) (s : String) : String :=
  String.ofList (s.toList.takeWhile (· != c))

/-- Whether `s` begins with `t`. -/
def startsWith (s t : String) : Bool :=
  t.toList.isPrefixOf s.toList

/-- Whether `s` ends with `t`. -/
def endsWith (s t : String) : Bool :=
  t.toList.isSuffixOf s.toList

/-- Whether `t` occurs in `s`. -/
def occursIn (t : List Char) : List Char → Bool
  | [] => t.isEmpty
  | c :: r => t.isPrefixOf (c :: r) || occursIn t r

/-- Whether `t` occurs in `s`. -/
def contains (s t : String) : Bool :=
  occursIn t.toList s.toList

/-- What is left of `s` after `t` at its start. -/
def afterStart? (s t : String) : Option String :=
  if startsWith s t then some (String.ofList (s.toList.drop t.length)) else none

/-- `s` with its ASCII capitals made small. -/
def lower (s : String) : String :=
  s.map Char.toLower

/-- `s` repeated `n` times. -/
def repeated (n : Nat) (s : String) : String :=
  String.join (List.replicate n s)

/-- `s` filled up with spaces on the right to `width` characters. -/
def padRight (width : Nat) (s : String) : String :=
  s ++ repeated (width - s.length) " "

/-- `s` filled up with spaces on the left to `width` characters. -/
def padLeft (width : Nat) (s : String) : String :=
  repeated (width - s.length) " " ++ s

/-- The bytes a text takes. -/
def byteCount (cs : List Char) : Nat :=
  cs.foldr (fun c n => c.utf8Size + n) 0

/-- A text without its first `n` bytes, if a character ends there. -/
def dropBytes? : Nat → List Char → Option (List Char)
  | 0, cs => some cs
  | _ + 1, [] => none
  | n + 1, c :: r =>
      if c.utf8Size ≤ n + 1 then dropBytes? (n + 1 - c.utf8Size) r else none

/-- The first `n` bytes of a text, if a character ends there. -/
def takeBytes? : Nat → List Char → Option (List Char)
  | 0, _ => some []
  | _ + 1, [] => none
  | n + 1, c :: r =>
      if c.utf8Size ≤ n + 1 then (takeBytes? (n + 1 - c.utf8Size) r).map (c :: ·) else none

/-- The bytes of a text from `start` up to `stop`, if characters end there. -/
def slice? (start stop : Nat) (cs : List Char) : Option (List Char) :=
  (dropBytes? start cs).bind (takeBytes? (stop - start))

/-- The byte at which `t` first occurs. -/
def find? (t : List Char) : List Char → Option Nat
  | [] => if t.isEmpty then some 0 else none
  | c :: r =>
      if t.isPrefixOf (c :: r) then some 0 else (find? t r).map (· + c.utf8Size)

/-- The value of a run of decimal digits. -/
def decimal (cs : List Char) : Nat :=
  cs.foldl (fun n c => 10 * n + (c.toNat - '0'.toNat)) 0

/-- A level: digits with an optional plus sign in front, below 2^32. -/
def level? (s : String) : Option Nat :=
  let ds := match s.toList with
    | '+' :: r => r
    | cs => cs
  if !ds.isEmpty && ds.all Char.isDigit && decimal ds < Nat.pow 2 32 then some (decimal ds) else none

end Text

end AndroidLint
