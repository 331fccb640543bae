/-
Offsets — the line and the column of every byte.

Line and column come from a search among the offsets at which lines begin.
Here they are compared with a count of the bytes before the offset: the line
feeds among them, and those behind the last one.  Both sides see the same line
feeds because the byte of a line feed is in no other character
(`mem_utf8EncodeChar_iff`), so an offset inside a character is on the line on
which the character begins.

The offsets at which lines begin increase, so the search has one answer
(`divides_ofOffset`), and the line it finds begins no later than the offset
(`exists_start`).  Equal lines begin at the same offset, so line and column give
the offset back (`ofOffset_injective`).
-/
import Mathlib.Data.List.TakeWhile
import AndroidLint.Proofs.Text.Lines

namespace AndroidLint

namespace Text

/-! ## The bytes of a text -/

/-- The byte of a line feed. -/
def lineFeed : UInt8 := 10

/-- The bytes of some characters. -/
def encoded (cs : List Char) : List UInt8 :=
  cs.flatMap String.utf8EncodeChar

theorem toList_toUTF8 (text : String) : text.toUTF8.data.toList = encoded text.toList := by
  have hbytes : text.toUTF8 = text.toList.utf8Encode := by
    rw [← String.toByteArray_ofList, String.ofList_toList]
    rfl
  rw [hbytes, List.utf8Encode, List.toList_data_toByteArray]
  rfl

@[simp]
theorem encoded_append (cs ds : List Char) : encoded (cs ++ ds) = encoded cs ++ encoded ds :=
  List.flatMap_append

@[simp]
theorem encoded_cons (c : Char) (cs : List Char) :
    encoded (c :: cs) = String.utf8EncodeChar c ++ encoded cs :=
  rfl

@[simp]
theorem length_encoded (cs : List Char) : (encoded cs).length = byteCount cs := by
  induction cs with
  | nil => rfl
  | cons c cs ih =>
      rw [encoded_cons, List.length_append, String.length_utf8EncodeChar, ih, byteCount_cons]

/-- No other character has the byte of a line feed. -/
theorem mem_utf8EncodeChar_iff {c : Char} : lineFeed ∈ String.utf8EncodeChar c ↔ c = '\n' := by
  have apart (n : Nat) (high : 128 ≤ n % 256) : lineFeed ≠ UInt8.ofNat n := by
    intro same
    have hn : 10 = n % 256 := congrArg UInt8.toNat same
    omega
  constructor
  · intro mem
    rw [String.utf8EncodeChar] at mem
    split at mem
    case isTrue ascii =>
      have hc : 10 = c.val.toNat % 256 := congrArg UInt8.toNat (List.mem_singleton.mp mem)
      exact Char.ext (UInt32.toNat_inj.mp (by change c.val.toNat = 10; omega))
    case isFalse =>
      exfalso
      split at mem
      case isTrue =>
        simp only [List.mem_cons, List.not_mem_nil, or_false] at mem
        obtain mem | mem := mem <;> exact apart _ (by omega) mem
      case isFalse =>
        split at mem
        case isTrue =>
          simp only [List.mem_cons, List.not_mem_nil, or_false] at mem
          obtain mem | mem | mem := mem <;> exact apart _ (by omega) mem
        case isFalse =>
          simp only [List.mem_cons, List.not_mem_nil, or_false] at mem
          obtain mem | mem | mem | mem := mem <;> exact apart _ (by omega) mem
  · rintro rfl
    decide

theorem count_lineFeed_encoded (cs : List Char) :
    (encoded cs).count lineFeed = cs.count '\n' := by
  induction cs with
  | nil => rfl
  | cons c cs ih =>
      rw [encoded_cons, List.count_append, ih, List.count_cons, Nat.add_comm]
      by_cases hc : c = '\n'
      · rw [hc]
        rfl
      · rw [List.count_eq_zero.mpr (mt mem_utf8EncodeChar_iff.mp hc)]
        simp [hc]

/-- The bytes behind the last line feed are those of the last line. -/
theorem takeWhile_reverse_encoded (cs : List Char) :
    ((encoded cs).reverse.takeWhile (· != lineFeed)).length =
      byteCount (cs.reverse.takeWhile (· != '\n')) := by
  induction cs using List.reverseRecOn with
  | nil => rfl
  | append_singleton cs c ih =>
      rw [encoded_append, List.reverse_append, List.reverse_append, List.reverse_singleton,
        List.singleton_append, encoded_cons, encoded, List.flatMap_nil, List.append_nil]
      by_cases hc : c = '\n'
      · rw [hc]
        rfl
      · have others : ∀ b ∈ (String.utf8EncodeChar c).reverse, (b != lineFeed) = true := by
          intro b mem
          rw [bne_iff_ne]
          rintro rfl
          exact hc (mem_utf8EncodeChar_iff.mp (List.mem_reverse.mp mem))
        rw [List.takeWhile_append_of_pos others, List.length_append, List.length_reverse,
          String.length_utf8EncodeChar, ih, List.takeWhile_cons_of_pos (by simpa using hc),
          byteCount_cons]

/-- An offset in a text is a byte of the first character behind some front. -/
theorem exists_front {cs : List Char} {offset : Nat} (inside : offset ≤ byteCount cs) :
    ∃ front back k, cs = front ++ back ∧ offset = byteCount front + k ∧
      (∀ c ∈ back.head?, k < c.utf8Size) ∧ (back = [] → k = 0) := by
  induction cs generalizing offset with
  | nil => exact ⟨[], [], 0, rfl, Nat.le_zero.mp inside, nofun, fun _ => rfl⟩
  | cons c cs ih =>
      by_cases first : offset < c.utf8Size
      · exact ⟨[], c :: cs, offset, rfl, by simp, by simpa using first, nofun⟩
      · rw [byteCount_cons] at inside
        have inside' : offset - c.utf8Size ≤ byteCount cs := by omega
        obtain ⟨front, back, k, rfl, hoffset, within, last⟩ := ih inside'
        exact ⟨c :: front, back, k, rfl, by rw [byteCount_cons]; omega, within, last⟩

end Text

namespace LineColumn

open Text (byteCount encoded lineFeed)

variable {cs : List Char} {offset : Nat}

/-! ## The count of the bytes before an offset -/

/-- Inside a character nothing is counted but its first bytes, and none of them
is a line feed. -/
theorem ofOffset_eq_count (inside : offset ≤ byteCount cs) :
    ofOffset cs offset =
      ⟨((encoded cs).take offset).count lineFeed + 1,
        (((encoded cs).take offset).reverse.takeWhile (· != lineFeed)).length + 1⟩ := by
  obtain ⟨front, back, k, rfl, rfl, within, last⟩ := Text.exists_front inside
  have htake : (encoded (front ++ back)).take (byteCount front + k) =
      encoded front ++ (encoded back).take k := by
    rw [Text.encoded_append, ← Text.length_encoded, List.take_length_add_append]
  have others : ∀ b ∈ (encoded back).take k, b ≠ lineFeed := by
    cases back with
    | nil => simp [encoded]
    | cons c back =>
        have hk := within c rfl
        rintro b mem rfl
        rw [Text.encoded_cons, List.take_append_of_le_length
          (by rw [String.length_utf8EncodeChar]; exact hk.le)] at mem
        have hc := Text.mem_utf8EncodeChar_iff.mp (List.mem_of_mem_take mem)
        obtain rfl : k = 0 := Nat.lt_one_iff.mp (by rw [hc] at hk; exact hk)
        rw [List.take_zero] at mem
        cases mem
  have hk : ((encoded back).take k).length = k := by
    rw [List.length_take, Text.length_encoded]
    cases back with
    | nil => simp [last rfl]
    | cons c back =>
        have := within c rfl
        rw [Text.byteCount_cons]
        omega
  have hline : ((encoded back).take k).count lineFeed = 0 :=
    List.count_eq_zero.mpr fun mem => others _ mem rfl
  rw [ofOffset_within front within, htake, List.count_append, hline, Text.count_lineFeed_encoded,
    List.reverse_append, List.takeWhile_append_of_pos
      (by simpa [List.mem_reverse] using others), List.length_append, List.length_reverse, hk,
    Text.takeWhile_reverse_encoded]
  simp only [LineColumn.mk.injEq, true_and]
  omega

/-! ## The search among the lines -/

/-- The offsets at which the lines of a text begin. -/
def starts (cs : List Char) : List Nat :=
  0 :: lineStarts 0 cs

/-- `Divides ns offset line`: of the offsets `ns`, the first `line` have been
reached and the others have not. -/
structure Divides (ns : List Nat) (offset line : Nat) : Prop where
  reached : ∀ n ∈ ns.take line, n ≤ offset
  ahead : ∀ n ∈ ns.drop line, offset < n

/-- Each line begins later than those before it. -/
theorem pairwise_lineStarts (offset : Nat) (cs : List Char) :
    (lineStarts offset cs).Pairwise (· < ·) := by
  induction cs generalizing offset with
  | nil => exact .nil
  | cons c cs ih =>
      rw [lineStarts]
      split
      · exact .cons (fun n mem => (bounds_of_mem_lineStarts mem).1) (ih _)
      · exact ih _

theorem lt_of_mem_dropWhile {ns : List Nat} (sorted : ns.Pairwise (· < ·)) {n : Nat}
    (mem : n ∈ ns.dropWhile (· ≤ offset)) : offset < n := by
  cases hdrop : ns.dropWhile (· ≤ offset) with
  | nil =>
      rw [hdrop] at mem
      cases mem
  | cons m ms =>
      have hm : offset < m := by
        have := List.head?_dropWhile_not (fun n => decide (n ≤ offset)) ns
        rw [hdrop] at this
        simpa using this
      have later : ∀ n ∈ ms, m < n :=
        (List.pairwise_cons.mp (hdrop ▸ sorted.sublist (List.dropWhile_sublist _))).1
      rw [hdrop] at mem
      obtain rfl | mem := List.mem_cons.mp mem
      · exact hm
      · exact hm.trans (later n mem)

/-- The line of an offset is where the search among the lines ends. -/
theorem divides_ofOffset (cs : List Char) (offset : Nat) :
    Divides (starts cs) offset (ofOffset cs offset).line := by
  have hparts : lineStarts 0 cs = (lineStarts 0 cs).takeWhile (· ≤ offset) ++
      (lineStarts 0 cs).dropWhile (· ≤ offset) := List.takeWhile_append_dropWhile.symm
  constructor
  · intro n mem
    rw [starts, ofOffset, locate, List.take_succ_cons, hparts, List.take_left'
      (by rw [← hparts])] at mem
    obtain rfl | mem := List.mem_cons.mp mem
    · exact Nat.zero_le _
    · simpa using List.mem_takeWhile_imp mem
  · intro n mem
    rw [starts, ofOffset, locate, List.drop_succ_cons, hparts, List.drop_left'
      (by rw [← hparts])] at mem
    exact lt_of_mem_dropWhile (pairwise_lineStarts 0 cs) mem

theorem getElem?_starts_append (reached later : List Nat) :
    (0 :: (reached ++ later))[reached.length]? = some (reached.getLast?.getD 0) := by
  induction reached using List.reverseRecOn with
  | nil => rfl
  | append_singleton reached n _ => simp

/-- The line of an offset begins no later, and the column counts from there. -/
theorem exists_start (cs : List Char) (offset : Nat) :
    ∃ start ≤ offset, (starts cs)[(ofOffset cs offset).line - 1]? = some start ∧
      (ofOffset cs offset).column = offset - start + 1 := by
  refine ⟨((lineStarts 0 cs).takeWhile (· ≤ offset)).getLast?.getD 0, ?_, ?_, rfl⟩
  · cases hlast : ((lineStarts 0 cs).takeWhile (· ≤ offset)).getLast? with
    | none => exact Nat.zero_le _
    | some n => simpa using List.mem_takeWhile_imp (List.mem_of_getLast? hlast)
  · have hfound := getElem?_starts_append ((lineStarts 0 cs).takeWhile (· ≤ offset))
      ((lineStarts 0 cs).dropWhile (· ≤ offset))
    rw [List.takeWhile_append_dropWhile] at hfound
    exact hfound

/-- Line and column give the offset back. -/
theorem ofOffset_injective (cs : List Char) : Function.Injective (ofOffset cs) := by
  intro offset other same
  obtain ⟨start, before, hstart, hcolumn⟩ := exists_start cs offset
  obtain ⟨start', before', hstart', hcolumn'⟩ := exists_start cs other
  rw [same, hstart'] at hstart
  obtain rfl := Option.some.inj hstart
  rw [same, hcolumn'] at hcolumn
  omega

/-! ## Both together -/

/-- **Line and column are exact.**  At every offset up to the end of a text, the
line is one more than the line feeds before it and the column one more than the
bytes behind the last of them; the line is where the search among the
beginnings of lines ends, and begins no later than the offset; and no other offset
has the same line and column. -/
theorem ofOffset_exact {text : String} {offset : Nat} (inside : offset ≤ text.utf8ByteSize) :
    let before := text.toUTF8.data.toList.take offset
    let found := ofOffset text.toList offset
    found.line = before.count lineFeed + 1 ∧
      found.column = (before.reverse.takeWhile (· != lineFeed)).length + 1 ∧
      Divides (starts text.toList) offset found.line ∧
      (∃ start ≤ offset, (starts text.toList)[found.line - 1]? = some start ∧
        found.column = offset - start + 1) ∧
      ∀ other, ofOffset text.toList other = found → other = offset := by
  intro before found
  have inside' : offset ≤ byteCount text.toList := by
    rw [← Text.utf8ByteSize_ofList, String.ofList_toList]
    exact inside
  have hcount : found = _ := ofOffset_eq_count inside'
  have hbefore : before = (encoded text.toList).take offset := by rw [← Text.toList_toUTF8]
  rw [← hbefore] at hcount
  exact ⟨congrArg LineColumn.line hcount, congrArg LineColumn.column hcount,
    divides_ofOffset _ _, exists_start _ _, fun other same => ofOffset_injective _ same⟩

/-- Between the two bytes of a character on the second line. -/
theorem ofOffset_exact_insideCharacter :
    3 ≤ "a\né\n".utf8ByteSize ∧ ofOffset "a\né\n".toList 3 = ⟨2, 2⟩ ∧
      ∀ other, ofOffset "a\né\n".toList other = ⟨2, 2⟩ → other = 3 := by
  have inside : 3 ≤ "a\né\n".utf8ByteSize := by decide
  have place : ofOffset "a\né\n".toList 3 = ⟨2, 2⟩ := by decide
  obtain ⟨-, -, -, -, only⟩ := ofOffset_exact inside
  rw [place] at only
  exact ⟨inside, place, only⟩

end LineColumn

end AndroidLint
