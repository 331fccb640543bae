/-
Lines — the line and the column of an offset.

The line of an offset is one more than the number of line ends before it,
and its column is one more than the bytes behind the last of them.  The
list of line beginnings splits where the text does: those of the front are
at most its number of bytes, those of the rest are more.
-/
import AndroidLint.Location
import AndroidLint.Proofs.Text.Bytes

namespace AndroidLint

namespace LineColumn

open Text (byteCount)

variable {offset n : Nat}

theorem lineStarts_append (offset : Nat) (front back : List Char) :
    lineStarts offset (front ++ back) =
      lineStarts offset front ++ lineStarts (offset + byteCount front) back := by
  induction front generalizing offset with
  | nil => rfl
  | cons c front ih =>
      rw [List.cons_append, lineStarts, lineStarts, ih, Text.byteCount_cons, Nat.add_assoc]
      split <;> rfl

theorem bounds_of_mem_lineStarts {cs : List Char} (mem : n ∈ lineStarts offset cs) :
    offset < n ∧ n ≤ offset + byteCount cs := by
  induction cs generalizing offset with
  | nil => cases mem
  | cons c cs ih =>
      have hpos := c.utf8Size_pos
      rw [lineStarts] at mem
      have hmem : n = offset + c.utf8Size ∨ n ∈ lineStarts (offset + c.utf8Size) cs := by
        split at mem
        case isTrue => exact List.mem_cons.mp mem
        case isFalse => exact .inr mem
      rw [Text.byteCount_cons]
      obtain rfl | mem := hmem
      · omega
      · have := ih mem
        omega

/-- Up to a byte of the first character behind a front, the lines that have begun
are those of the front. -/
theorem takeWhile_lineStarts {k : Nat} (offset : Nat) (front : List Char) {back : List Char}
    (within : ∀ c ∈ back.head?, k < c.utf8Size) :
    (lineStarts offset (front ++ back)).takeWhile (· ≤ offset + byteCount front + k) =
      lineStarts offset front := by
  have hfront : ∀ n ∈ lineStarts offset front, decide (n ≤ offset + byteCount front + k) = true :=
    fun n mem => decide_eq_true (Nat.le_add_right_of_le (bounds_of_mem_lineStarts mem).2)
  rw [lineStarts_append, List.takeWhile_append_of_pos hfront]
  cases back with
  | nil => rw [lineStarts, List.takeWhile_nil, List.append_nil]
  | cons c back =>
      have hk := within c rfl
      cases hback : lineStarts (offset + byteCount front) (c :: back) with
      | nil => rw [List.takeWhile_nil, List.append_nil]
      | cons n ns =>
          have hlt : offset + byteCount front + c.utf8Size ≤ n := by
            rw [lineStarts] at hback
            split at hback
            case isTrue => exact Nat.le_of_eq (List.cons.inj hback).1
            case isFalse =>
              exact (bounds_of_mem_lineStarts (hback ▸ List.mem_cons_self)).1.le
          rw [List.takeWhile_cons_of_neg (by simp; omega), List.append_nil]

theorem length_lineStarts (offset : Nat) (cs : List Char) :
    (lineStarts offset cs).length = cs.count '\n' := by
  induction cs generalizing offset with
  | nil => rfl
  | cons c cs ih =>
      rw [lineStarts, List.count_cons, ← ih]
      split <;> rfl

/-- A text ends behind the bytes of its last line. -/
theorem getLast?_lineStarts (cs : List Char) :
    (lineStarts 0 cs).getLast?.getD 0 + byteCount (cs.reverse.takeWhile (· != '\n')) =
      byteCount cs := by
  induction cs using List.reverseRecOn with
  | nil => rfl
  | append_singleton cs c ih =>
      rw [lineStarts_append, List.reverse_append, List.reverse_singleton, List.singleton_append,
        Text.byteCount_append, Text.byteCount_cons, Text.byteCount_nil]
      by_cases hc : c = '\n'
      · simp [lineStarts, hc]
      · simp [lineStarts, hc]
        omega

/-- The line and the column of a byte of the first character behind a front. -/
theorem ofOffset_within {k : Nat} (front : List Char) {back : List Char}
    (within : ∀ c ∈ back.head?, k < c.utf8Size) :
    ofOffset (front ++ back) (byteCount front + k) =
      ⟨front.count '\n' + 1, byteCount (front.reverse.takeWhile (· != '\n')) + k + 1⟩ := by
  have hreached := takeWhile_lineStarts 0 front within
  rw [Nat.zero_add] at hreached
  have hlast := getLast?_lineStarts front
  simp only [ofOffset, locate, hreached, length_lineStarts, LineColumn.mk.injEq, true_and]
  omega

/-- The line and the column of what stands behind a front. -/
theorem ofOffset_append (front back : List Char) :
    ofOffset (front ++ back) (byteCount front) =
      ⟨front.count '\n' + 1, byteCount (front.reverse.takeWhile (· != '\n')) + 1⟩ :=
  ofOffset_within front fun c _ => c.utf8Size_pos

end LineColumn

end AndroidLint
