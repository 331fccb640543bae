/-
Gaps — what stands between the matches of a pattern.

A pattern of plain letters matches where it occurs, and who looks for all of its
matches goes through the text from the left and on behind each match.  The gaps
are what is left of the text, one more than there are matches (`gaps`), and to
replace every match is to put another text between them (`replaced`).

An occurrence is passed over if it overlaps with a match before it.  That does
not happen to a pattern that no end of itself begins (`Borderless`): where such
a pattern occurs the text falls into two, and has the gaps of both
(`gaps_append`).
-/
import Mathlib.Data.List.Infix
import AndroidLint.Text

namespace AndroidLint

namespace Text

/-- The gaps of a text of which the first `skip` characters belong to a match. -/
def gapsFrom (w : List Char) : Nat → List Char → List (List Char)
  | _, [] => [[]]
  | skip + 1, _ :: cs => gapsFrom w skip cs
  | 0, c :: cs =>
      if w.isPrefixOf (c :: cs) then [] :: gapsFrom w (w.length - 1) cs
      else (gapsFrom w 0 cs).modifyHead (c :: ·)

/-- What stands between the matches of a pattern, the leftmost first. -/
def gaps (w cs : List Char) : List (List Char) :=
  gapsFrom w 0 cs

/-- A text with every match of a pattern replaced. -/
def replaced (w v cs : List Char) : List Char :=
  v.intercalate (gaps w cs)

/-- `Borderless w`: no end of the pattern, but for the whole, is a beginning of it. -/
def Borderless (w : List Char) : Prop :=
  ∀ n < w.length, 0 < n → ¬ w.drop n <+: w

section Gaps

variable {w v cs ds : List Char} {skip : Nat}

theorem gapsFrom_ne_nil (w : List Char) (skip : Nat) (cs : List Char) : gapsFrom w skip cs ≠ [] := by
  fun_induction gapsFrom w skip cs with
  | case1 => exact List.cons_ne_nil _ _
  | case2 _ _ _ ih => exact ih
  | case3 => exact List.cons_ne_nil _ _
  | case4 c cs _ ih =>
      obtain ⟨g, gs, same⟩ := List.exists_cons_of_ne_nil ih
      rw [same]
      exact List.cons_ne_nil _ _

theorem gaps_ne_nil (w cs : List Char) : gaps w cs ≠ [] :=
  gapsFrom_ne_nil w 0 cs

theorem length_gaps_pos (w cs : List Char) : 0 < (gaps w cs).length :=
  List.length_pos_iff.mpr (gaps_ne_nil w cs)

/-- The search goes on behind a match. -/
theorem gapsFrom_length (w front cs : List Char) :
    gapsFrom w front.length (front ++ cs) = gaps w cs := by
  induction front with
  | nil => rfl
  | cons c front ih => exact ih

theorem gaps_self_append (some : w ≠ []) (cs : List Char) : gaps w (w ++ cs) = [] :: gaps w cs := by
  obtain ⟨c, w, rfl⟩ := List.exists_cons_of_ne_nil some
  have begins : (c :: w).isPrefixOf (c :: (w ++ cs)) = true :=
    List.isPrefixOf_iff_prefix.mpr (List.prefix_append _ _)
  rw [List.cons_append, gaps, gapsFrom, if_pos begins, List.length_cons, Nat.add_sub_cancel,
    gapsFrom_length]

theorem gaps_cons {c : Char} (begins : ¬ w <+: c :: cs) :
    gaps w (c :: cs) = (gaps w cs).modifyHead (c :: ·) := by
  rw [← List.isPrefixOf_iff_prefix] at begins
  rw [gaps, gapsFrom, if_neg begins, gaps]

theorem intercalate_gapsFrom (some : w ≠ []) (skip : Nat) (cs : List Char) :
    w.intercalate (gapsFrom w skip cs) = cs.drop skip := by
  fun_induction gapsFrom w skip cs with
  | case1 skip => rw [List.drop_nil, List.intercalate_singleton]
  | case2 skip _ cs ih => exact ih
  | case3 c cs begins ih =>
      obtain ⟨rest, whole⟩ := List.isPrefixOf_iff_prefix.mp begins
      obtain ⟨d, w, rfl⟩ := List.exists_cons_of_ne_nil some
      rw [List.cons_append] at whole
      obtain ⟨rfl, rfl⟩ := List.cons.inj whole
      rw [List.intercalate_cons_of_ne_nil (gapsFrom_ne_nil _ _ _), ih, List.length_cons,
        Nat.add_sub_cancel, List.drop_left]
      rfl
  | case4 c cs _ ih =>
      obtain ⟨g, gs, same⟩ := List.exists_cons_of_ne_nil (gapsFrom_ne_nil w 0 cs)
      rw [same, List.drop_zero] at ih
      rw [same, List.modifyHead_cons, List.drop_zero, ← ih]
      cases gs with
      | nil => rw [List.intercalate_singleton, List.intercalate_singleton]
      | cons h gs => rw [List.intercalate_cons_cons, List.intercalate_cons_cons]; rfl

/-- The gaps with the pattern between them are the text. -/
theorem intercalate_gaps (some : w ≠ []) (cs : List Char) : w.intercalate (gaps w cs) = cs :=
  intercalate_gapsFrom some 0 cs

/-- Nothing matches just if the pattern does not occur. -/
theorem length_gaps_eq_one_iff (some : w ≠ []) : (gaps w cs).length = 1 ↔ ¬ w <:+: cs := by
  induction cs with
  | nil => simpa [gaps, gapsFrom] using some
  | cons c cs ih =>
      rw [List.infix_cons_iff, not_or]
      by_cases begins : w <+: c :: cs
      · obtain ⟨rest, whole⟩ := begins
        have more := length_gaps_pos w rest
        rw [← whole, gaps_self_append some, List.length_cons]
        refine iff_of_false (by omega) fun apart => apart.1 (List.prefix_append _ _)
      · rw [gaps_cons begins, List.length_modifyHead, ih]
        exact (and_iff_right begins).symm

theorem gaps_eq_singleton_iff (some : w ≠ []) : gaps w cs = [cs] ↔ ¬ w <:+: cs := by
  rw [← length_gaps_eq_one_iff some]
  constructor
  · intro alone
    rw [alone, List.length_singleton]
  · intro alone
    obtain ⟨g, same⟩ := List.length_eq_one_iff.mp alone
    have whole := intercalate_gaps some cs
    rw [same, List.intercalate_singleton] at whole
    rw [same, whole]

/-! ## A pattern that does not overlap with itself -/

/-- An occurrence of a borderless pattern does not reach into one that follows. -/
theorem Borderless.prefix_of_prefix (apart : Borderless w) {c : Char}
    (begins : w <+: c :: cs ++ (w ++ ds)) : w <+: c :: cs := by
  by_cases short : w.length ≤ (c :: cs).length
  · exact List.prefix_of_prefix_length_le begins (List.prefix_append _ _) short
  -- otherwise the pattern ends in what the other occurrence begins with
  · have front : c :: cs <+: w :=
      List.prefix_of_prefix_length_le (List.prefix_append _ _) begins (by omega)
    obtain ⟨u, whole⟩ := front
    have size := congrArg List.length whole
    have inner : u <+: w ++ ds := by
      rw [← whole, List.prefix_append_right_inj, whole] at begins
      exact begins
    have ending : u = w.drop (c :: cs).length := by rw [← whole, List.drop_left]
    rw [List.length_append] at size
    refine absurd ?_ (apart (c :: cs).length (by omega) (Nat.succ_pos _))
    rw [← ending]
    exact List.prefix_of_prefix_length_le inner (List.prefix_append _ _) (by omega)

theorem gapsFrom_append (some : w ≠ []) (apart : Borderless w) (within : skip ≤ cs.length) :
    gapsFrom w skip (cs ++ (w ++ ds)) = gapsFrom w skip cs ++ gaps w ds := by
  induction cs generalizing skip with
  | nil =>
      obtain rfl : skip = 0 := Nat.le_zero.mp within
      exact gaps_self_append some ds
  | cons c cs ih =>
      obtain _ | skip := skip
      case succ => exact ih (Nat.le_of_succ_le_succ within)
      by_cases begins : w <+: c :: cs
      · have begins' : w <+: c :: (cs ++ (w ++ ds)) := begins.trans (List.prefix_append _ _)
        have size := begins.length_le
        rw [List.length_cons] at size
        rw [List.cons_append, gapsFrom, gapsFrom, if_pos (List.isPrefixOf_iff_prefix.mpr begins),
          if_pos (List.isPrefixOf_iff_prefix.mpr begins'), ih (by omega), List.cons_append]
      · have begins' : ¬ w <+: c :: (cs ++ (w ++ ds)) := fun more =>
          begins (apart.prefix_of_prefix more)
        obtain ⟨g, gs, same⟩ := List.exists_cons_of_ne_nil (gapsFrom_ne_nil w 0 cs)
        have split := ih (Nat.zero_le _)
        have both := gaps_cons begins'
        rw [gaps, gaps, split, same] at both
        have front := gaps_cons begins
        rw [gaps, gaps, same] at front
        rw [List.cons_append, both, front]
        rfl

/-- **Where a borderless pattern occurs the text falls into two**, and has the gaps
of both: the search stops there, whatever it finds before. -/
theorem gaps_append (some : w ≠ []) (apart : Borderless w) (cs ds : List Char) :
    gaps w (cs ++ (w ++ ds)) = gaps w cs ++ gaps w ds :=
  gapsFrom_append some apart (Nat.zero_le _)

/-- An occurrence is the only match just if the pattern occurs on neither side of
it. -/
theorem gaps_append_eq_iff (some : w ≠ []) (apart : Borderless w) :
    gaps w (cs ++ (w ++ ds)) = [cs, ds] ↔ ¬ w <:+: cs ∧ ¬ w <:+: ds := by
  rw [gaps_append some apart, ← gaps_eq_singleton_iff some, ← gaps_eq_singleton_iff some]
  constructor
  · intro two
    have size := congrArg List.length two
    have first := length_gaps_pos w cs
    have last := length_gaps_pos w ds
    rw [List.length_append] at size
    have one : (gaps w cs).length = [cs].length := by
      simp only [List.length_cons, List.length_nil] at size ⊢
      omega
    exact List.append_inj (show gaps w cs ++ gaps w ds = [cs] ++ [ds] from two) one
  · rintro ⟨first, last⟩
    rw [first, last]
    rfl

end Gaps

/-! ## Replacing -/

section Replaced

variable {w v cs ds : List Char}

theorem intercalate_append {gs hs : List (List Char)} (some : gs ≠ []) (some' : hs ≠ []) :
    v.intercalate (gs ++ hs) = v.intercalate gs ++ (v ++ v.intercalate hs) := by
  induction gs with
  | nil => exact absurd rfl some
  | cons g gs ih =>
      cases gs with
      | nil =>
          rw [List.singleton_append, List.intercalate_cons_of_ne_nil some', List.intercalate_singleton,
            List.append_assoc]
      | cons h gs =>
          rw [List.cons_append, List.cons_append, List.intercalate_cons_cons, ← List.cons_append,
            ih (List.cons_ne_nil _ _), List.intercalate_cons_cons]
          simp only [List.append_assoc]

/-- On either side of an occurrence is replaced what is replaced there by itself. -/
theorem replaced_append (some : w ≠ []) (apart : Borderless w) (v cs ds : List Char) :
    replaced w v (cs ++ (w ++ ds)) = replaced w v cs ++ (v ++ replaced w v ds) := by
  rw [replaced, gaps_append some apart,
    intercalate_append (gaps_ne_nil w cs) (gaps_ne_nil w ds)]
  rfl

/-- Longer separators make a longer text, where there are any. -/
theorem length_intercalate_le (longer : w.length < v.length) (gs : List (List Char)) :
    (w.intercalate gs).length + (gs.length - 1) ≤ (v.intercalate gs).length := by
  induction gs with
  | nil => rfl
  | cons g gs ih =>
      cases gs with
      | nil => simp
      | cons h gs =>
          rw [List.intercalate_cons_cons, List.intercalate_cons_cons]
          simp only [List.length_append, List.length_cons] at ih ⊢
          omega

/-- A replacement that is longer makes the text longer wherever it changes it. -/
theorem length_le_length_replaced (some : w ≠ []) (longer : w.length < v.length)
    (cs : List Char) : cs.length + ((gaps w cs).length - 1) ≤ (replaced w v cs).length := by
  have size := length_intercalate_le longer (gaps w cs)
  rwa [intercalate_gaps some] at size

/-- A longer replacement leaves a text as it is just if the pattern does not occur. -/
theorem replaced_eq_self_iff (some : w ≠ []) (longer : w.length < v.length) :
    replaced w v cs = cs ↔ ¬ w <:+: cs := by
  constructor
  · intro same
    have size := length_le_length_replaced some longer cs
    have first := length_gaps_pos w cs
    rw [same] at size
    rw [← length_gaps_eq_one_iff some]
    omega
  · intro apart
    rw [replaced, (gaps_eq_singleton_iff some).mpr apart, List.intercalate_singleton]

/-- Replacing every match changes an occurrence and nothing else just if the pattern
occurs on neither side of it. -/
theorem replaced_append_eq_iff (some : w ≠ []) (apart : Borderless w)
    (longer : w.length < v.length) :
    replaced w v (cs ++ (w ++ ds)) = cs ++ (v ++ ds) ↔ ¬ w <:+: cs ∧ ¬ w <:+: ds := by
  rw [replaced_append some apart, ← replaced_eq_self_iff some longer,
    ← replaced_eq_self_iff some longer]
  constructor
  · intro same
    have first := length_le_length_replaced some longer cs
    have last := length_le_length_replaced some longer ds
    have size := congrArg List.length same
    simp only [List.length_append] at size
    obtain ⟨front, rest⟩ := List.append_inj same (by omega)
    exact ⟨front, (List.append_inj rest rfl).2⟩
  · rintro ⟨first, last⟩
    rw [first, last]

end Replaced

end Text

end AndroidLint
