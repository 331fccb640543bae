/-
Bytes — parts of a text and the bytes they take.

Offsets count bytes, texts are lists of characters.  A text that is put
together of parts says where each part is: what stands behind `front`
begins at the byte `byteCount front`.  Cutting at such a byte gives the
parts back, and no two beginnings of a text have the same number of bytes,
so an offset also says which beginning it is of.

`FirstBehind t front rest` is said without offsets: `t` stands where `rest`
begins and at no place before.  `find?` answers the byte count of the
front for which that holds.
-/
import Mathlib.Data.List.Infix
import Mathlib.Data.String.Basic
import AndroidLint.Text

namespace AndroidLint

namespace Text

/-! ## Counting -/

@[simp]
theorem byteCount_nil : byteCount [] = 0 :=
  rfl

@[simp]
theorem byteCount_cons (c : Char) (cs : List Char) :
    byteCount (c :: cs) = c.utf8Size + byteCount cs :=
  rfl

@[simp]
theorem byteCount_append (cs ds : List Char) :
    byteCount (cs ++ ds) = byteCount cs + byteCount ds := by
  induction cs with
  | nil => simp
  | cons c cs ih => simp [ih, Nat.add_assoc]

theorem utf8ByteSize_ofList (cs : List Char) : (String.ofList cs).utf8ByteSize = byteCount cs := by
  rw [String.utf8ByteSize_ofList]
  induction cs with
  | nil => rfl
  | cons c cs ih => rw [String.utf8Len_cons, byteCount_cons, ih, Nat.add_comm]

theorem byteCount_pos {cs : List Char} (nonempty : cs ≠ []) : 0 < byteCount cs := by
  cases cs with
  | nil => exact absurd rfl nonempty
  | cons c cs => exact Nat.add_pos_left c.utf8Size_pos _

theorem eq_nil_of_byteCount_append_le {cs more : List Char}
    (less : byteCount (cs ++ more) ≤ byteCount cs) : more = [] := by
  by_contra some
  have positive := byteCount_pos some
  rw [byteCount_append] at less
  omega

/-- A beginning of a text with no more bytes than another is the beginning of
that. -/
theorem append_of_byteCount_le {cs ds cs' ds' : List Char} (whole : cs ++ ds = cs' ++ ds')
    (less : byteCount cs ≤ byteCount cs') : ∃ more, cs' = cs ++ more ∧ ds = more ++ ds' := by
  obtain ⟨more, rfl, rfl⟩ | ⟨more, rfl, rfl⟩ := List.append_eq_append_iff.mp whole
  · exact ⟨more, rfl, rfl⟩
  · have none := eq_nil_of_byteCount_append_le less
    exact ⟨[], by simp [none], by simp [none]⟩

/-- A beginning of a text is known by its bytes. -/
theorem append_inj_of_byteCount {cs ds cs' ds' : List Char} (whole : cs ++ ds = cs' ++ ds')
    (bytes : byteCount cs = byteCount cs') : cs = cs' ∧ ds = ds' := by
  obtain ⟨more, rfl, rfl⟩ := append_of_byteCount_le whole bytes.le
  have none := eq_nil_of_byteCount_append_le bytes.ge
  simp [none]

/-! ## Cutting -/

/-- A character takes at least one byte, and what is left for the others is what
they take. -/
theorem exists_byteCount_cons (c : Char) (cs : List Char) :
    ∃ n, byteCount (c :: cs) = n + 1 ∧ c.utf8Size ≤ n + 1 ∧ n + 1 - c.utf8Size = byteCount cs := by
  have size := c.utf8Size_pos
  refine ⟨c.utf8Size - 1 + byteCount cs, ?_, ?_, ?_⟩
  · rw [byteCount_cons]
    omega
  · omega
  · omega

theorem dropBytes?_append (cs ds : List Char) : dropBytes? (byteCount cs) (cs ++ ds) = some ds := by
  induction cs with
  | nil => rw [byteCount_nil, List.nil_append, dropBytes?]
  | cons c cs ih =>
      obtain ⟨n, bytes, fits, others⟩ := exists_byteCount_cons c cs
      rw [bytes, List.cons_append, dropBytes?, if_pos fits, others, ih]

theorem takeBytes?_append (cs ds : List Char) : takeBytes? (byteCount cs) (cs ++ ds) = some cs := by
  induction cs with
  | nil => rw [byteCount_nil, takeBytes?]
  | cons c cs ih =>
      obtain ⟨n, bytes, fits, others⟩ := exists_byteCount_cons c cs
      rw [bytes, List.cons_append, takeBytes?, if_pos fits, others, ih, Option.map_some]

/-- A part of a text is what stands between its bytes. -/
theorem slice?_append (front part back : List Char) :
    slice? (byteCount front) (byteCount front + byteCount part) (front ++ part ++ back) =
      some part := by
  rw [slice?, List.append_assoc, dropBytes?_append, Option.bind_some, Nat.add_sub_cancel_left,
    takeBytes?_append]

theorem eq_append_of_dropBytes? {n : Nat} {cs ds : List Char} (rest : dropBytes? n cs = some ds) :
    ∃ front, cs = front ++ ds ∧ byteCount front = n := by
  fun_induction dropBytes? n cs with
  | case1 cs => exact ⟨[], Option.some.inj rest, rfl⟩
  | case2 => cases rest
  | case3 n c r fits ih =>
      obtain ⟨front, rfl, bytes⟩ := ih rest
      exact ⟨c :: front, rfl, by rw [byteCount_cons]; omega⟩
  | case4 => cases rest

theorem eq_append_of_takeBytes? {n : Nat} {cs ds : List Char} (taken : takeBytes? n cs = some ds) :
    ∃ rest, cs = ds ++ rest ∧ byteCount ds = n := by
  fun_induction takeBytes? n cs generalizing ds with
  | case1 cs =>
      obtain rfl := Option.some.inj taken
      exact ⟨cs, rfl, rfl⟩
  | case2 => cases taken
  | case3 n c r fits ih =>
      obtain ⟨ds, hds, rfl⟩ := Option.map_eq_some_iff.mp taken
      obtain ⟨rest, rfl, bytes⟩ := ih hds
      exact ⟨rest, rfl, by rw [byteCount_cons]; omega⟩
  | case4 => cases taken

/-- What stands between two bytes is a part of the text. -/
theorem eq_append_of_slice? {start stop : Nat} {cs part : List Char}
    (cut : slice? start stop cs = some part) :
    ∃ front back, cs = front ++ (part ++ back) ∧ byteCount front = start ∧
      byteCount part = stop - start := by
  obtain ⟨rest, dropped, taken⟩ := Option.bind_eq_some_iff.mp cut
  obtain ⟨front, rfl, low⟩ := eq_append_of_dropBytes? dropped
  obtain ⟨back, rfl, bytes⟩ := eq_append_of_takeBytes? taken
  exact ⟨front, back, rfl, low, bytes⟩

/-! ## Searching -/

/-- `FirstBehind t front rest`: in the text `front ++ rest`, `t` begins
where `rest` begins and nowhere before. -/
def FirstBehind (t : List Char) : List Char → List Char → Prop
  | [], rest => t <+: rest
  | c :: front, rest => ¬ t <+: c :: front ++ rest ∧ FirstBehind t front rest

theorem find?_eq_none_iff {t cs : List Char} : find? t cs = none ↔ ¬ t <:+: cs := by
  induction cs with
  | nil => cases t <;> simp [find?]
  | cons c cs ih =>
      rw [find?, List.infix_cons_iff, not_or, ← ih, ← List.isPrefixOf_iff_prefix]
      by_cases begins : t.isPrefixOf (c :: cs) = true <;> simp [begins]

/-- What is found is the first occurrence. -/
theorem find?_append_eq_iff {t front rest : List Char} :
    find? t (front ++ rest) = some (byteCount front) ↔ FirstBehind t front rest := by
  induction front with
  | nil =>
      rw [FirstBehind, ← List.isPrefixOf_iff_prefix, List.nil_append, byteCount_nil]
      cases rest with
      | nil => cases t <;> simp [find?]
      | cons c rest =>
          have hpos := c.utf8Size_pos
          rw [find?]
          by_cases begins : t.isPrefixOf (c :: rest) = true
          · simp [begins]
          · cases find? t rest <;> simp [begins]
            omega
  | cons c front ih =>
      have hpos := c.utf8Size_pos
      rw [FirstBehind, ← ih, ← List.isPrefixOf_iff_prefix, List.cons_append, find?, byteCount_cons]
      by_cases begins : t.isPrefixOf (c :: (front ++ rest)) = true
      · simp [begins]
        omega
      · cases find? t (front ++ rest) <;> simp [begins]
        omega

end Text

end AndroidLint
