/-
Words — the words of a text and where they stand.

A word of a text is a row of characters that are not blank, between blanks or
the ends of the text (`mem_words_iff`).
-/
import AndroidLint.Proofs.Text.Bytes
import AndroidLint.Proofs.Text.Parts

namespace AndroidLint

namespace Text

/-- `Between p front back`: what stands behind `front` and before `back` has
nothing beside it but characters that satisfy `p`. -/
structure Between (p : Char → Bool) (front back : List Char) : Prop where
  before : ∀ c ∈ front.getLast?, p c = true
  behind : ∀ c ∈ back.head?, p c = true

section Pieces

variable {p : Char → Bool} {cs w : List Char}

theorem exists_between_of_mem (run : List Char) (plain : ∀ c ∈ run, p c = false)
    (mem : w ∈ (run ++ cs).splitOnP p) :
    (∀ c ∈ w, p c = false) ∧
      ∃ front back, run ++ cs = front ++ (w ++ back) ∧ Between p front back := by
  induction cs generalizing run with
  | nil =>
      rw [List.append_nil, List.splitOnP_eq_singleton plain, List.mem_singleton] at mem
      subst mem
      exact ⟨plain, [], [], rfl, nofun, nofun⟩
  | cons c cs ih =>
      cases hc : p c with
      | false =>
          rw [List.append_cons] at mem ⊢
          refine ih _ (List.forall_mem_append.mpr ⟨plain, ?_⟩) mem
          exact List.forall_mem_singleton.mpr hc
      | true =>
          rw [List.splitOnP_append_cons_of_forall_mem plain c hc] at mem
          obtain rfl | mem := List.mem_cons.mp mem
          · exact ⟨plain, [], c :: cs, rfl, nofun, by simpa using hc⟩
          · obtain ⟨plain', front, back, rest, between⟩ := ih [] (by simp) mem
            rw [List.nil_append] at rest
            refine ⟨plain', run ++ c :: front, back, by rw [rest]; simp, ?_, between.behind⟩
            rw [List.getLast?_append_cons]
            cases front with
            | nil => simpa using hc
            | cons d front => exact between.before

/-- The pieces of a text are what stands between its separators. -/
theorem mem_pieces_iff : w ∈ pieces p cs ↔
    (∀ c ∈ w, p c = false) ∧ ∃ front back, cs = front ++ (w ++ back) ∧ Between p front back := by
  rw [pieces_eq_splitOnP]
  constructor
  · exact exists_between_of_mem [] (by simp)
  · rintro ⟨plain, front, back, rfl, between⟩
    have first : w ∈ (w ++ back).splitOnP p := by
      cases back with
      | nil => rw [List.append_nil, List.splitOnP_eq_singleton plain]; exact .head _
      | cons d back =>
          rw [List.splitOnP_append_cons_of_forall_mem plain d (between.behind d rfl)]
          exact .head _
    obtain rfl | ⟨front, c, rfl⟩ := List.eq_nil_or_concat' front
    · exact first
    · rw [← List.append_cons, List.splitOnP_append_cons _ _ (between.before c (by simp))]
      exact List.mem_append_right _ first

end Pieces

/-- `StandsAt w n cs`: at the byte `n` of a text stands `w`, with blanks or nothing
on either side of it. -/
def StandsAt (w : List Char) (n : Nat) (cs : List Char) : Prop :=
  ∃ front back, cs = front ++ (w ++ back) ∧ byteCount front = n ∧ Between isBlank front back

/-- What is not empty and without blanks is a word of a text if it stands there
alone. -/
theorem mem_words_iff {w : List Char} (some : w ≠ []) (plain : ∀ c ∈ w, isBlank c = false)
    {s : String} : String.ofList w ∈ words s ↔ ∃ n, StandsAt w n s.toList := by
  have inside : String.ofList w ∈ words s ↔ w ∈ pieces isBlank s.toList := by
    simp only [words, List.mem_map, List.mem_filter, String.ofList_inj, exists_eq_right]
    simp [some]
  rw [inside, mem_pieces_iff]
  constructor
  · rintro ⟨-, front, back, whole, between⟩
    exact ⟨_, front, back, whole, rfl, between⟩
  · rintro ⟨n, front, back, whole, -, between⟩
    exact ⟨plain, front, back, whole, between⟩

/-- A row of characters without blanks that holds a word and does not reach beyond
the text that the word stands in is the word. -/
theorem Between.eq_of_within {before front w back behind b lead rest : List Char}
    (between : Between isBlank front back) (plain : ∀ c ∈ b, isBlank c = false)
    (whole : before ++ (front ++ (w ++ (back ++ behind))) = lead ++ (b ++ rest))
    (low : byteCount before ≤ byteCount lead)
    (low' : byteCount lead ≤ byteCount before + byteCount front)
    (high : byteCount before + byteCount front + byteCount w ≤ byteCount lead + byteCount b)
    (high' : byteCount lead + byteCount b ≤
      byteCount before + byteCount front + byteCount w + byteCount back) :
    lead = before ++ front ∧ b = w := by
  obtain ⟨gap, rfl, cut⟩ := append_of_byteCount_le whole low
  rw [byteCount_append] at low' high high'
  obtain ⟨x, rfl, cut'⟩ := append_of_byteCount_le cut.symm (by omega)
  rw [byteCount_append] at high high'
  rw [← List.append_assoc] at cut'
  obtain ⟨y, rfl, cut''⟩ :=
    append_of_byteCount_le cut'.symm (by rw [byteCount_append]; omega)
  rw [byteCount_append, byteCount_append] at high'
  obtain ⟨z, rfl, -⟩ := append_of_byteCount_le cut''.symm (by omega)
  -- what is beside the word in the row would be a blank
  obtain rfl : x = [] := by
    obtain rfl | ⟨x, c, rfl⟩ := List.eq_nil_or_concat' x
    · rfl
    · have blank := between.before c (by simp)
      rw [plain c (by simp)] at blank
      cases blank
  obtain rfl : y = [] := by
    obtain _ | ⟨c, y⟩ := y
    · rfl
    · have blank := between.behind c rfl
      rw [plain c (by simp)] at blank
      cases blank
  exact ⟨by simp, by simp⟩

end Text

end AndroidLint
