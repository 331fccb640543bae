/-
Reference — what a quoted value stands for is read from it.

A reference gives a character by name or by number.  A number is read
digit by digit and may not grow beyond 32 bits on the way; the code of a
character never does, and digits only make a number grow, so every numeral
for it is read (`number_of_numeral`).  Between `&` and `;` stands neither
of the two, and quotes nowhere in a spelling; so a value is read one
spelling at a time (`unescapeFrom_spelling`), whatever was chosen for each
character.
-/
import Mathlib.Data.List.Basic
import AndroidLint.Markup.Reference
import AndroidLint.Proofs.Markup.Written
import AndroidLint.Proofs.Text.Parts

namespace AndroidLint

namespace Markup

open Text (takeWhile_run)

/-! ## Numerals -/

theorem digit?_of_isDigit {d : Nat} {c : Char} (below : d < 16) (h : IsDigit d c) :
    digit? c = some d := by
  have hdigits : ∀ d < 16, digit? d.digitChar = some d ∧ digit? d.digitChar.toUpper = some d := by
    decide
  obtain rfl | rfl := h
  · exact (hdigits d below).1
  · exact (hdigits d below).2

/-- A digit is none of the marks that mean something around a number. -/
theorem isDigit_ne {d : Nat} {c : Char} (below : d < 16) (h : IsDigit d c) :
    c ≠ '+' ∧ c ≠ '-' ∧ c ≠ 'x' ∧ isReferenceInner c = true ∧ c ≠ '"' ∧ c ≠ '\'' := by
  have hdigits : ∀ d < 16, [d.digitChar, d.digitChar.toUpper].Forall fun c =>
      c ≠ '+' ∧ c ≠ '-' ∧ c ≠ 'x' ∧ isReferenceInner c = true ∧ c ≠ '"' ∧ c ≠ '\'' := by
    decide
  refine List.forall_iff_forall_mem.mp (hdigits d below) c ?_
  obtain rfl | rfl := h
  · exact List.mem_cons_self
  · exact List.mem_cons_of_mem _ List.mem_cons_self

section Numerals

variable {base : Nat}

theorem number_append (value : Nat) (cs ds : List Char) :
    number base value (cs ++ ds) = number base value cs >>= fun w => number base w ds := by
  induction cs generalizing value with
  | nil => rfl
  | cons c cs ih =>
      rw [List.cons_append, number, number]
      split
      · rfl
      · split
        · rfl
        · split
          · rfl
          · exact ih _

theorem number_digit (value : Nat) {d : Nat} {c : Char} (small : base ≤ 16) (below : d < base)
    (isDigit : IsDigit d c) (fits : value * base + d < UInt32.size) :
    number base value [c] = .ok (value * base + d) := by
  rw [number, digit?_of_isDigit (by omega) isDigit]
  simp only
  rw [if_neg (by omega), if_neg (by omega), number]

theorem number_of_numeral {n : Nat} {cs : List Char} (small : base ≤ 16)
    (numeral : Numeral base cs n) (fits : n < UInt32.size) : number base 0 cs = .ok n := by
  induction numeral with
  | digit below isDigit =>
      have h := number_digit 0 small below isDigit (by omega)
      rwa [Nat.zero_mul, Nat.zero_add] at h
  | @append cs n d c front below isDigit ih =>
      have hn : n ≤ n * base := Nat.le_mul_of_pos_right n (by omega)
      rw [number_append, ih (by omega)]
      exact number_digit _ small below isDigit fits

theorem digits_of_numeral {n : Nat} {cs : List Char} (small : base ≤ 16)
    (numeral : Numeral base cs n) : ∀ c ∈ cs, ∃ d < 16, IsDigit d c := by
  induction numeral with
  | digit below isDigit =>
      intro c mem
      obtain rfl := List.mem_singleton.mp mem
      exact ⟨_, by omega, isDigit⟩
  | append front below isDigit ih =>
      intro c mem
      obtain h | h := List.mem_append.mp mem
      · exact ih c h
      · obtain rfl := List.mem_singleton.mp h
        exact ⟨_, by omega, isDigit⟩

theorem ne_nil_of_numeral {n : Nat} {cs : List Char} (numeral : Numeral base cs n) : cs ≠ [] := by
  cases numeral with
  | digit => exact List.cons_ne_nil _ _
  | append => exact List.append_ne_nil_of_right_ne_nil _ (List.cons_ne_nil _ _)

theorem code_of_numeral {n : Nat} {cs : List Char} (small : base ≤ 16)
    (numeral : Numeral base cs n) (fits : n < UInt32.size) : code base cs = .ok n := by
  obtain ⟨c, r, rfl⟩ := List.exists_cons_of_ne_nil (ne_nil_of_numeral numeral)
  obtain ⟨d, below, isDigit⟩ := digits_of_numeral small numeral c List.mem_cons_self
  obtain ⟨plus, minus, -⟩ := isDigit_ne below isDigit
  rw [code]
  · exact number_of_numeral small numeral fits
  · exact List.cons_ne_nil _ _
  · exact fun _ h => plus (List.cons.inj h).1
  · exact fun _ h => minus (List.cons.inj h).1

end Numerals

/-! ## References -/

theorem character_of_writtenCode {c : Char} {cs : List Char} (positive : 0 < c.toNat)
    (h : writtenCode cs = .ok c.toNat) : character cs = .ok c := by
  rw [character, h]
  simp only [bind, Except.bind]
  have hvalid : c.toNat.isValidChar := c.valid
  rw [if_neg (by omega), if_pos hvalid, Char.ofNat_toNat]

theorem character_decimal {c : Char} {cs : List Char} (numeral : Numeral 10 cs c.toNat)
    (positive : 0 < c.toNat) : character cs = .ok c := by
  refine character_of_writtenCode positive ?_
  obtain ⟨e, r, rfl⟩ := List.exists_cons_of_ne_nil (ne_nil_of_numeral numeral)
  obtain ⟨d, below, isDigit⟩ := digits_of_numeral (by omega) numeral e List.mem_cons_self
  obtain ⟨-, -, noX, -⟩ := isDigit_ne below isDigit
  rw [writtenCode]
  · exact code_of_numeral (by omega) numeral c.val.toNat_lt_size
  · exact fun _ h => noX (List.cons.inj h).1

theorem character_hexadecimal {c : Char} {cs : List Char} (numeral : Numeral 16 cs c.toNat)
    (positive : 0 < c.toNat) : character ('x' :: cs) = .ok c :=
  character_of_writtenCode positive (code_of_numeral (by omega) numeral c.val.toNat_lt_size)

theorem referenced_predefined {name : String} {c : Char} (known : (name, c) ∈ predefined)
    (start : Nat) : referenced start name.toList = .ok c := by
  simp only [predefined, List.mem_cons, Prod.mk.injEq, List.not_mem_nil, or_false] at known
  rcases known with ⟨rfl, rfl⟩ | ⟨rfl, rfl⟩ | ⟨rfl, rfl⟩ | ⟨rfl, rfl⟩ | ⟨rfl, rfl⟩ <;> rfl

theorem predefined_inner {name : String} {c : Char} (known : (name, c) ∈ predefined) :
    ∀ d ∈ name.toList, isReferenceInner d = true ∧ d ≠ '"' ∧ d ≠ '\'' := by
  have h : ∀ entry ∈ predefined, entry.1.toList.Forall fun d =>
      isReferenceInner d = true ∧ d ≠ '"' ∧ d ≠ '\'' := by decide
  exact List.forall_iff_forall_mem.mp (h _ known)

/-! ## Values -/

/-- A spelling is the character itself, which begins no reference, or a
reference: what is between `&` and `;` is no end of it and holds no
quotes, and stands for the character. -/
theorem spelling_cases {quote c : Char} {raw : List Char} (h : Spelling quote c raw) :
    (raw = [c] ∧ c ≠ '&' ∧ c ≠ quote) ∨
      ∃ inner, raw = '&' :: inner ++ [';'] ∧
        (∀ d ∈ inner, isReferenceInner d = true ∧ d ≠ '"' ∧ d ≠ '\'') ∧
        ∀ start, referenced start inner = .ok c := by
  -- the digits of a number, behind the marks that announce it
  have hdigits : ∀ {base : Nat} {cs : List Char}, base ≤ 16 → Numeral base cs c.toNat →
      ∀ d ∈ cs, isReferenceInner d = true ∧ d ≠ '"' ∧ d ≠ '\'' := by
    intro base cs small numeral d mem
    obtain ⟨n, below, isDigit⟩ := digits_of_numeral small numeral d mem
    obtain ⟨-, -, -, inner⟩ := isDigit_ne below isDigit
    exact inner
  cases h with
  | itself noTag noReference noEnd => exact .inl ⟨rfl, noReference, noEnd⟩
  | entity known =>
      exact .inr ⟨_, rfl, predefined_inner known, referenced_predefined known⟩
  | decimal numeral positive =>
      refine .inr ⟨_, rfl, ?_, ?_⟩
      · exact List.forall_mem_cons.mpr ⟨by decide, hdigits (by omega) numeral⟩
      · intro start
        rw [referenced, character_decimal numeral positive]
        rfl
  | hexadecimal numeral positive =>
      refine .inr ⟨_, rfl, ?_, ?_⟩
      · refine List.forall_mem_cons.mpr ⟨by decide, List.forall_mem_cons.mpr ⟨by decide, ?_⟩⟩
        exact hdigits (by omega) numeral
      · intro start
        rw [referenced, character_hexadecimal numeral positive]
        rfl

theorem unescapeFrom_spelling {quote c : Char} {raw rest cs : List Char}
    (spelled : Spelling quote c raw) (total : Nat) (others : unescapeFrom total rest = .ok cs) :
    unescapeFrom total (raw ++ rest) = .ok (c :: cs) := by
  obtain ⟨rfl, noReference, -⟩ | ⟨inner, rfl, isInner, stands⟩ := spelling_cases spelled
  · rw [List.singleton_append, unescapeFrom, if_neg noReference, others]
    rfl
  · have htake : (inner ++ ';' :: rest).takeWhile isReferenceInner = inner :=
      takeWhile_run (fun d mem => (isInner d mem).1) rfl
    have hdrop : (inner ++ ';' :: rest).drop (inner.length + 1) = rest := by simp
    have hraw : '&' :: inner ++ [';'] ++ rest = '&' :: (inner ++ ';' :: rest) := by simp
    rw [hraw, unescapeFrom, if_pos rfl]
    simp only [htake, List.drop_left, stands, hdrop, others, bind, Except.bind]

/-- However a value is quoted, reading gives it back. -/
theorem unescape_quotable {quote : Char} {value raw : List Char} (h : Quotable quote value raw) :
    unescape raw = .ok value := by
  have hfrom : ∀ total, unescapeFrom total raw = .ok value := by
    intro total
    induction h with
    | nil => rw [unescapeFrom]
    | cons first _ ih => exact unescapeFrom_spelling first total ih
  exact hfrom _

theorem ne_quote_of_quotable {quote : Char} (quotes : quote = '"' ∨ quote = '\'')
    {value raw : List Char} (h : Quotable quote value raw) : ∀ d ∈ raw, d ≠ quote := by
  induction h with
  | nil => exact fun d mem => absurd mem List.not_mem_nil
  | cons first _ ih =>
      intro d mem
      obtain mem | mem := List.mem_append.mp mem
      · obtain ⟨rfl, -, noEnd⟩ | ⟨inner, rfl, isInner, -⟩ := spelling_cases first
        · rwa [List.mem_singleton.mp mem]
        · simp only [List.cons_append, List.mem_cons, List.mem_append, List.not_mem_nil,
            or_false] at mem
          obtain rfl | mem | rfl := mem
          · obtain rfl | rfl := quotes <;> decide
          · obtain ⟨-, noDouble, noSingle⟩ := isInner d mem
            obtain rfl | rfl := quotes
            · exact noDouble
            · exact noSingle
          · obtain rfl | rfl := quotes <;> decide
      · exact ih d mem

end Markup

end AndroidLint
