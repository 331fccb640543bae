/-
RoundTrip — a value is read back from its written form.

A value is read with what stands behind it left over, so parts compose:
`ReadsBack v` says that `v` is read from its written form at any level,
with any rest that no number goes on into, and with any bound on the steps
that is not below the length of the written form.  A bound counts nesting
and items, and each of these takes at least one character.

A number is kept as it is written, so it is read back only if what is
written is a number; in `Whole` values all are natural numbers.
-/
import Mathlib.Data.List.Basic
import AndroidLint.Json.Reader
import AndroidLint.Proofs.Text.Parts

namespace AndroidLint

namespace Json

/-! ## Blanks -/

/-- A character that is passed over between values. -/
def isBlank (c : Char) : Bool :=
  c == ' ' || c == '\n' || c == '\t' || c == '\r'

theorem skip_append {blanks : List Char} (blank : ∀ c ∈ blanks, isBlank c = true)
    (cs : List Char) : skip (blanks ++ cs) = skip cs :=
  List.dropWhile_append_of_pos blank

theorem skip_cons {c : Char} (visible : isBlank c = false) (r : List Char) :
    skip (c :: r) = c :: r :=
  List.dropWhile_cons_of_neg (by rw [← isBlank, visible]; exact Bool.false_ne_true)

theorem skip_quoted (s : String) (r : List Char) : skip (quoted s ++ r) = quoted s ++ r := by
  rw [quoted, List.cons_append, skip_cons (by decide)]

theorem isBlank_newline (level : Nat) : ∀ c ∈ newline level, isBlank c = true := by
  intro c mem
  obtain rfl | mem := List.mem_cons.mp mem
  · rfl
  · rw [List.eq_of_mem_replicate mem]
    rfl

section Skipping

variable {blanks : List Char} (blank : ∀ c ∈ blanks, isBlank c = true)
include blank

theorem value?_append (fuel : Nat) (cs : List Char) :
    value? fuel (blanks ++ cs) = value? fuel cs := by
  cases fuel with
  | zero => rw [value?, value?]
  | succ fuel => rw [value?, value?, skip_append blank]

theorem items?_append (fuel : Nat) (cs : List Char) :
    items? fuel (blanks ++ cs) = items? fuel cs := by
  cases fuel with
  | zero => rw [items?, items?]
  | succ fuel => rw [items?, items?, value?_append blank]

theorem members?_append (fuel : Nat) (cs : List Char) :
    members? fuel (blanks ++ cs) = members? fuel cs := by
  cases fuel with
  | zero => rw [members?, members?]
  | succ fuel => rw [members?, members?, skip_append blank]

end Skipping

/-! ## Strings -/

theorem hexValue?_hexDigit {n : Nat} (below : n < 16) : hexValue? (hexDigit n) = some n := by
  have hdigits : ∀ n < 16, hexValue? (hexDigit n) = some n := by decide
  exact hdigits n below

theorem escapedChar?_of_control {c : Char} (control : c.toNat < 32) (r : List Char) :
    escapedChar? ('0' :: '0' :: hexDigit (c.toNat / 16) :: hexDigit (c.toNat % 16) :: r) =
      some (c, r) := by
  have high := hexValue?_hexDigit (show c.toNat / 16 < 16 by omega)
  have low := hexValue?_hexDigit (show c.toNat % 16 < 16 by omega)
  have zero : hexValue? '0' = some 0 := rfl
  have number : 4096 * 0 + 256 * 0 + 16 * (c.toNat / 16) + c.toNat % 16 = c.toNat := by omega
  have small : (c.toNat < 0xD800 || 0xE000 ≤ c.toNat) = true := by
    rw [Bool.or_eq_true, decide_eq_true_iff]
    exact .inl (by omega)
  simp only [escapedChar?, hex4?, zero, high, low, number, small, Char.ofNat_toNat, if_true,
    Option.bind_eq_bind, Option.bind_some, Option.pure_def]

/-- `Spelled c cs`: inside a string, `cs` stands for the character `c`. -/
inductive Spelled (c : Char) : List Char → Prop
  | letter {e : Char} (known : escape? e = some c) (other : e ≠ 'u') : Spelled c ['\\', e]
  | code (control : c.toNat < 32) :
      Spelled c ['\\', 'u', '0', '0', hexDigit (c.toNat / 16), hexDigit (c.toNat % 16)]
  | plain (quote : c ≠ '"') (backslash : c ≠ '\\') (printed : ¬ c.toNat < 32) : Spelled c [c]

theorem spelled_escaped (c : Char) : Spelled c (escaped c) := by
  have backspace : c.toNat = 8 → c = '\x08' := fun h => by rw [← Char.ofNat_toNat c, h]
  have feed : c.toNat = 12 → c = '\x0c' := fun h => by rw [← Char.ofNat_toNat c, h]
  rw [escaped]
  split_ifs with h₁ h₂ h₃ h₄ h₅ h₆ h₇ h₈
  · exact .letter (by rw [h₁]; rfl) (by decide)
  · exact .letter (by rw [h₂]; rfl) (by decide)
  · exact .letter (by rw [h₃]; rfl) (by decide)
  · exact .letter (by rw [h₄]; rfl) (by decide)
  · exact .letter (by rw [h₅]; rfl) (by decide)
  · exact .letter (by rw [backspace h₆]; rfl) (by decide)
  · exact .letter (by rw [feed h₇]; rfl) (by decide)
  · exact .code h₈
  · exact .plain h₁ h₂ h₈

theorem stringRest?_spelled {c : Char} {cs : List Char} (spelled : Spelled c cs) (fuel : Nat)
    (r : List Char) :
    stringRest? (fuel + 1) (cs ++ r) = (stringRest? fuel r).map fun (s, r) => (c :: s, r) := by
  cases spelled with
  | letter known other =>
      rw [List.cons_append, List.singleton_append, stringRest?, known]
      · cases stringRest? fuel r <;> rfl
      · exact other
  | code control =>
      simp only [List.cons_append, List.nil_append]
      rw [stringRest?, escapedChar?_of_control control]
      cases h : stringRest? fuel r <;> simp [h]
  | plain quote backslash printed =>
      rw [List.singleton_append, stringRest?, if_neg printed]
      · cases stringRest? fuel r <;> rfl
      · exact quote
      · exact fun _ h => absurd h backslash
      · exact fun _ _ h => absurd h backslash

/-- A string is read from behind its first quote. -/
theorem stringRest?_quoted {cs : List Char} {fuel : Nat} (enough : cs.length < fuel)
    (rest : List Char) : stringRest? fuel (cs.flatMap escaped ++ '"' :: rest) = some (cs, rest) := by
  induction cs generalizing fuel with
  | nil =>
      obtain ⟨n, rfl⟩ := Nat.exists_eq_succ_of_ne_zero (Nat.ne_of_gt enough)
      rfl
  | cons c cs ih =>
      obtain ⟨n, rfl⟩ := Nat.exists_eq_succ_of_ne_zero (Nat.ne_zero_of_lt enough)
      rw [List.flatMap_cons, List.append_assoc, stringRest?_spelled (spelled_escaped c),
        ih (Nat.lt_of_succ_lt_succ enough), Option.map_some]

theorem Spelled.length_pos {c : Char} {cs : List Char} (spelled : Spelled c cs) :
    0 < cs.length := by
  cases spelled <;> exact Nat.succ_pos _

/-- A string in quotes is longer than the string by the quotes at least. -/
theorem length_quoted (s : String) : s.toList.length + 2 ≤ (quoted s).length := by
  have inner : s.toList.length ≤ (s.toList.flatMap escaped).length := by
    induction s.toList with
    | nil => exact Nat.le_refl _
    | cons c cs ih =>
        have := (spelled_escaped c).length_pos
        rw [List.flatMap_cons, List.length_append, List.length_cons]
        omega
  rw [quoted, List.length_cons, List.length_append, List.length_singleton]
  omega

/-! ## Numbers -/

/-- `Closes rest`: no number goes on into `rest`. -/
def Closes (rest : List Char) : Prop :=
  ∀ c ∈ rest.head?, c.isDigit = false ∧ c ≠ '.' ∧ c ≠ 'e' ∧ c ≠ 'E'

theorem closes_nil : Closes [] := by
  intro c mem
  cases mem

theorem closes_cons {c : Char} (closes : c.isDigit = false ∧ c ≠ '.' ∧ c ≠ 'e' ∧ c ≠ 'E')
    (rest : List Char) : Closes (c :: rest) := by
  rintro d ⟨⟩
  exact closes

theorem closes_newline (level : Nat) (rest : List Char) : Closes (newline level ++ rest) :=
  closes_cons (by decide) _

/-- Only zero is written with a zero in front. -/
theorem eq_zero_of_head?_toDigits {n : Nat} (zero : (Nat.toDigits 10 n).head? = some '0') :
    n = 0 := by
  induction n using Nat.strongRecOn with
  | _ n ih =>
      by_cases small : n < 10
      · have digits : ∀ n < 10, n.digitChar = '0' → n = 0 := by decide
        rw [Nat.toDigits_of_lt_base small] at zero
        exact digits n small (Option.some.inj zero)
      · rw [Nat.toDigits_of_base_le (by omega) (by omega), List.head?_append,
          List.head?_eq_some_head Nat.toDigits_ne_nil, Option.some_or,
          ← List.head?_eq_some_head Nat.toDigits_ne_nil] at zero
        have := ih (n / 10) (by omega) zero
        omega

theorem isDigit_toDigits (n : Nat) : ∀ c ∈ Nat.toDigits 10 n, c.isDigit = true :=
  fun _ mem => Nat.isDigit_of_mem_toDigits (by omega) (by omega) mem

/-- Digits are read up to what closes the number. -/
theorem digits?_append {ds rest : List Char} (digits : ∀ c ∈ ds, c.isDigit = true)
    (some : ds ≠ []) (closes : Closes rest) : digits? (ds ++ rest) = .some (ds, rest) := by
  have stop : ∀ c ∈ rest.head?, c.isDigit = false := fun c mem => (closes c mem).1
  have front : (ds ++ rest).takeWhile Char.isDigit = ds := by
    rw [List.takeWhile_append_of_pos digits]
    cases rest with
    | nil => exact List.append_nil ds
    | cons c r => rw [List.takeWhile_cons_of_neg (by simp [stop c rfl]), List.append_nil]
  rw [digits?, front, Text.dropWhile_eq_of_append digits stop]
  cases ds with
  | nil => exact absurd rfl some
  | cons d ds => rfl

theorem fraction?_closes {rest : List Char} (closes : Closes rest) :
    fraction? rest = some ([], rest) := by
  cases rest with
  | nil => rfl
  | cons c r =>
      rw [fraction?]
      exact fun _ h => absurd (List.cons.inj h).1 (closes c rfl).2.1

theorem exponent?_closes {rest : List Char} (closes : Closes rest) :
    exponent? rest = some ([], rest) := by
  cases rest with
  | nil => rfl
  | cons c r =>
      obtain ⟨-, -, small, large⟩ := closes c rfl
      simp [exponent?, small, large]

theorem unsigned?_toDigits (n : Nat) {rest : List Char} (closes : Closes rest) :
    unsigned? (Nat.toDigits 10 n ++ rest) = some (Nat.toDigits 10 n, rest) := by
  have noZero : ¬ (1 < (Nat.toDigits 10 n).length ∧ (Nat.toDigits 10 n).head? = some '0') := by
    rintro ⟨long, zero⟩
    obtain rfl := eq_zero_of_head?_toDigits zero
    rw [Nat.toDigits_zero] at long
    exact absurd long (by decide)
  simp [unsigned?, digits?_append (isDigit_toDigits n) Nat.toDigits_ne_nil closes, noZero,
    fraction?_closes closes, exponent?_closes closes]

/-- A digit is neither a blank nor a mark that begins or ends another value. -/
theorem ne_of_isDigit {c : Char} (digit : c.isDigit = true) :
    ∀ d : Char, d.isDigit = false → c ≠ d := by
  rintro d no rfl
  exact Bool.false_ne_true (no.symm.trans digit)

theorem isBlank_of_isDigit {c : Char} (digit : c.isDigit = true) : isBlank c = false := by
  have other := ne_of_isDigit digit
  simp [isBlank, other ' ' rfl, other '\n' rfl, other '\t' rfl, other '\r' rfl]

/-! ## What a value begins with -/

theorem value?_digit {c : Char} (digit : c.isDigit = true) (fuel : Nat) (r : List Char) :
    value? (fuel + 1) (c :: r) =
      (unsigned? (c :: r)).map fun (n, r) => (.number (String.ofList n), r) := by
  have signless : number? (c :: r) = unsigned? (c :: r) := by
    rw [number?]
    exact fun _ h => absurd (List.cons.inj h).1 (ne_of_isDigit digit '-' rfl)
  rw [value?, skip_cons (isBlank_of_isDigit digit)]
  split
  case h_8 => rw [signless]
  case h_1 h => cases h
  all_goals
    rename_i h
    exact absurd (List.cons.inj h).1 (ne_of_isDigit digit _ rfl)

theorem value?_quote (fuel : Nat) (r : List Char) :
    value? (fuel + 1) ('"' :: r) =
      (stringRest? fuel r).map fun (s, r) => (.string (String.ofList s), r) := by
  rw [value?, skip_cons (by decide)]
  rfl

theorem value?_bracket (fuel : Nat) {r : List Char} {c : Char} {rest : List Char}
    (next : skip r = c :: rest) (more : c ≠ ']') :
    value? (fuel + 1) ('[' :: r) = (items? fuel (c :: rest)).map fun (vs, r) => (.array vs, r) := by
  rw [value?, skip_cons (by decide)]
  simp only [next]
  split
  case h_1 h => exact absurd (List.cons.inj h).1 more
  case h_2 => rfl

theorem value?_brace (fuel : Nat) {r t : List Char} {k : String} (next : skip r = quoted k ++ t) :
    value? (fuel + 1) ('\x7b' :: r) =
      (members? fuel (quoted k ++ t)).map fun (ms, r) => (.object ms, r) := by
  rw [value?, skip_cons (by decide)]
  simp only [next]
  rfl

section Parts

variable {fuel : Nat} {cs r r' r'' : List Char} {v : Value}

theorem items?_last (first : value? fuel cs = some (v, r)) (last : skip r = ']' :: r') :
    items? (fuel + 1) cs = some ([v], r') := by
  simp only [items?, first, last, Option.bind_eq_bind, Option.bind_some]
  rfl

theorem items?_more {vs : List Value} (first : value? fuel cs = some (v, r))
    (more : skip r = ',' :: r') (others : items? fuel r' = some (vs, r'')) :
    items? (fuel + 1) cs = some (v :: vs, r'') := by
  simp only [items?, first, more, others, Option.bind_eq_bind, Option.bind_some]
  rfl

/-- `Member fuel cs k v r`: with so many steps a member with the key `k` and
the value `v` is read from `cs`, and `r` is left. -/
inductive Member (fuel : Nat) (cs : List Char) (k : String) (v : Value) (r : List Char) : Prop
  | intro {s t u : List Char} (quote : skip cs = '"' :: s)
      (key : stringRest? fuel s = some (k.toList, t)) (colon : skip t = ':' :: u)
      (value : value? fuel u = some (v, r)) : Member fuel cs k v r

theorem members?_last {k : String} (first : Member fuel cs k v r) (last : skip r = '\x7d' :: r') :
    members? (fuel + 1) cs = some ([(k, v)], r') := by
  obtain ⟨quote, key, colon, value⟩ := first
  simp only [members?, quote, key, colon, value, last, Option.bind_eq_bind, Option.bind_some]
  rw [String.ofList_toList]
  rfl

theorem members?_more {k : String} {ms : List (String × Value)} (first : Member fuel cs k v r)
    (more : skip r = ',' :: r') (others : members? fuel r' = some (ms, r'')) :
    members? (fuel + 1) cs = some ((k, v) :: ms, r'') := by
  obtain ⟨quote, key, colon, value⟩ := first
  simp only [members?, quote, key, colon, value, more, others, Option.bind_eq_bind,
    Option.bind_some]
  rw [String.ofList_toList]
  rfl

end Parts

/-- `ReadsBack v`: the written form of the value `v` begins neither with a
blank nor with the end of an array, and `v` is read from it at any level,
whatever stands behind it. -/
structure ReadsBack (v : Value) : Prop where
  begins : ∀ level, ∃ c r, written level v = c :: r ∧ isBlank c = false ∧ c ≠ ']'
  reads : ∀ level fuel rest, (written level v).length ≤ fuel → Closes rest →
    value? fuel (written level v ++ rest) = some (v, rest)

/-- A value of which something is written takes at least one step. -/
theorem ReadsBack.of_step {v : Value}
    (begins : ∀ level, ∃ c r, written level v = c :: r ∧ isBlank c = false ∧ c ≠ ']')
    (reads : ∀ level fuel rest, (written level v).length ≤ fuel + 1 → Closes rest →
      value? (fuel + 1) (written level v ++ rest) = some (v, rest)) : ReadsBack v where
  begins := begins
  reads level fuel rest enough closes := by
    obtain ⟨c, r, form, -⟩ := begins level
    have long := enough
    rw [form, List.length_cons] at long
    obtain ⟨fuel, rfl⟩ : ∃ k, fuel = k + 1 := ⟨fuel - 1, by omega⟩
    exact reads level fuel rest enough closes

theorem readsBack_null : ReadsBack .null :=
  .of_step (fun level => ⟨_, _, by rw [written]; rfl, by decide⟩) fun level fuel rest _ _ => by
    rw [written]
    rfl

theorem readsBack_bool (b : Bool) : ReadsBack (.bool b) := by
  cases b with
  | false =>
      refine .of_step (fun level => ⟨_, _, by rw [written]; rfl, by decide⟩) fun _ _ _ _ _ => ?_
      rw [written]
      rfl
  | true =>
      refine .of_step (fun level => ⟨_, _, by rw [written]; rfl, by decide⟩) fun _ _ _ _ _ => ?_
      rw [written]
      rfl

theorem written_nat (level n : Nat) : written level (.nat n) = Nat.toDigits 10 n := by
  rw [Value.nat, written, Nat.toString_eq_ofList_toDigits, String.toList_ofList]

theorem readsBack_nat (n : Nat) : ReadsBack (.nat n) := by
  obtain ⟨c, r, digits⟩ := List.exists_cons_of_ne_nil (Nat.toDigits_ne_nil (b := 10) (n := n))
  have digit : c.isDigit = true := isDigit_toDigits n c (digits ▸ List.mem_cons_self)
  refine .of_step (fun level => ⟨c, r, (written_nat level n).trans digits, isBlank_of_isDigit digit,
    ne_of_isDigit digit ']' rfl⟩) fun level fuel rest _ closes => ?_
  have number := unsigned?_toDigits n closes
  rw [digits, List.cons_append] at number
  rw [written_nat, digits, List.cons_append, value?_digit digit, number, ← digits,
    Option.map_some, Value.nat, Nat.toString_eq_ofList_toDigits]

theorem readsBack_string (s : String) : ReadsBack (.string s) := by
  refine .of_step (fun level => ⟨_, _, by rw [written, quoted], by decide⟩)
    fun level fuel rest enough _ => ?_
  have long := length_quoted s
  rw [written] at enough ⊢
  rw [quoted, List.cons_append, List.append_assoc, List.singleton_append, value?_quote,
    stringRest?_quoted (by omega)]
  simp only [Option.map_some, String.ofList_toList]

/-! ### Arrays -/

theorem closes_writtenItems (level outer : Nat) (vs : List Value) (rest : List Char) :
    Closes (writtenItems level vs ++ (newline outer ++ rest)) := by
  cases vs with
  | nil => exact closes_newline outer rest
  | cons v vs =>
      rw [writtenItems]
      exact closes_cons (by decide) _

theorem items?_written {v : Value} {vs : List Value} (parts : ∀ w ∈ v :: vs, ReadsBack w)
    (level outer fuel : Nat)
    (enough : (written level v).length + (writtenItems level vs).length < fuel)
    (rest : List Char) :
    items? fuel (written level v ++ (writtenItems level vs ++ (newline outer ++ ']' :: rest))) =
      some (v :: vs, rest) := by
  induction vs generalizing v fuel with
  | nil =>
      obtain ⟨fuel, rfl⟩ : ∃ k, fuel = k + 1 := ⟨fuel - 1, by omega⟩
      have first := (parts v List.mem_cons_self).reads level fuel _ (by omega)
        (closes_writtenItems level outer [] (']' :: rest))
      refine items?_last first ?_
      rw [writtenItems, List.nil_append, skip_append (isBlank_newline outer),
        skip_cons (by decide)]
  | cons w vs ih =>
      obtain ⟨fuel, rfl⟩ : ∃ k, fuel = k + 1 := ⟨fuel - 1, by omega⟩
      have first := (parts v List.mem_cons_self).reads level fuel _ (by omega)
        (closes_writtenItems level outer (w :: vs) (']' :: rest))
      simp only [writtenItems, List.length_cons, List.length_append] at enough
      have others := (items?_append (isBlank_newline level) fuel _).trans
        (ih (fun u mem => parts u (List.mem_cons_of_mem _ mem)) fuel (by omega))
      refine items?_more first ?_ others
      simp only [writtenItems, List.cons_append, List.append_assoc]
      exact skip_cons (by decide) _

theorem readsBack_array {vs : List Value} (parts : ∀ v ∈ vs, ReadsBack v) :
    ReadsBack (.array vs) := by
  cases vs with
  | nil =>
      refine .of_step (fun level => ⟨_, _, by rw [written], by decide⟩) fun _ _ _ _ _ => ?_
      rw [written]
      rfl
  | cons v vs =>
      refine .of_step (fun level => ⟨_, _, by rw [written], by decide⟩)
        fun level fuel rest enough _ => ?_
      rw [written] at enough ⊢
      simp only [List.length_cons, List.length_append] at enough
      have items := items?_written parts (level + 1) level fuel (by omega) rest
      obtain ⟨c, r, form, visible, more⟩ := (parts v List.mem_cons_self).begins (level + 1)
      rw [form, List.cons_append] at items
      have next : skip (newline (level + 1) ++ (written (level + 1) v ++
          (writtenItems (level + 1) vs ++ (newline level ++ ']' :: rest)))) =
            c :: (r ++ (writtenItems (level + 1) vs ++ (newline level ++ ']' :: rest))) := by
        rw [skip_append (isBlank_newline _), form, List.cons_append, skip_cons visible]
      simp only [List.cons_append, List.append_assoc, List.nil_append]
      rw [value?_bracket fuel next more, items, Option.map_some]

/-! ### Objects -/

theorem closes_writtenMembers (level outer : Nat) (ms : List (String × Value))
    (rest : List Char) : Closes (writtenMembers level ms ++ (newline outer ++ rest)) := by
  cases ms with
  | nil => exact closes_newline outer rest
  | cons m ms =>
      rw [writtenMembers]
      exact closes_cons (by decide) _

/-- A member is read from its key and the written form of its value. -/
theorem ReadsBack.member {v : Value} (part : ReadsBack v) (k : String) (level fuel : Nat)
    {rest : List Char} (enoughKey : (quoted k).length ≤ fuel)
    (enough : (written level v).length ≤ fuel) (closes : Closes rest) :
    Member fuel (quoted k ++ (':' :: ' ' :: (written level v ++ rest))) k v rest := by
  have long := length_quoted k
  have space : ∀ c ∈ [' '], isBlank c = true := List.forall_mem_singleton.mpr rfl
  have value := part.reads level fuel rest enough closes
  rw [← value?_append space] at value
  rw [quoted, List.cons_append, List.append_assoc, List.singleton_append]
  exact .intro (skip_cons (by decide) _) (stringRest?_quoted (by omega) _)
    (skip_cons (by decide) _) value

theorem members?_written {k : String} {v : Value} {ms : List (String × Value)}
    (parts : ∀ m ∈ (k, v) :: ms, ReadsBack m.2) (level outer fuel : Nat)
    (enough : (quoted k).length + (written level v).length + (writtenMembers level ms).length < fuel)
    (rest : List Char) :
    members? fuel (quoted k ++ (':' :: ' ' :: (written level v ++ (writtenMembers level ms ++
      (newline outer ++ '\x7d' :: rest))))) = some ((k, v) :: ms, rest) := by
  induction ms generalizing k v fuel with
  | nil =>
      obtain ⟨fuel, rfl⟩ : ∃ k, fuel = k + 1 := ⟨fuel - 1, by omega⟩
      have part : ReadsBack v := parts (k, v) List.mem_cons_self
      have first := part.member k level fuel (by omega) (by omega)
        (closes_writtenMembers level outer [] ('\x7d' :: rest))
      refine members?_last first ?_
      rw [writtenMembers, List.nil_append, skip_append (isBlank_newline outer),
        skip_cons (by decide)]
  | cons m ms ih =>
      obtain ⟨fuel, rfl⟩ : ∃ k, fuel = k + 1 := ⟨fuel - 1, by omega⟩
      have part : ReadsBack v := parts (k, v) List.mem_cons_self
      have first := part.member k level fuel (by omega) (by omega)
        (closes_writtenMembers level outer (m :: ms) ('\x7d' :: rest))
      simp only [writtenMembers, List.length_cons, List.length_append] at enough
      have others := ih (fun n mem => parts n (List.mem_cons_of_mem _ mem)) fuel (by omega)
      rw [← members?_append (isBlank_newline level)] at others
      refine members?_more first ?_ others
      simp only [writtenMembers, List.cons_append, List.append_assoc, List.nil_append]
      exact skip_cons (by decide) _

theorem readsBack_object {ms : List (String × Value)} (parts : ∀ m ∈ ms, ReadsBack m.2) :
    ReadsBack (.object ms) := by
  cases ms with
  | nil =>
      refine .of_step (fun level => ⟨_, _, by rw [written], by decide⟩) fun _ _ _ _ _ => ?_
      rw [written]
      rfl
  | cons m ms =>
      refine .of_step (fun level => ⟨_, _, by rw [written], by decide⟩)
        fun level fuel rest enough _ => ?_
      obtain ⟨k, v⟩ := m
      rw [written] at enough ⊢
      simp only [List.length_cons, List.length_append] at enough
      have members := members?_written parts (level + 1) level fuel (by omega) rest
      simp only [List.cons_append, List.append_assoc, List.nil_append]
      rw [value?_brace fuel ((skip_append (isBlank_newline _) _).trans (skip_quoted k _)), members,
        Option.map_some]

/-! ## Whole values -/

/-- `Whole v`: every number in the value `v` is a natural number in its
decimal digits. -/
inductive Whole : Value → Prop
  | null : Whole .null
  | bool (b : Bool) : Whole (.bool b)
  | nat (n : Nat) : Whole (.nat n)
  | string (s : String) : Whole (.string s)
  | array {vs : List Value} (items : ∀ v ∈ vs, Whole v) : Whole (.array vs)
  | object {ms : List (String × Value)} (members : ∀ m ∈ ms, Whole m.2) : Whole (.object ms)

attribute [simp] Whole.null Whole.nat Whole.string

@[simp]
theorem whole_array_iff {vs : List Value} : Whole (.array vs) ↔ ∀ v ∈ vs, Whole v := by
  constructor
  · intro whole
    cases whole with
    | array items => exact items
  · exact .array

@[simp]
theorem whole_object_iff {ms : List (String × Value)} :
    Whole (.object ms) ↔ ∀ m ∈ ms, Whole m.2 := by
  constructor
  · intro whole
    cases whole with
    | object members => exact members
  · exact .object

theorem Whole.readsBack {v : Value} (whole : Whole v) : ReadsBack v := by
  induction whole with
  | null => exact readsBack_null
  | bool b => exact readsBack_bool b
  | nat n => exact readsBack_nat n
  | string s => exact readsBack_string s
  | array _ ih => exact readsBack_array ih
  | object _ ih => exact readsBack_object ih

/-- **A value is read back from its text.** -/
theorem parse?_pretty {v : Value} (whole : Whole v) : parse? (pretty v) = some v := by
  have read := whole.readsBack.reads 0 ((written 0 v).length + 1) [] (Nat.le_succ _) closes_nil
  rw [List.append_nil] at read
  rw [parse?, pretty, String.length_ofList, String.toList_ofList, read]
  rfl

end Json

end AndroidLint
