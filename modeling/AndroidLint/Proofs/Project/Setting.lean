/-
Setting — what sets the level in a build script.

A setting is a word of two forms with a number behind it, and what parts them is
blanks with at most one sign among them (`IsSetting`).  The number is read off a
script exactly where the script begins with a setting to it
(`setsHere?_eq_some_iff`).

A script that is cut in two is cut in front of a setting or behind it, or inside
of it, and then the setting reaches from the first part into the second
(`Sets.cut`).  That does not happen in front of a character that no setting holds
(`sets_append_cons_iff`).
-/
import Mathlib.Data.List.Basic
import AndroidLint.Project.MinSdk
import AndroidLint.Proofs.Text.Parts

namespace AndroidLint

namespace Project

open Text (isBlank isDecimalDigit)

/-! ## What a setting is -/

/-- Blanks and nothing else, over any number of lines. -/
def IsGap (cs : List Char) : Prop :=
  ∀ c ∈ cs, isBlank c = true

/-- The signs of an assignment, one of which is none. -/
def signs : List (List Char) :=
  [[], ['='], ['(']]

/-- What may part a word from its number: blanks with at most one sign among them,
but not nothing. -/
structure IsAssignment (between : List Char) : Prop where
  some : between ≠ []
  signed : ∃ front sign back, between = front ++ (sign ++ back) ∧ IsGap front ∧ sign ∈ signs ∧
    IsGap back

/-- Digits, one at least. -/
structure IsNumber (ds : List Char) : Prop where
  some : ds ≠ []
  digits : ∀ c ∈ ds, isDecimalDigit c = true

/-- A text that ends the number before it. -/
def EndsNumber (rest : List Char) : Prop :=
  ∀ c ∈ rest.head?, isDecimalDigit c = false

/-- The words that set a level. -/
def settingWords : List (List Char) :=
  ["minSdkVersion".toList, "minSdk".toList]

/-- `IsSetting text ds`: the text sets the level to the number `ds`. -/
structure IsSetting (text ds : List Char) : Prop where
  number : IsNumber ds
  written : ∃ word ∈ settingWords, ∃ between, IsAssignment between ∧ text = word ++ (between ++ ds)

/-- `Sets cs ds`: a script begins with a setting to the number `ds`. -/
def Sets (cs ds : List Char) : Prop :=
  ∃ text rest, cs = text ++ rest ∧ IsSetting text ds ∧ EndsNumber rest

section Characters

variable {text between ds : List Char} {c : Char}

theorem isBlank_eq_false_of_digit (digit : isDecimalDigit c = true) :
    isBlank c = false := by
  have apart : ∀ z ∈ Text.zeros, ∀ i < 10, (9 ≤ z + i && z + i ≤ 13 || z + i == 0x20
      || z + i == 0x85 || z + i == 0xA0 || z + i == 0x1680
      || 0x2000 ≤ z + i && z + i ≤ 0x200A || z + i == 0x2028 || z + i == 0x2029
      || z + i == 0x202F || z + i == 0x205F || z + i == 0x3000) = false := by
    decide
  rw [isDecimalDigit, List.any_eq_true] at digit
  obtain ⟨z, mem, row⟩ := digit
  rw [Bool.and_eq_true, decide_eq_true_eq, decide_eq_true_eq] at row
  have place : c.toNat = z + (c.toNat - z) := by omega
  rw [isBlank, place]
  exact apart z mem _ (by omega)

theorem IsNumber.exists_cons (number : IsNumber ds) :
    ∃ d r, ds = d :: r ∧ isDecimalDigit d = true ∧ isBlank d = false := by
  obtain ⟨d, r, rfl⟩ := List.exists_cons_of_ne_nil number.some
  have digit := number.digits d (.head _)
  exact ⟨d, r, rfl, digit, isBlank_eq_false_of_digit digit⟩

theorem IsAssignment.mem (assignment : IsAssignment between) (c : Char) (mem : c ∈ between) :
    isBlank c = true ∨ c ∈ ['=', '('] := by
  obtain ⟨front, sign, back, rfl, hfront, hsign, hback⟩ := assignment.signed
  obtain inFront | inSign | inBack := by simpa only [List.mem_append] using mem
  · exact .inl (hfront c inFront)
  · simp only [signs, List.mem_cons, List.not_mem_nil, or_false] at hsign
    obtain rfl | rfl | rfl := hsign
    · cases inSign
    · exact .inr (List.mem_append_left ['('] inSign)
    · exact .inr (List.mem_append_right ['='] inSign)
  · exact .inl (hback c inBack)

theorem IsAssignment.isDecimalDigit_eq_false (assignment : IsAssignment between) (c : Char)
    (mem : c ∈ between) : isDecimalDigit c = false := by
  obtain blank | sign := assignment.mem c mem
  · cases digit : isDecimalDigit c with
    | false => rfl
    | true =>
        rw [isBlank_eq_false_of_digit digit] at blank
        cases blank
  · simp only [List.mem_cons, List.not_mem_nil, or_false] at sign
    obtain rfl | rfl := sign
    · rfl
    · rfl

end Characters

/-! ## How a setting is read -/

/-- The number behind blanks. -/
def number? (cs : List Char) : Option (List Char) :=
  match (cs.dropWhile isBlank).takeWhile isDecimalDigit with
  | [] => none
  | ds => some ds

/-- What stands behind a sign. -/
def unsigned : List Char → List Char
  | '=' :: r => r
  | '(' :: r => r
  | r => r

/-- The number to which a script sets the level at its very beginning. -/
def setsHere? (cs : List Char) : Option (List Char) :=
  if "minSdkVersion".toList.isPrefixOf cs then assigned? (cs.drop "minSdkVersion".toList.length)
  else if "minSdk".toList.isPrefixOf cs then assigned? (cs.drop "minSdk".toList.length)
  else none

section Reading

variable {cs ds : List Char}

theorem setLevel?_eq (cs : List Char) : setLevel? cs = setsHere? (cs.dropWhile isBlank) := rfl

theorem number?_eq_some_iff : number? cs = some ds ↔
    ∃ gap rest, cs = gap ++ (ds ++ rest) ∧ IsGap gap ∧ IsNumber ds ∧ EndsNumber rest := by
  constructor
  · intro found
    cases taken : (cs.dropWhile isBlank).takeWhile isDecimalDigit with
    | nil =>
        rw [number?, taken] at found
        cases found
    | cons d r =>
        rw [number?, taken] at found
        obtain rfl := Option.some.inj found
        refine ⟨cs.takeWhile isBlank, (cs.dropWhile isBlank).dropWhile isDecimalDigit, ?_,
          fun c mem => List.mem_takeWhile_imp mem,
          ⟨List.cons_ne_nil d r, fun c mem => ?_⟩, Text.head?_dropWhile _ _⟩
        · rw [← taken, List.takeWhile_append_dropWhile, List.takeWhile_append_dropWhile]
        · rw [← taken] at mem
          exact List.mem_takeWhile_imp mem
  · rintro ⟨gap, rest, rfl, blank, number, ends⟩
    obtain ⟨d, r, rfl, digit, noBlank⟩ := number.exists_cons
    rw [number?, List.cons_append, Text.dropWhile_run blank noBlank, ← List.cons_append,
      Text.takeWhile_eq_of_append number.digits ends]

theorem assigned?_cons (c : Char) (r : List Char) :
    assigned? (c :: r) =
      if isDecimalDigit c then none else number? (unsigned ((c :: r).dropWhile isBlank)) := by
  cases digit : isDecimalDigit c with
  | true => rw [assigned?, digit]; rfl
  | false =>
      rw [assigned?, digit, if_neg Bool.false_ne_true, if_neg Bool.false_ne_true]
      generalize (c :: r).dropWhile isBlank = rest
      split
      case h_1 => rfl
      case h_2 => rfl
      case h_3 noEqual noBracket => rw [unsigned.eq_3 rest noEqual noBracket]; rfl

theorem exists_sign (cs : List Char) : ∃ sign ∈ signs, cs = sign ++ unsigned cs := by
  unfold unsigned
  split
  · exact ⟨['='], by simp [signs], rfl⟩
  · exact ⟨['('], by simp [signs], rfl⟩
  · exact ⟨[], by simp [signs], rfl⟩

theorem unsigned_of_digit {d : Char} (digit : isDecimalDigit d = true) (r : List Char) :
    unsigned (d :: r) = d :: r := by
  unfold unsigned
  split
  case h_1 same =>
    rw [(List.cons.inj same).1] at digit
    cases digit
  case h_2 same =>
    rw [(List.cons.inj same).1] at digit
    cases digit
  case h_3 => rfl

/-- What is behind the sign begins with the number, or with blanks before it. -/
theorem number?_unsigned {between rest : List Char} (assignment : IsAssignment between)
    (number : IsNumber ds) (ends : EndsNumber rest) :
    number? (unsigned ((between ++ (ds ++ rest)).dropWhile isBlank)) = some ds := by
  obtain ⟨front, sign, back, rfl, hfront, mem, hback⟩ := assignment.signed
  have assigned := number?_eq_some_iff.mpr ⟨back, rest, rfl, hback, number, ends⟩
  rw [List.append_assoc, List.append_assoc]
  simp only [signs, List.mem_cons, List.not_mem_nil, or_false] at mem
  obtain rfl | rfl | rfl := mem
  · obtain ⟨d, r, rfl, digit, noBlank⟩ := number.exists_cons
    have gap : ∀ c ∈ front ++ back, isBlank c = true := List.forall_mem_append.mpr ⟨hfront, hback⟩
    have here := number?_eq_some_iff.mpr ⟨[], rest, rfl, nofun, number, ends⟩
    rw [List.nil_append, ← List.append_assoc, List.cons_append, Text.dropWhile_run gap noBlank,
      unsigned_of_digit digit]
    exact here
  · rw [List.singleton_append, Text.dropWhile_run hfront (by decide)]
    exact assigned
  · rw [List.singleton_append, Text.dropWhile_run hfront (by decide)]
    exact assigned

/-- A number is assigned exactly by what parts a word from it. -/
theorem assigned?_eq_some_iff : assigned? cs = some ds ↔
    ∃ between rest, cs = between ++ (ds ++ rest) ∧ IsAssignment between ∧ IsNumber ds ∧
      EndsNumber rest := by
  constructor
  · intro found
    cases cs with
    | nil => cases found
    | cons c r =>
        rw [assigned?_cons] at found
        split at found
        case isTrue => cases found
        case isFalse noDigit =>
          obtain ⟨back, rest, hback, blank, number, ends⟩ := number?_eq_some_iff.mp found
          obtain ⟨sign, mem, hsign⟩ := exists_sign ((c :: r).dropWhile isBlank)
          rw [hback] at hsign
          have whole : c :: r =
              ((c :: r).takeWhile isBlank ++ (sign ++ back)) ++ (ds ++ rest) := by
            rw [List.append_assoc, List.append_assoc, ← hsign, List.takeWhile_append_dropWhile]
          refine ⟨_, rest, whole, ⟨fun none => noDigit ?_, _, sign, back, rfl,
            fun c mem => List.mem_takeWhile_imp mem, mem, blank⟩, number, ends⟩
          -- with nothing between, the number would begin right behind the word
          obtain ⟨d, ds, rfl, digit, -⟩ := number.exists_cons
          rw [none] at whole
          rw [(List.cons.inj whole).1]
          exact digit
  · rintro ⟨between, rest, rfl, assignment, number, ends⟩
    obtain ⟨c, b, hb⟩ := List.exists_cons_of_ne_nil assignment.some
    have noDigit := assignment.isDecimalDigit_eq_false c (by rw [hb]; exact .head b)
    have start := assigned?_cons c (b ++ (ds ++ rest))
    rw [← List.cons_append, ← hb, noDigit, if_neg Bool.false_ne_true] at start
    rw [start, number?_unsigned assignment number ends]

theorem sets_of_assigned? {word : List Char} (mem : word ∈ settingWords)
    (begins : word.isPrefixOf cs = true) (found : assigned? (cs.drop word.length) = some ds) :
    Sets cs ds := by
  obtain ⟨r, rfl⟩ := List.isPrefixOf_iff_prefix.mp begins
  rw [List.drop_left] at found
  obtain ⟨between, rest, rfl, assignment, number, ends⟩ := assigned?_eq_some_iff.mp found
  exact ⟨word ++ (between ++ ds), rest, by simp, ⟨number, word, mem, between, assignment, rfl⟩,
    ends⟩

/-- A number is read exactly off a setting. -/
theorem setsHere?_eq_some_iff : setsHere? cs = some ds ↔ Sets cs ds := by
  constructor
  · intro found
    rw [setsHere?] at found
    split at found
    case isTrue begins => exact sets_of_assigned? (by simp [settingWords]) begins found
    case isFalse =>
      split at found
      case isTrue begins => exact sets_of_assigned? (by simp [settingWords]) begins found
      case isFalse => cases found
  · rintro ⟨_, rest, rfl, ⟨number, word, mem, between, assignment, rfl⟩, ends⟩
    have assigned := assigned?_eq_some_iff.mpr ⟨between, rest, rfl, assignment, number, ends⟩
    rw [List.append_assoc, List.append_assoc, setsHere?]
    simp only [settingWords, List.mem_cons, List.not_mem_nil, or_false] at mem
    obtain rfl | rfl := mem
    · rw [if_pos (List.isPrefixOf_iff_prefix.mpr (List.prefix_append _ _)), List.drop_left,
        assigned]
    · -- the longer word would go on where something parts the shorter one from its number
      have shorter : ¬ "minSdkVersion".toList.isPrefixOf
          ("minSdk".toList ++ (between ++ (ds ++ rest))) = true := by
        obtain ⟨c, b, rfl⟩ := List.exists_cons_of_ne_nil assignment.some
        intro longer
        obtain ⟨r, same⟩ := List.isPrefixOf_iff_prefix.mp longer
        have behind : "Version".toList ++ r = c :: (b ++ (ds ++ rest)) :=
          (List.append_right_inj "minSdk".toList).mp same
        have next : 'V' = c := (List.cons.inj behind).1
        obtain sign | sign := assignment.mem c (.head b)
        · rw [← next] at sign
          cases sign
        · rw [← next] at sign
          revert sign
          decide
      rw [if_neg shorter, if_pos (List.isPrefixOf_iff_prefix.mpr (List.prefix_append _ _)),
        List.drop_left, assigned]

end Reading

/-! ## Where a setting may be cut -/

/-- A character that no setting holds. -/
def IsForeign (c : Char) : Prop :=
  isBlank c = false ∧ isDecimalDigit c = false ∧ c ∉ "=(minSdkVersion".toList

section Cut

variable {text tail part back more rest ds : List Char} {c : Char}

/-- What a setting holds behind its first character. -/
theorem IsSetting.exists_tail (setting : IsSetting text ds) :
    ∃ tail, text = 'm' :: tail ∧
      ∀ c ∈ tail, isBlank c = true ∨ isDecimalDigit c = true ∨ c ∈ "=(inSdkVersion".toList := by
  obtain ⟨number, word, mem, between, assignment, rfl⟩ := setting
  have letters : ∃ w, word = 'm' :: w ∧ w ⊆ "=(inSdkVersion".toList := by
    simp only [settingWords, List.mem_cons, List.not_mem_nil, or_false] at mem
    obtain rfl | rfl := mem
    · exact ⟨"inSdkVersion".toList, rfl, by decide⟩
    · exact ⟨"inSdk".toList, rfl, by decide⟩
  obtain ⟨w, rfl, letters⟩ := letters
  refine ⟨w ++ (between ++ ds), rfl, fun c inTail => ?_⟩
  obtain inWord | inBetween | inNumber := by simpa only [List.mem_append] using inTail
  · exact .inr (.inr (letters inWord))
  · obtain blank | sign := assignment.mem c inBetween
    · exact .inl blank
    · have signs : ['=', '('] ⊆ "=(inSdkVersion".toList := by decide
      exact .inr (.inr (signs sign))
  · exact .inr (.inl (number.digits c inNumber))

/-- Only the first character of a setting is an `m`. -/
theorem IsSetting.not_mem_tail (setting : IsSetting ('m' :: tail) ds) : 'm' ∉ tail := by
  obtain ⟨_, same, held⟩ := setting.exists_tail
  obtain rfl := (List.cons.inj same).2
  intro mem
  have := held 'm' mem
  revert this
  decide

theorem IsSetting.not_mem_of_foreign (setting : IsSetting text ds) (foreign : IsForeign c) :
    c ∉ text := by
  obtain ⟨noBlank, noDigit, apart⟩ := foreign
  obtain ⟨tail, rfl, held⟩ := setting.exists_tail
  intro mem
  refine apart ?_
  obtain rfl | mem := List.mem_cons.mp mem
  · decide
  · obtain blank | digit | letter := held c mem
    · rw [noBlank] at blank
      cases blank
    · rw [noDigit] at digit
      cases digit
    · have more : "=(inSdkVersion".toList ⊆ "=(minSdkVersion".toList := by decide
      exact more letter

/-- A setting does not end in blanks. -/
theorem IsSetting.not_isGap (setting : IsSetting (part ++ more) ds)
    (some : more ≠ []) : ¬ IsGap more := by
  obtain ⟨number, word, -, between, -, whole⟩ := setting
  obtain ⟨ds, d, rfl⟩ := (List.eq_nil_or_concat' ds).resolve_left number.some
  obtain ⟨more, c, rfl⟩ := (List.eq_nil_or_concat' more).resolve_left some
  have last : c = d := by
    have ends := congrArg List.getLast? whole
    simpa using ends
  subst last
  intro blank
  have noBlank := isBlank_eq_false_of_digit (number.digits c (by simp))
  rw [blank c (by simp)] at noBlank
  cases noBlank

theorem Sets.head?_eq (sets : Sets part ds) : part.head? = some 'm' := by
  obtain ⟨text, rest, rfl, setting, -⟩ := sets
  obtain ⟨tail, rfl, -⟩ := setting.exists_tail
  rfl

theorem setsHere?_of_blank (blank : isBlank c = true) (cs : List Char) :
    setsHere? (c :: cs) = none := by
  rw [Option.eq_none_iff_forall_ne_some]
  intro ds found
  obtain rfl := Option.some.inj (setsHere?_eq_some_iff.mp found).head?_eq
  cases blank

/-- Of two numbers at the beginning of a script neither is longer. -/
theorem Sets.unique {ds' : List Char} (sets : Sets part ds) (sets' : Sets part ds') : ds = ds' := by
  have read := setsHere?_eq_some_iff.mpr sets
  rw [setsHere?_eq_some_iff.mpr sets'] at read
  exact (Option.some.inj read).symm

theorem Sets.append (sets : Sets part ds) (ends : EndsNumber back) : Sets (part ++ back) ds := by
  obtain ⟨text, rest, rfl, setting, ends'⟩ := sets
  refine ⟨text, rest ++ back, List.append_assoc _ _ _, setting, ?_⟩
  cases rest with
  | nil => exact ends
  | cons c rest => exact ends'

/-- A setting stands in the front part of a script, or reaches over its end. -/
theorem Sets.cut (sets : Sets (part ++ back) ds) :
    Sets part ds ∨ ∃ more rest, more ≠ [] ∧ back = more ++ rest ∧ IsSetting (part ++ more) ds := by
  obtain ⟨text, rest, whole, setting, ends⟩ := sets
  obtain ⟨more, rfl, hback⟩ | ⟨rest', rfl, rfl⟩ := List.append_eq_append_iff.mp whole
  · by_cases none : more = []
    · subst none
      rw [List.append_nil] at setting
      exact .inl ⟨part, [], (List.append_nil _).symm, setting, nofun⟩
    · exact .inr ⟨more, rest, none, hback, setting⟩
  · refine .inl ⟨text, rest', rfl, setting, ?_⟩
    cases rest' with
    | nil => exact nofun
    | cons c rest' => exact ends

/-- No setting reaches over a character that none holds. -/
theorem sets_append_cons_iff (foreign : IsForeign c) :
    Sets (part ++ c :: back) ds ↔ Sets part ds := by
  constructor
  · intro sets
    obtain here | ⟨more, rest, some, hback, setting⟩ := sets.cut
    · exact here
    · obtain ⟨d, more, rfl⟩ := List.exists_cons_of_ne_nil some
      obtain rfl : c = d := (List.cons.inj hback).1
      exact absurd (by simp) (setting.not_mem_of_foreign foreign)
  · intro sets
    exact sets.append (by simpa [EndsNumber] using foreign.2.1)

end Cut

end Project

end AndroidLint
