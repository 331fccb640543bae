/-
Cut — what a cut takes of a text.

Each scanner takes a beginning of the text, and takes as much as it can: where
it stops behind a small letter, no small letter follows (`Apart`).  So no word
is cut in two.  A scanner that looks for an end stops behind that, and the end
of nothing is a small letter; one that looks at single characters stops in
front of one that no word goes on with.

Only a name between backquotes may be cut longer than the text, by the
backquote that it lacks where the text ends.
-/
import Mathlib.Data.List.TakeWhile
import AndroidLint.Proofs.Text.Bytes
import AndroidLint.Syntax.Token

namespace AndroidLint

namespace Syntax

open Text (byteCount)

/-! ## Characters -/

theorem isAlpha_of_isLower {c : Char} (lower : c.isLower = true) : c.isAlpha = true :=
  (Bool.or_eq_true _ _).mpr (.inr lower)

theorem isBlank_of_isAlphanum {c : Char} (alphanum : c.isAlphanum = true) :
    Text.isBlank c = false := by
  have range : 48 ≤ c.toNat ∧ c.toNat ≤ 122 := by
    obtain letter | digit := (Bool.or_eq_true _ _).mp alphanum
    · obtain upper | lower := (Bool.or_eq_true _ _).mp letter
      · obtain ⟨lo, hi⟩ := of_decide_eq_true upper
        exact ⟨Nat.le_trans (by decide) (UInt32.le_iff_toNat_le.mp lo),
          Nat.le_trans (UInt32.le_iff_toNat_le.mp hi) (by decide)⟩
      · obtain ⟨lo, hi⟩ := (Bool.and_eq_true _ _).mp lower
        exact ⟨Nat.le_trans (by decide) (UInt32.le_iff_toNat_le.mp (of_decide_eq_true lo)),
          UInt32.le_iff_toNat_le.mp (of_decide_eq_true hi)⟩
    · obtain ⟨lo, hi⟩ := Char.isDigit_iff_toNat.mp digit
      exact ⟨lo, Nat.le_trans hi (by decide)⟩
  simp only [Text.isBlank, Bool.or_eq_false_iff, Bool.and_eq_false_iff,
    decide_eq_false_iff_not, beq_eq_false_iff_ne]
  omega

theorem isBlank_of_isWordPart {c : Char} (part : isWordPart c = true) :
    Text.isBlank c = false := by
  simp only [isWordPart, isLetter, Bool.or_eq_true, Bool.and_eq_true, beq_iff_eq,
    Bool.not_eq_true'] at part
  obtain (((alpha | rfl) | rfl) | ⟨-, other⟩) | digit := part
  · exact isBlank_of_isAlphanum (by rw [Char.isAlphanum, alpha, Bool.true_or])
  · rfl
  · rfl
  · exact other
  · exact isBlank_of_isAlphanum (by rw [Char.isAlphanum, digit, Bool.or_true])

theorem isBlank_of_isLower {c : Char} (lower : c.isLower = true) : Text.isBlank c = false :=
  isBlank_of_isAlphanum (by rw [Char.isAlphanum, isAlpha_of_isLower lower, Bool.true_or])

theorem isLower_eq_false_of_isBlank {c : Char} (blank : Text.isBlank c = true) :
    c.isLower = false := by
  rw [← Bool.not_eq_true]
  intro lower
  rw [isBlank_of_isLower lower] at blank
  cases blank

theorem isWordPart_of_isLower {c : Char} (lower : c.isLower = true) : isWordPart c = true := by
  simp [isWordPart, isLetter, isAlpha_of_isLower lower]

/-! ## Where a cut stops -/

/-- `Apart front back`: what ends in a small letter is not followed by one. -/
def Apart (front back : List Char) : Prop :=
  (∀ d ∈ back.head?, d.isLower = false) ∨ ∃ c ∈ front.getLast?, c.isLower = false

/-- `Stops cs taken`: the text begins with what is taken, and is cut apart behind
it. -/
def Stops (cs taken : List Char) : Prop :=
  ∃ rest, cs = taken ++ rest ∧ Apart taken rest

section Scanners

variable {s : Spelling} {c : Char} {cs taken rest : List Char}

theorem Apart.cons (apart : Apart taken rest) : Apart (c :: taken) rest := by
  refine apart.imp_right ?_
  rintro ⟨d, last, plain⟩
  cases taken with
  | nil => cases last
  | cons e taken => exact ⟨d, by rwa [List.getLast?_cons_cons], plain⟩

theorem Stops.cons (stops : Stops cs taken) : Stops (c :: cs) (c :: taken) := by
  obtain ⟨rest, rfl, apart⟩ := stops
  exact ⟨rest, rfl, apart.cons⟩

/-- A cut may stop behind what is no small letter. -/
theorem stops_of_last (last : ∃ c ∈ taken.getLast?, c.isLower = false) (rest : List Char) :
    Stops (taken ++ rest) taken :=
  ⟨rest, rfl, .inr last⟩

/-- It may stop in front of what is no small letter. -/
theorem stops_of_next (next : ∀ d ∈ rest.head?, d.isLower = false) (taken : List Char) :
    Stops (taken ++ rest) taken :=
  ⟨rest, rfl, .inl next⟩

theorem Stops.begins (stops : Stops cs taken) : taken <+: cs := by
  obtain ⟨rest, rfl, -⟩ := stops
  exact List.prefix_append taken rest

theorem stops_whole (cs : List Char) : Stops cs cs :=
  ⟨[], (List.append_nil cs).symm, .inl nofun⟩

theorem isLower_eq_false_of_isWordPart (stop : isWordPart c = false) : c.isLower = false := by
  rw [← Bool.not_eq_true]
  intro lower
  rw [isWordPart_of_isLower lower] at stop
  cases stop

theorem stops_takeWhile {p : Char → Bool} (lower : ∀ c, p c = false → c.isLower = false)
    (cs : List Char) : Stops cs (cs.takeWhile p) := by
  refine ⟨cs.dropWhile p, List.takeWhile_append_dropWhile.symm, .inl fun d mem => lower d ?_⟩
  have stop := List.head?_dropWhile_not p cs
  rwa [Option.mem_def.mp mem] at stop

/-- A number goes on as long as it can. -/
theorem stops_numberPart (s : Spelling) (isHex : Bool) (cs : List Char) :
    Stops cs (numberPart s isHex cs) := by
  fun_induction numberPart s isHex cs with
  | case1 => exact stops_whole []
  | case2 c => exact stops_whole [c]
  | case3 c stop =>
      rw [Bool.or_eq_true, not_or, Bool.not_eq_true] at stop
      exact ⟨[c], rfl, .inl (by simpa using isLower_eq_false_of_isWordPart stop.1)⟩
  | case4 _ _ _ _ ih => exact ih.cons
  | case5 _ _ _ _ _ _ _ ih => exact ih.cons.cons
  | case6 _ _ _ _ _ _ _ ih => exact ih.cons
  | case7 c d r _ stop =>
      rw [Bool.not_eq_true] at stop
      exact stops_of_next (by simpa using isLower_eq_false_of_isWordPart stop) []

theorem stops_number (s : Spelling) (cs : List Char) : Stops cs (number s cs) := by
  rw [number.eq_def]
  split
  · exact (stops_numberPart s true _).cons.cons
  · exact (stops_numberPart s true _).cons.cons
  · exact stops_numberPart s false _

/-- What is quoted goes on to where it is closed, or to the end of the text. -/
theorem stops_quotedUntil {stop : List Char} (last : ∃ c ∈ stop.getLast?, c.isLower = false)
    (cs : List Char) : Stops cs (quotedUntil stop cs) := by
  fun_induction quotedUntil stop cs with
  | case1 => exact stops_whole []
  | case2 _ _ ih => exact ih.cons.cons
  | case3 c r _ closes =>
      obtain ⟨rest, whole⟩ := List.isPrefixOf_iff_prefix.mp closes
      rw [← whole]
      exact stops_of_last last rest
  | case4 _ _ _ _ ih => exact ih.cons

theorem stops_commentPart (nests : Bool) (depth : Nat) (cs : List Char) :
    Stops cs (commentPart nests depth cs) := by
  fun_induction commentPart nests depth cs with
  | case1 => exact stops_whole []
  | case2 r => exact ⟨r, rfl, .inr ⟨'/', rfl, rfl⟩⟩
  | case3 _ _ ih => exact ih.cons.cons
  | case4 _ _ ih => exact ih.cons.cons
  | case5 _ _ _ _ _ _ ih => exact ih.cons

theorem head_of_closing? {isRaw : Bool} {q : List Char} (closes : closing? isRaw cs = some q) :
    ∃ r, cs = '"' :: r := by
  rw [closing?.eq_def] at closes
  split at closes
  · cases closes
  · exact ⟨_, rfl⟩
  · exact ⟨_, rfl⟩
  · cases closes

theorem isLower_of_stopsFragment {isRaw : Bool} (stop : stopsFragment isRaw cs = true) :
    ∀ d ∈ cs.head?, d.isLower = false := by
  rw [stopsFragment.eq_def, Bool.or_eq_true] at stop
  obtain closes | begins := stop
  · obtain ⟨q, closes⟩ := Option.isSome_iff_exists.mp closes
    obtain ⟨r, rfl⟩ := head_of_closing? closes
    rintro d ⟨⟩
    rfl
  · split at begins
    · rintro d ⟨⟩
      rfl
    · cases begins

theorem stops_fragment (isRaw : Bool) (cs : List Char) : Stops cs (fragment isRaw cs) := by
  fun_induction fragment isRaw cs with
  | case1 => exact stops_whole []
  | case2 c stop => exact stops_of_next (isLower_of_stopsFragment stop) []
  | case3 c => exact stops_whole [c]
  | case4 c d r stop => exact stops_of_next (isLower_of_stopsFragment stop) []
  | case5 _ _ _ _ _ ih => exact ih.cons.cons
  | case6 _ _ _ _ _ ih => exact ih.cons

/-! ## Cuts -/

/-- `IsCut cs piece taken`: a cut of the text takes a piece, apart from what is
left, or the whole text and what it lacks. -/
structure IsCut (cs : List Char) (piece : Piece) (taken : List Char) : Prop where
  some : taken ≠ []
  stops : Stops cs taken ∨ cs <+: taken
  within : piece ≠ .token .quotedName → taken <+: cs
  blank : piece = .blank → ∀ c ∈ taken, Text.isBlank c = true
  word : piece = .token .word → ∀ c ∈ taken, Text.isBlank c = false

theorem isCut_token {cls : TokenClass} (other : cls ≠ .word) (some : taken ≠ [])
    (stops : Stops cs taken) : IsCut cs (.token cls) taken where
  some := some
  stops := .inl stops
  within := fun _ => stops.begins
  blank := nofun
  word := fun same => absurd (Piece.token.inj same) other

theorem isCut_comment (some : taken ≠ []) (stops : Stops cs taken) : IsCut cs .comment taken where
  some := some
  stops := .inl stops
  within := fun _ => stops.begins
  blank := nofun
  word := nofun

/-- The symbols of a language are not empty, and none of them ends in a small
letter. -/
def Spelling.IsSymbolic (s : Spelling) : Prop :=
  ∀ t ∈ s.symbols, ∃ c ∈ t.toList.getLast?, c.isLower = false

theorem isCut_symbol (symbolic : s.IsSymbolic) (plain : c.isLower = false) (r : List Char) :
    IsCut (c :: r) (.token .symbol) (symbol s c r) := by
  rw [symbol]
  cases found : (s.symbols.map String.toList).find? fun t => t.isPrefixOf (c :: r) with
  | none =>
      exact isCut_token nofun (List.cons_ne_nil _ _) ⟨r, rfl, .inr ⟨c, rfl, plain⟩⟩
  | some t =>
      obtain ⟨u, mem, rfl⟩ := List.mem_map.mp (List.mem_of_find?_eq_some found)
      have fits := List.find?_some found
      obtain ⟨rest, whole⟩ := List.isPrefixOf_iff_prefix.mp fits
      obtain ⟨d, last, plain⟩ := symbolic u mem
      rw [Option.getD_some, ← whole]
      refine isCut_token nofun ?_ (stops_of_last ⟨d, last, plain⟩ rest)
      intro empty
      rw [empty] at last
      cases last

theorem isCut_cutQuote (s : Spelling) (r : List Char) :
    IsCut ('"' :: r) (cutQuote s r).1 (cutQuote s r).2 := by
  rw [cutQuote.eq_def]
  split
  case h_1 => exact isCut_token nofun (List.cons_ne_nil _ _) ⟨_, rfl, .inr ⟨'"', rfl, rfl⟩⟩
  case h_2 => exact isCut_token nofun (List.cons_ne_nil _ _) ⟨_, rfl, .inr ⟨'"', rfl, rfl⟩⟩
  case h_3 =>
    exact isCut_token nofun (List.cons_ne_nil _ _)
      (stops_quotedUntil ⟨'"', rfl, rfl⟩ _).cons.cons.cons
  case h_4 =>
    exact isCut_token nofun (List.cons_ne_nil _ _) (stops_quotedUntil ⟨'"', rfl, rfl⟩ _).cons

/-- A name lacks its last backquote only where the text ends. -/
theorem isCut_quotedName (r : List Char) :
    IsCut ('`' :: r) (.token .quotedName) ('`' :: (r.takeWhile (· != '`') ++ ['`'])) where
  some := List.cons_ne_nil _ _
  stops := by
    cases behind : r.dropWhile (· != '`') with
    | nil =>
        right
        rw [List.takeWhile_eq_self_iff.mpr (by simpa using behind)]
        exact ⟨['`'], rfl⟩
    | cons d rest =>
        left
        have closes := List.head?_dropWhile_not (· != '`') r
        rw [behind] at closes
        obtain rfl : d = '`' := by simpa using closes
        refine ⟨rest, ?_, .inr ⟨'`', ?_, rfl⟩⟩
        case refine_2 => rw [← List.cons_append, List.getLast?_concat, Option.mem_def]
        rw [List.cons_append, List.append_assoc, List.singleton_append, ← behind,
          List.takeWhile_append_dropWhile]
  within := fun other => absurd rfl other
  blank := nofun
  word := nofun

theorem numberPart_ne_nil {isHex : Bool} {r : List Char}
    (begins : isWordPart c = true ∨ c = '.' ∧ ∃ d ∈ r.head?, d.isDigit = true) :
    numberPart s isHex (c :: r) ≠ [] := by
  cases r with
  | nil =>
      obtain part | ⟨-, d, ⟨⟩, -⟩ := begins
      simp [numberPart, part]
  | cons d r =>
      rw [numberPart]
      split
      case isTrue => exact List.cons_ne_nil _ _
      case isFalse plain =>
        obtain part | ⟨rfl, d', ⟨⟩, digit⟩ := begins
        · rw [if_pos part]
          dsimp only
          split <;> split <;> exact List.cons_ne_nil _ _
        · exact absurd (by rw [digit]; rfl) plain

theorem isCut_number {r : List Char}
    (begins : isWordPart c = true ∨ c = '.' ∧ ∃ d ∈ r.head?, d.isDigit = true) :
    IsCut (c :: r) (.token .number) (number s (c :: r)) := by
  refine isCut_token nofun ?_ (stops_number s (c :: r))
  rw [number.eq_def]
  split
  · exact List.cons_ne_nil _ _
  · exact List.cons_ne_nil _ _
  · exact numberPart_ne_nil begins

theorem isCut_blanks {r : List Char} (blank : Text.isBlank c = true) :
    IsCut (c :: r) .blank (c :: r.takeWhile Text.isBlank) := by
  have blanks : ∀ d ∈ c :: r.takeWhile Text.isBlank, Text.isBlank d = true :=
    List.forall_mem_cons.mpr ⟨blank, fun d mem => List.mem_takeWhile_imp mem⟩
  have stops : Stops (c :: r) (c :: r.takeWhile Text.isBlank) := by
    refine ⟨r.dropWhile Text.isBlank, ?_, .inr ?_⟩
    · rw [List.cons_append, List.takeWhile_append_dropWhile]
    · refine ⟨_, List.getLast?_eq_some_getLast (List.cons_ne_nil _ _), ?_⟩
      exact isLower_eq_false_of_isBlank (blanks _ (List.getLast_mem _))
  exact ⟨List.cons_ne_nil _ _, .inl stops, fun _ => stops.begins, fun _ => blanks, nofun⟩

theorem isCut_cutCode (symbolic : s.IsSymbolic) (c : Char) (r : List Char) :
    IsCut (c :: r) (cutCode s c r).1 (cutCode s c r).2 := by
  rw [cutCode.eq_def]
  split
  case isTrue blank => exact isCut_blanks blank
  case isFalse =>
  split
  case isTrue letter =>
    have part : isWordPart c = true := by rw [isWordPart, letter, Bool.true_or]
    have stops : Stops (c :: r) (c :: r.takeWhile isWordPart) :=
      (stops_takeWhile (fun _ => isLower_eq_false_of_isWordPart) r).cons
    exact
      { some := List.cons_ne_nil _ _
        stops := .inl stops
        within := fun _ => stops.begins
        blank := fun same => by cases same
        word := fun _ => List.forall_mem_cons.mpr ⟨isBlank_of_isWordPart part, fun d mem =>
          isBlank_of_isWordPart (List.mem_takeWhile_imp mem)⟩ }
  case isFalse other =>
  have plain : c.isLower = false := by
    rw [← Bool.not_eq_true]
    intro lower
    exact other (by simp [isLetter, isAlpha_of_isLower lower])
  split
  case isTrue digit => exact isCut_number (.inl (by rw [isWordPart, digit, Bool.or_true]))
  case isFalse =>
  split
  case h_1 =>
    exact isCut_comment (List.cons_ne_nil _ _) (stops_takeWhile (by simp) _).cons.cons
  case h_2 => exact isCut_comment (List.cons_ne_nil _ _) (stops_commentPart _ _ _).cons.cons
  case h_3 => exact isCut_cutQuote s _
  case h_4 =>
    exact isCut_token (by decide) (List.cons_ne_nil _ _) (stops_quotedUntil ⟨'\'', rfl, rfl⟩ _).cons
  case h_5 => exact isCut_quotedName _
  case h_6 =>
    split
    case isTrue digit => exact isCut_number (.inr ⟨rfl, _, rfl, digit⟩)
    case isFalse => exact isCut_symbol symbolic plain _
  case h_7 => exact isCut_symbol symbolic plain r

theorem isCut_fragment {isRaw : Bool} {r : List Char}
    (goes : stopsFragment isRaw (c :: r) = false) :
    IsCut (c :: r) (.token .fragment) (fragment isRaw (c :: r)) := by
  refine isCut_token nofun ?_ (stops_fragment isRaw (c :: r))
  cases r with
  | nil =>
      rw [fragment, goes]
      exact List.cons_ne_nil _ _
  | cons d r =>
      rw [fragment, goes]
      simp only [Bool.false_eq_true, if_false]
      split <;> exact List.cons_ne_nil _ _

theorem isCut_closing? {isRaw : Bool} {q : List Char} (closes : closing? isRaw cs = some q) :
    IsCut cs (.token .quote) q := by
  rw [closing?.eq_def] at closes
  split at closes
  case h_1 => cases closes
  case h_2 =>
    obtain rfl := Option.some.inj closes
    exact isCut_token nofun (List.cons_ne_nil _ _) ⟨_, rfl, .inr ⟨'"', rfl, rfl⟩⟩
  case h_3 =>
    obtain rfl := Option.some.inj closes
    exact isCut_token nofun (List.cons_ne_nil _ _) ⟨_, rfl, .inr ⟨'"', rfl, rfl⟩⟩
  case h_4 => cases closes

theorem isCut_cutString (isRaw : Bool) (c : Char) (r : List Char) :
    IsCut (c :: r) (cutString isRaw (c :: r)).1 (cutString isRaw (c :: r)).2 := by
  rw [cutString.eq_def]
  cases closes : closing? isRaw (c :: r) with
  | some q => exact isCut_closing? closes
  | none =>
      split
      case h_1 absurd => cases absurd
      case h_2 c' r' _ whole =>
        rw [whole] at closes ⊢
        split
        case isTrue brace =>
          obtain rfl := beq_iff_eq.mp brace
          exact isCut_token nofun (List.cons_ne_nil _ _) ⟨r', rfl, .inr ⟨'\x7b', rfl, rfl⟩⟩
        case isFalse plain =>
        split
        case isTrue =>
          exact isCut_token nofun (List.cons_ne_nil _ _)
            (stops_takeWhile (fun _ => isLower_eq_false_of_isWordPart) r').cons.cons
        case isFalse other =>
          refine isCut_fragment ?_
          rw [stopsFragment, closes]
          simp [plain, other]
      case h_3 others =>
        refine isCut_fragment ?_
        rw [stopsFragment.eq_def, closes]
        split
        case h_1 whole => exact (others _ _ whole).elim
        case h_2 => rfl

/-- What a cut takes, inside a string or outside. -/
def cut (s : Spelling) (modes : List Mode) (c : Char) (r : List Char) : Piece × List Char :=
  match modes with
  | .string isRaw :: _ => cutString isRaw (c :: r)
  | _ => cutCode s c r

theorem isCut_cut (symbolic : s.IsSymbolic) (modes : List Mode) (c : Char) (r : List Char) :
    IsCut (c :: r) (cut s modes c r).1 (cut s modes c r).2 := by
  rw [cut.eq_def]
  split
  · exact isCut_cutString _ c r
  · exact isCut_cutCode symbolic c r

end Scanners

end Syntax

end AndroidLint
