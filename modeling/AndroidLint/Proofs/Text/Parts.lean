/-
Parts — what is cut off a text and what is cut out of it.

Stripping, cutting at a separator and taking the last segment of a dotted
name go through a text by runs of characters, up to one that ends the run.  Here
each is said by what it leaves: a core that neither begins nor ends with
what is stripped (`Trimmed`), the pieces that `List.splitOn` gives, a
segment that stands at the end behind a separator (`IsLastSegment`).
-/
import Mathlib.Data.List.TakeWhile
import AndroidLint.Text

namespace AndroidLint

namespace Text

/-! ## Runs of characters -/

/-- A run of characters with a property, up to one without it. -/
theorem takeWhile_run {p : Char → Bool} {cs rest : List Char} {b : Char}
    (run : ∀ c ∈ cs, p c = true) (stop : p b = false) : (cs ++ b :: rest).takeWhile p = cs := by
  rw [List.takeWhile_append_of_pos run, List.takeWhile_cons_of_neg (by simp [stop]),
    List.append_nil]

theorem dropWhile_run {p : Char → Bool} {cs rest : List Char} {b : Char}
    (run : ∀ c ∈ cs, p c = true) (stop : p b = false) :
    (cs ++ b :: rest).dropWhile p = b :: rest := by
  rw [List.dropWhile_append_of_pos run, List.dropWhile_cons_of_neg (by simp [stop])]

/-! ## Stripping -/

/-- `Trimmed p cs core`: the text `cs` is `core` with characters that satisfy
`p` around it, and `core` neither begins nor ends with one. -/
structure Trimmed (p : Char → Bool) (cs core : List Char) : Prop where
  around : ∃ front back, cs = front ++ core ++ back ∧ (∀ c ∈ front, p c = true) ∧
    ∀ c ∈ back, p c = true
  first : ∀ c ∈ core.head?, p c = false
  last : ∀ c ∈ core.getLast?, p c = false

section Strip

variable {p : Char → Bool} {cs core : List Char}

theorem dropWhile_eq_of_append {front rest : List Char} (run : ∀ c ∈ front, p c = true)
    (stop : ∀ c ∈ rest.head?, p c = false) : (front ++ rest).dropWhile p = rest := by
  cases rest with
  | nil => rw [List.append_nil, List.dropWhile_eq_nil_iff.mpr run]
  | cons c rest => exact dropWhile_run run (stop c rfl)

theorem takeWhile_eq_of_append {front rest : List Char} (run : ∀ c ∈ front, p c = true)
    (stop : ∀ c ∈ rest.head?, p c = false) : (front ++ rest).takeWhile p = front := by
  cases rest with
  | nil => rw [List.append_nil, List.takeWhile_eq_self_iff.mpr run]
  | cons c rest => exact takeWhile_run run (stop c rfl)

theorem head?_dropWhile (p : Char → Bool) (cs : List Char) :
    ∀ c ∈ (cs.dropWhile p).head?, p c = false := by
  intro c mem
  have h := List.head?_dropWhile_not p cs
  rw [Option.mem_def.mp mem] at h
  exact h

theorem dropWhile_eq_strip_append (p : Char → Bool) (cs : List Char) :
    cs.dropWhile p = strip p cs ++ ((cs.dropWhile p).reverse.takeWhile p).reverse := by
  rw [strip, ← List.reverse_append, List.takeWhile_append_dropWhile, List.reverse_reverse]

theorem trimmed_strip (p : Char → Bool) (cs : List Char) : Trimmed p cs (strip p cs) where
  around := by
    refine ⟨cs.takeWhile p, ((cs.dropWhile p).reverse.takeWhile p).reverse, ?_,
      fun c mem => List.mem_takeWhile_imp mem,
      fun c mem => List.mem_takeWhile_imp (List.mem_reverse.mp mem)⟩
    rw [List.append_assoc, ← dropWhile_eq_strip_append, List.takeWhile_append_dropWhile]
  first c mem := by
    have hfirst := head?_dropWhile p cs
    rw [dropWhile_eq_strip_append, List.head?_append] at hfirst
    exact hfirst c (by rw [Option.mem_def.mp mem]; rfl)
  last := by
    rw [strip, List.getLast?_reverse]
    exact head?_dropWhile p _

theorem Trimmed.strip_eq (trimmed : Trimmed p cs core) : strip p cs = core := by
  obtain ⟨⟨front, back, rfl, hfront, hback⟩, first, last⟩ := trimmed
  cases core with
  | nil =>
      have all : ∀ c ∈ front ++ [] ++ back, p c = true := by
        simpa [or_imp, forall_and] using ⟨hfront, hback⟩
      rw [strip, List.dropWhile_eq_nil_iff.mpr all]
      rfl
  | cons c core =>
      have hlast : ∀ d ∈ (c :: core).reverse.head?, p d = false := by
        rw [List.head?_reverse]
        exact last
      rw [strip, List.append_assoc, dropWhile_eq_of_append hfront (by simpa using first),
        List.reverse_append,
        dropWhile_eq_of_append (fun d mem => hback d (List.mem_reverse.mp mem)) hlast,
        List.reverse_reverse]

/-- More of what is stripped around a text leaves its core. -/
theorem Trimmed.append {front back : List Char} (trimmed : Trimmed p cs core)
    (hfront : ∀ c ∈ front, p c = true) (hback : ∀ c ∈ back, p c = true) :
    Trimmed p (front ++ cs ++ back) core where
  around := by
    obtain ⟨before, after, rfl, hbefore, hafter⟩ := trimmed.around
    exact ⟨front ++ before, after ++ back, by simp,
      List.forall_mem_append.mpr ⟨hfront, hbefore⟩, List.forall_mem_append.mpr ⟨hafter, hback⟩⟩
  first := trimmed.first
  last := trimmed.last

theorem trimmed_self_iff :
    Trimmed p cs cs ↔ (∀ c ∈ cs.head?, p c = false) ∧ ∀ c ∈ cs.getLast?, p c = false :=
  ⟨fun trimmed => ⟨trimmed.first, trimmed.last⟩,
    fun ends => ⟨⟨[], [], by simp, nofun, nofun⟩, ends.1, ends.2⟩⟩

/-- Stripping gives the core. -/
theorem strip_eq_iff : strip p cs = core ↔ Trimmed p cs core :=
  ⟨fun h => h ▸ trimmed_strip p cs, Trimmed.strip_eq⟩

end Strip

/-! ## Pieces -/

theorem pieces_eq_splitOnP (p : Char → Bool) (cs : List Char) : pieces p cs = cs.splitOnP p := by
  induction cs with
  | nil => rfl
  | cons c cs ih =>
      rw [pieces, ih, List.splitOnP_cons_eq_if_modifyHead]
      cases hc : p c with
      | true => rfl
      | false =>
          cases hpieces : cs.splitOnP p with
          | nil => exact absurd hpieces (List.splitOnP_ne_nil p cs)
          | cons piece rest => rfl

/-- No piece has a character that the text is cut at. -/
theorem eq_false_of_mem_pieces {p : Char → Bool} {cs w : List Char} (mem : w ∈ pieces p cs) :
    ∀ c ∈ w, p c = false := by
  induction cs generalizing w with
  | nil =>
      rw [pieces, List.mem_singleton] at mem
      rw [mem]
      exact fun c none => absurd none List.not_mem_nil
  | cons d cs ih =>
      rw [pieces] at mem
      split at mem
      case h_1 =>
        obtain rfl | mem := List.mem_cons.mp mem
        · exact fun c none => absurd none List.not_mem_nil
        · exact ih mem
      case h_2 other _ =>
        rw [List.mem_singleton.mp mem, List.forall_mem_singleton]
        exact other
      case h_3 v vs other rest =>
        obtain rfl | mem := List.mem_cons.mp mem
        · exact List.forall_mem_cons.mpr ⟨other, ih (rest ▸ List.mem_cons_self)⟩
        · exact ih (rest ▸ List.mem_cons_of_mem v mem)

theorem not_mem_of_mem_pieces {c : Char} {cs w : List Char} (mem : w ∈ pieces (· == c) cs) :
    c ∉ w :=
  fun held => by simpa using eq_false_of_mem_pieces mem c held

/-- The pieces of a text are those parts without the separator that it is made
of with separators between. -/
theorem splitAll_eq_iff {c : Char} {s : String} {parts : List String} :
    splitAll c s = parts ↔
      s = (String.singleton c).intercalate parts ∧ (∀ part ∈ parts, c ∉ part.toList) ∧
        parts ≠ [] := by
  constructor
  · rintro rfl
    refine ⟨?_, fun part mem => ?_, ?_⟩
    · apply String.toList_inj.mp
      rw [String.toList_intercalate, splitAll, List.map_map, String.toList_singleton,
        pieces_eq_splitOnP, ← List.splitOn_eq_splitOnP]
      simp [Function.comp_def, List.intercalate_splitOn]
    · obtain ⟨w, hw, rfl⟩ := List.mem_map.mp mem
      rw [String.toList_ofList]
      exact not_mem_of_mem_pieces hw
    · rw [splitAll, pieces_eq_splitOnP]
      simp
  · rintro ⟨rfl, apart, some⟩
    rw [splitAll, pieces_eq_splitOnP, ← List.splitOn_eq_splitOnP, String.toList_intercalate,
      String.toList_singleton, List.splitOn_intercalate c (List.forall_mem_map.mpr apart)
        (by simpa using some), List.map_map]
    simp [Function.comp_def]

/-- The first piece is what stands before the first separator. -/
theorem head?_splitAll (c : Char) (s : String) :
    (splitAll c s).head? = some (beforeFirst c s) := by
  have first (cs : List Char) :
      (pieces (· == c) cs).head? = some (cs.takeWhile (· != c)) := by
    induction cs with
    | nil => rfl
    | cons d cs ih =>
        rw [pieces, List.takeWhile_cons, bne]
        cases hd : d == c with
        | true => rfl
        | false =>
            cases hpieces : pieces (· == c) cs with
            | nil => cases hpieces ▸ ih
            | cons w ws =>
                rw [hpieces] at ih
                simpa using ih
  rw [splitAll, List.head?_map, first]
  rfl

/-! ## The ends of a text -/

theorem startsWith_iff {s t : String} : startsWith s t = true ↔ ∃ rest, s = t ++ rest := by
  rw [startsWith, List.isPrefixOf_iff_prefix]
  constructor
  · rintro ⟨rest, whole⟩
    exact ⟨String.ofList rest, String.toList_inj.mp (by simpa using whole.symm)⟩
  · rintro ⟨rest, rfl⟩
    exact ⟨rest.toList, by simp⟩

theorem afterStart?_eq_some_iff {s t rest : String} :
    afterStart? s t = some rest ↔ s = t ++ rest := by
  rw [afterStart?]
  split
  case isTrue starts =>
    obtain ⟨rest', rfl⟩ := startsWith_iff.mp starts
    rw [String.toList_append, ← String.length_toList, List.drop_left, String.ofList_toList,
      Option.some.injEq, String.append_right_inj]
  case isFalse starts =>
    exact ⟨nofun, fun whole => absurd (startsWith_iff.mpr ⟨rest, whole⟩) starts⟩

/-! ## The last segment -/

/-- `IsLastSegment c s t`: `t` stands at the end of `s`, behind the last `c`
if there is one. -/
def IsLastSegment (c : Char) (s t : String) : Prop :=
  c ∉ t.toList ∧ (s = t ∨ ∃ front, s.toList = front ++ c :: t.toList)

theorem isLastSegment_afterLast (c : Char) (s : String) : IsLastSegment c s (afterLast c s) := by
  have hsplit : s.toList.reverse.takeWhile (· != c) ++ s.toList.reverse.dropWhile (· != c) =
      s.toList.reverse := List.takeWhile_append_dropWhile
  refine ⟨fun mem => ?_, ?_⟩
  · rw [afterLast, String.toList_ofList, List.mem_reverse] at mem
    simpa using List.mem_takeWhile_imp mem
  · rw [afterLast, String.toList_ofList]
    cases hrest : s.toList.reverse.dropWhile (· != c) with
    | nil =>
        rw [hrest, List.append_nil] at hsplit
        rw [hsplit, List.reverse_reverse, String.ofList_toList]
        exact .inl rfl
    | cons d rest =>
        have hd : d = c := by
          simpa using head?_dropWhile (· != c) s.toList.reverse d (by rw [hrest]; rfl)
        rw [hrest, hd] at hsplit
        refine .inr ⟨rest.reverse, ?_⟩
        have hwhole := congrArg List.reverse hsplit
        rw [List.reverse_append, List.reverse_cons, List.append_assoc, List.reverse_reverse]
          at hwhole
        exact hwhole.symm

theorem IsLastSegment.afterLast_eq {c : Char} {s t : String} (last : IsLastSegment c s t) :
    afterLast c s = t := by
  obtain ⟨apart, whole⟩ := last
  have run : ∀ d ∈ t.toList.reverse, (d != c) = true := by
    intro d mem
    simpa using fun same : d = c => apart (same ▸ List.mem_reverse.mp mem)
  have hseg : s.toList.reverse.takeWhile (· != c) = t.toList.reverse := by
    obtain rfl | ⟨front, hs⟩ := whole
    · exact List.takeWhile_eq_self_iff.mpr run
    · rw [hs, List.reverse_append, List.reverse_cons, List.append_assoc, List.singleton_append,
        takeWhile_run run (by simp)]
  rw [afterLast, hseg, List.reverse_reverse, String.ofList_toList]

theorem afterLast_eq_iff {c : Char} {s t : String} : afterLast c s = t ↔ IsLastSegment c s t :=
  ⟨fun h => h ▸ isLastSegment_afterLast c s, IsLastSegment.afterLast_eq⟩

/-- A text is cut at its last separator. -/
theorem eq_of_beforeLast? {c : Char} {s t : String} (before : beforeLast? c s = some t) :
    s.toList = t.toList ++ c :: (afterLast c s).toList := by
  have hsplit : s.toList.reverse.takeWhile (· != c) ++ s.toList.reverse.dropWhile (· != c) =
      s.toList.reverse := List.takeWhile_append_dropWhile
  rw [beforeLast?] at before
  split at before
  case h_1 => cases before
  case h_2 d rest hrest =>
    obtain rfl := Option.some.inj before
    have hd : d = c := by
      simpa using head?_dropWhile (· != c) s.toList.reverse d (by rw [hrest]; rfl)
    rw [hrest, hd] at hsplit
    have hwhole := congrArg List.reverse hsplit
    rw [List.reverse_append, List.reverse_cons, List.append_assoc, List.reverse_reverse] at hwhole
    rw [afterLast, String.toList_ofList, String.toList_ofList]
    exact hwhole.symm

/-- A text without separators ends a text exactly if it ends the last
segment. -/
theorem IsLastSegment.endsWith_iff {c : Char} {s t unit : String} (last : IsLastSegment c s t)
    (apart : c ∉ unit.toList) : endsWith s unit = true ↔ ∃ front, t = front ++ unit := by
  have suffix : (∃ front, t = front ++ unit) ↔ unit.toList <:+ t.toList := by
    constructor
    · rintro ⟨front, rfl⟩
      exact ⟨front.toList, by simp⟩
    · rintro ⟨front, whole⟩
      exact ⟨String.ofList front, String.toList_inj.mp (by simpa using whole.symm)⟩
  rw [endsWith, List.isSuffixOf_iff_suffix, suffix]
  obtain ⟨-, rfl | ⟨front, whole⟩⟩ := last
  · rfl
  · rw [whole]
    constructor
    · intro ends
      obtain short | long := List.suffix_or_suffix_of_suffix ends (List.suffix_append front _)
      · obtain same | inner := List.suffix_cons_iff.mp short
        · exact absurd (same ▸ List.mem_cons_self) apart
        · exact inner
      · exact absurd (long.subset List.mem_cons_self) apart
    · intro ends
      exact (ends.trans (List.suffix_cons c _)).trans (List.suffix_append front _)

end Text

end AndroidLint
