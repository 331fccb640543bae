/-
Comment — what a comment of a build script does to the level.

Comments are not left out when a script is searched for its level, so a comment
matters in two ways.  What it holds counts, if that is a setting on a line of its
own (`counts_comment`).  And it is no blank, so it hides a setting that it stands
in front of or inside of (`Hides`): with the comment blanked out that one counts
(`counts_blanked`).

To blank a comment out therefore leaves the level as it is where a setting counts
already before the comment, or where what it holds and what it hides give the
same level, and nowhere else (`scriptLevel?_blanked_iff`).
-/
import AndroidLint.Proofs.Project.FirstSetting

namespace AndroidLint

namespace Project

open Text (isBlank)

/-! ## Comments and what they hide -/

/-- A comment: two strokes with what follows on the line, or a stretch from a stroke
with a star to a star with a stroke.  What the stretch holds is free, so it may
hold comments. -/
inductive IsComment : List Char → Prop where
  | line {text : List Char} (oneLine : '\n' ∉ text) : IsComment ('/' :: '/' :: text)
  | block (text : List Char) : IsComment ('/' :: '*' :: (text ++ ['*', '/']))

/-- A comment with a space for every character that is no line break. -/
def blanked (c : List Char) : List Char :=
  c.map fun d => if d = '\n' ∨ d = '\r' then d else ' '

/-- Whether a character is a blank that does not end its line. -/
def keepsLine (c : Char) : Bool :=
  isBlank c && c != '\n'

/-- `SetsOnLine cs ds`: a setting to the number `ds` stands on the first line of a
script, with nothing but blanks before it. -/
def SetsOnLine (cs ds : List Char) : Prop :=
  ∃ gap rest, cs = gap ++ rest ∧ IsGap gap ∧ '\n' ∉ gap ∧ Sets rest ds

/-- `Hides pre c post ds`: a comment between `pre` and `post` hides a setting to the
number `ds`, as it stands inside the setting or in front of it on its line. -/
def Hides (pre c post ds : List Char) : Prop :=
  Reaches true pre (blanked c ++ post) ds ∨ IsFresh true (pre ++ blanked c) ∧ SetsOnLine post ds

theorem isForeign_stroke : IsForeign '/' := ⟨rfl, rfl, by decide⟩

theorem isForeign_star : IsForeign '*' := ⟨rfl, rfl, by decide⟩

section Comments

variable {c text pre post cs ds : List Char}

theorem isGap_blanked (c : List Char) : IsGap (blanked c) := by
  intro d mem
  obtain ⟨e, -, rfl⟩ := List.mem_map.mp mem
  split
  case isTrue isBreak =>
    obtain rfl | rfl := isBreak
    · rfl
    · rfl
  case isFalse => rfl

/-- Without a new line no place becomes fresh. -/
theorem firstSet?_line_append (oneLine : '\n' ∉ text) (back : List Char) :
    firstSet? false (text ++ back) = firstSet? false back := by
  induction text with
  | nil => rfl
  | cons d text ih =>
      rw [List.mem_cons, not_or] at oneLine
      have noBreak : (d == '\n') = false := beq_eq_false_iff_ne.mpr (Ne.symm oneLine.1)
      rw [List.cons_append, firstSet?, if_neg Bool.false_ne_true, Option.none_or, freshBehind,
        noBreak, Bool.false_and, Bool.or_false, ih oneLine.2]

/-- What counts behind the first stroke of a comment is what counts in the comment, or
else what counts behind it. -/
theorem IsComment.exists_cons (comment : IsComment c) : ∃ r, c = '/' :: r ∧ ∀ post,
    firstSet? false (r ++ post) = (firstSet? false r).or (firstSet? false post) := by
  cases comment with
  | @line text oneLine =>
      have none : firstSet? false text = none := by
        rw [← List.append_nil text, firstSet?_line_append oneLine]
        rfl
      refine ⟨_, rfl, fun post => ?_⟩
      rw [List.cons_append, firstSet?_cons isForeign_stroke, firstSet?_cons isForeign_stroke,
        firstSet?_line_append oneLine, none, Option.none_or]
  | block text =>
      have cut (post : List Char) : firstSet? false (text ++ '*' :: '/' :: post) =
          (firstSet? false text).or (firstSet? false post) := by
        rw [firstSet?_append_cons isForeign_star, firstSet?_cons isForeign_stroke]
      refine ⟨_, rfl, fun post => ?_⟩
      rw [List.cons_append, List.append_assoc, firstSet?_cons isForeign_star,
        firstSet?_cons isForeign_star, List.cons_append, List.singleton_append, cut, cut,
        firstSet?, Option.or_none]

/-- **What counts in a script with a comment**: what counts before it, in it or behind
it, in this order. -/
theorem counts_comment (comment : IsComment c) (pre post : List Char) :
    Counts true (pre ++ (c ++ post)) =
      Prefers (Counts true pre) (Prefers (Counts false c) (Counts false post)) := by
  obtain ⟨r, rfl, cut⟩ := comment.exists_cons
  simp only [counts_eq, prefers_eq_some]
  rw [List.cons_append, firstSet?_append_cons isForeign_stroke, cut,
    firstSet?_cons isForeign_stroke]

theorem setsOnLine_iff : SetsOnLine cs ds ↔ setsHere? (cs.dropWhile keepsLine) = some ds := by
  rw [setsHere?_eq_some_iff]
  constructor
  · rintro ⟨gap, rest, rfl, blank, oneLine, sets⟩
    have within : ∀ c ∈ gap, keepsLine c = true := by
      intro c mem
      rw [keepsLine, blank c mem, Bool.true_and, bne_iff_ne]
      rintro rfl
      exact oneLine mem
    rwa [Text.dropWhile_eq_of_append within]
    intro c first
    rw [sets.head?_eq] at first
    obtain rfl := Option.some.inj first
    rfl
  · intro sets
    refine ⟨cs.takeWhile keepsLine, cs.dropWhile keepsLine, List.takeWhile_append_dropWhile.symm,
      fun c mem => ?_, fun mem => ?_, sets⟩
    · have keeps := List.mem_takeWhile_imp mem
      rw [keepsLine, Bool.and_eq_true] at keeps
      exact keeps.1
    · cases List.mem_takeWhile_imp mem

theorem firstSet?_true (cs : List Char) :
    firstSet? true cs = (setsHere? (cs.dropWhile keepsLine)).or (firstSet? false cs) := by
  induction cs with
  | nil => rfl
  | cons c cs ih =>
      rw [firstSet?, firstSet?, if_pos rfl, if_neg Bool.false_ne_true, Option.none_or, freshBehind,
        freshBehind, Bool.true_and, Bool.false_and, Bool.or_false]
      cases keeps : keepsLine c with
      | true =>
          rw [List.dropWhile_cons_of_pos keeps]
          rw [keepsLine, Bool.and_eq_true, bne_iff_ne] at keeps
          obtain ⟨blank, noBreak⟩ := keeps
          rw [setsHere?_of_blank blank, blank, Option.none_or, Bool.or_true, ih,
            beq_eq_false_iff_ne.mpr noBreak]
      | false =>
          rw [List.dropWhile_cons_of_neg (by simp [keeps])]
          cases blank : isBlank c with
          | false => rw [Bool.or_false]
          | true =>
              rw [keepsLine, blank, Bool.true_and, bne_eq_false_iff_eq] at keeps
              rw [keeps]
              rfl

/-- What counts from a place on is, if that is fresh, the setting on its line, or else
what counts on the lines behind. -/
theorem counts_start (start : Bool) (cs : List Char) :
    Counts start cs = Prefers (fun ds => start = true ∧ SetsOnLine cs ds) (Counts false cs) := by
  cases start with
  | false => exact (prefers_of_neg fun _ here => Bool.false_ne_true here.1).symm
  | true =>
      simp only [true_and, setsOnLine_iff, counts_eq]
      rw [prefers_eq_some, firstSet?_true]

/-- What reaches over the end of a script does not end in front of a setting that only
blanks part from it. -/
theorem Reaches.not_setsOnLine {gap ds' : List Char} {start : Bool} (blank : IsGap gap)
    (reaches : Reaches start pre (gap ++ post) ds) : ¬ SetsOnLine post ds' := by
  rintro ⟨gap', rest', rfl, blank', -, sets'⟩
  obtain ⟨front, part, -, some, -, sets, apart⟩ := reaches
  obtain ⟨d, part, rfl⟩ := List.exists_cons_of_ne_nil some
  obtain here | ⟨more, rest, some', whole, setting⟩ := sets.cut
  · exact apart ds here
  have gap : IsGap (gap ++ gap') := List.forall_mem_append.mpr ⟨blank, blank'⟩
  obtain rfl := Option.some.inj sets.head?_eq
  have tail := setting.not_mem_tail
  refine setting.not_isGap some' ?_
  rw [← List.append_assoc] at whole
  obtain ⟨more', rfl, hrest⟩ | ⟨more', same, -⟩ := List.append_eq_append_iff.mp whole
  · obtain _ | ⟨c, more'⟩ := more'
    · rwa [List.append_nil]
    · rw [hrest] at sets'
      obtain rfl := Option.some.inj sets'.head?_eq
      exact absurd (by simp) tail
  · rw [same] at gap
    exact fun c mem => gap c (List.mem_append_left _ mem)

/-- **What counts in a script with a comment blanked out**: what counts before it, what
it hid, or what counts behind it, in this order. -/
theorem counts_blanked (comment : IsComment c) (pre post : List Char) :
    Counts true (pre ++ (blanked c ++ post)) =
      Prefers (Counts true pre) (Prefers (Hides pre c post) (Counts false post)) := by
  cases found : firstSet? true pre with
  | some d =>
      have ends : EndsNumber (blanked c ++ post) := by
        obtain ⟨r, rfl, -⟩ := comment.exists_cons
        intro c first
        obtain rfl := Option.some.inj first
        rfl
      rw [prefers_of_pos (firstSet?_eq_some_iff.mp found), counts_eq, counts_eq,
        firstSet?_append_of_some ends found, found]
  | none =>
      have none (ds) : ¬ Counts true pre ds := by
        rw [← firstSet?_eq_some_iff, found]
        nofun
      have behind : Counts (freshAfter true pre) (blanked c ++ post) =
          Prefers (fun ds => IsFresh true (pre ++ blanked c) ∧ SetsOnLine post ds)
            (Counts false post) := by
        rw [counts_eq, firstSet?_gap_append (isGap_blanked c), ← freshAfter_append, ← counts_eq,
          counts_start]
        simp only [freshAfter_eq_true_iff]
      rw [prefers_of_neg none, counts_eq]
      simp only [firstSet?_append_of_none found]
      rw [behind, prefers_prefers]
      · rfl
      · exact fun ds ds' reaches ahead => reaches.not_setsOnLine (isGap_blanked c) ahead.2

/-- **Blanking a comment out leaves the level as it is just if** a setting counts
before it, or the comment holds and hides what gives the same level.  So it does
where a comment neither holds a setting on a line of its own nor hides one. -/
theorem scriptLevel?_blanked_iff (comment : IsComment c) (pre post : List Char) :
    (scriptLevel? (String.ofList (pre ++ (blanked c ++ post))) =
        scriptLevel? (String.ofList (pre ++ (c ++ post))) ↔
      (∃ ds, Counts true pre ds) ∨
        ∀ n, Gives (Prefers (Hides pre c post) (Counts false post)) n ↔
          Gives (Prefers (Counts false c) (Counts false post)) n) ∧
    ((∀ ds, ¬ Counts false c ds) → (∀ ds, ¬ Hides pre c post ds) →
      scriptLevel? (String.ofList (pre ++ (blanked c ++ post))) =
        scriptLevel? (String.ofList (pre ++ (c ++ post)))) := by
  constructor
  · rw [Option.ext_iff]
    simp only [scriptLevel?_eq_some_iff, counts_blanked comment, counts_comment comment]
    by_cases first : ∃ ds, Counts true pre ds
    · obtain ⟨ds, here⟩ := first
      simp only [prefers_of_pos here]
      exact iff_of_true (fun _ => trivial) (.inl ⟨ds, here⟩)
    · have none (ds) : ¬ Counts true pre ds := fun here => first ⟨ds, here⟩
      simp only [prefers_of_neg none]
      exact (or_iff_right first).symm
  · intro holds hides
    ext n
    rw [scriptLevel?_eq_some_iff, scriptLevel?_eq_some_iff, counts_blanked comment,
      counts_comment comment, prefers_of_neg holds, prefers_of_neg hides]

end Comments

/-- A comment over three lines, with a setting on the middle one. -/
def disabled : List Char :=
  '/' :: '*' :: ("\nminSdk = 14\n".toList ++ ['*', '/'])

theorem scriptLevel?_blanked_disabled :
    IsComment disabled ∧
      scriptLevel? (String.ofList ("minSdk = 21\n".toList ++ (blanked disabled ++ []))) =
        scriptLevel? (String.ofList ("minSdk = 21\n".toList ++ (disabled ++ []))) := by
  have comment : IsComment disabled := .block _
  refine ⟨comment, (scriptLevel?_blanked_iff comment _ _).1.mpr (.inl ⟨"21".toList, ?_⟩)⟩
  exact firstSet?_eq_some_iff.mp (by decide)

/-- A setting on a line within a comment counts, and one behind a comment on its line
or with a comment inside does not. -/
theorem scriptLevel?_disabled :
    IsComment disabled ∧
      scriptLevel? (String.ofList (disabled ++ "\nminSdk = 21\n".toList)) = some 14 ∧
      scriptLevel? (String.ofList (blanked disabled ++ "\nminSdk = 21\n".toList)) = some 21 ∧
    IsComment "/* at least */".toList ∧
      scriptLevel? "/* at least */ minSdk = 21" = none ∧
      scriptLevel? "minSdk = /* at least */ 21" = none ∧
      scriptLevel? (String.ofList (blanked "/* at least */".toList ++ " minSdk = 21".toList)) =
        some 21 := by
  exact ⟨.block _, by decide, by decide, .block " at least ".toList, by decide, by decide,
    by decide⟩

end Project

end AndroidLint
