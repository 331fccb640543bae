/-
FirstSetting — the setting of a build script that counts.

A setting has to stand at a fresh place, with nothing but blanks before it on its
line (`IsFresh`), and of the settings at fresh places the first counts (`Counts`).
A search that carries along whether the place is fresh finds it
(`firstSet?_eq_some_iff`), and so does the search line by line that gives a script
its level (`scriptLevel?_eq_some_iff`).

A character that no setting holds lets a script fall into two
(`firstSet?_append_cons`).  Elsewhere a setting may reach from a script into what
goes on behind it.  It is the last that begins in the script then, as a setting
has an `m` at its beginning only, and counts if none before it does
(`firstSet?_append_of_none`).
-/
import AndroidLint.Proofs.Project.Setting

namespace AndroidLint

namespace Project

open Text (isBlank)

/-! ## The first setting -/

/-- `IsFresh start front`: the place behind `front` has nothing but blanks before it on
its line; `start` says whether a line begins where `front` does. -/
def IsFresh (start : Bool) (front : List Char) : Prop :=
  ∃ before gap, front = before ++ gap ∧ IsGap gap ∧
    (before = [] ∧ start = true ∨ before.getLast? = some '\n')

/-- `SetsAt start cs front ds`: at a fresh place of a script, behind `front`, stands a
setting to the number `ds`. -/
def SetsAt (start : Bool) (cs front ds : List Char) : Prop :=
  ∃ rest, cs = front ++ rest ∧ IsFresh start front ∧ Sets rest ds

/-- `Counts start cs ds`: of the settings at fresh places the first is to the number
`ds`. -/
def Counts (start : Bool) (cs ds : List Char) : Prop :=
  ∃ front, SetsAt start cs front ds ∧
    ∀ front' ds', SetsAt start cs front' ds' → front.length ≤ front'.length

/-- Whether the place behind a character is fresh. -/
def freshBehind (fresh : Bool) (c : Char) : Bool :=
  c == '\n' || fresh && isBlank c

/-- The number of the first setting at a fresh place. -/
def firstSet? (fresh : Bool) : List Char → Option (List Char)
  | [] => none
  | c :: r =>
      (if fresh then setsHere? (c :: r) else none).or (firstSet? (freshBehind fresh c) r)

section First

variable {start : Bool} {c : Char} {front back cs ds : List Char}

theorem isFresh_nil_iff : IsFresh start [] ↔ start = true := by
  constructor
  · rintro ⟨before, gap, whole, -, begins⟩
    obtain ⟨rfl, rfl⟩ := List.append_eq_nil_iff.mp whole.symm
    obtain ⟨-, begins⟩ | last := begins
    · exact begins
    · cases last
  · intro begins
    exact ⟨[], [], rfl, nofun, .inl ⟨rfl, begins⟩⟩

theorem isFresh_cons_iff : IsFresh start (c :: front) ↔ IsFresh (freshBehind start c) front := by
  constructor
  · rintro ⟨before, gap, whole, blank, begins⟩
    obtain _ | ⟨b, before⟩ := before
    · obtain ⟨-, rfl⟩ | last := begins
      · obtain rfl : c :: front = gap := whole
        refine ⟨[], front, rfl, fun d mem => blank d (.tail _ mem), .inl ⟨rfl, ?_⟩⟩
        simp [freshBehind, blank c (.head _)]
      · cases last
    · obtain ⟨rfl, rfl⟩ := List.cons.inj whole
      obtain ⟨none, -⟩ | last := begins
      · cases none
      · refine ⟨before, gap, rfl, blank, ?_⟩
        cases before with
        | nil =>
            obtain rfl := Option.some.inj last
            exact .inl ⟨rfl, rfl⟩
        | cons d before => exact .inr last
  · rintro ⟨before, gap, rfl, blank, ⟨rfl, fresh⟩ | last⟩
    · rw [freshBehind, Bool.or_eq_true, Bool.and_eq_true, beq_iff_eq] at fresh
      obtain rfl | ⟨begins, blank'⟩ := fresh
      · exact ⟨['\n'], gap, rfl, blank, .inr rfl⟩
      · exact ⟨[], c :: gap, rfl, List.forall_mem_cons.mpr ⟨blank', blank⟩, .inl ⟨rfl, begins⟩⟩
    · refine ⟨c :: before, gap, rfl, blank, .inr ?_⟩
      rw [List.getLast?_cons, last]
      rfl

theorem setsAt_nil_iff : SetsAt start cs [] ds ↔ start = true ∧ Sets cs ds := by
  constructor
  · rintro ⟨_, rfl, fresh, sets⟩
    exact ⟨isFresh_nil_iff.mp fresh, sets⟩
  · rintro ⟨begins, sets⟩
    exact ⟨cs, rfl, isFresh_nil_iff.mpr begins, sets⟩

theorem setsAt_cons_iff : SetsAt start (c :: cs) (c :: front) ds ↔
    SetsAt (freshBehind start c) cs front ds := by
  constructor
  · rintro ⟨rest, whole, fresh, sets⟩
    exact ⟨rest, (List.cons.inj whole).2, isFresh_cons_iff.mp fresh, sets⟩
  · rintro ⟨rest, rfl, fresh, sets⟩
    exact ⟨rest, rfl, isFresh_cons_iff.mpr fresh, sets⟩

theorem SetsAt.mem (sets : SetsAt start cs front ds) : 'm' ∈ cs := by
  obtain ⟨rest, rfl, -, sets⟩ := sets
  exact List.mem_append_right _ (List.mem_of_mem_head? sets.head?_eq)

theorem Counts.mem (counts : Counts start cs ds) : 'm' ∈ cs := by
  obtain ⟨front, sets, -⟩ := counts
  exact sets.mem

theorem counts_of_sets {d : List Char} (begins : start = true) (sets : Sets cs d) :
    Counts start cs ds ↔ ds = d := by
  have here : SetsAt start cs [] d := setsAt_nil_iff.mpr ⟨begins, sets⟩
  constructor
  · rintro ⟨front, sets', least⟩
    obtain rfl := List.eq_nil_of_length_eq_zero (Nat.le_zero.mp (least [] d here))
    exact (setsAt_nil_iff.mp sets').2.unique sets
  · rintro rfl
    exact ⟨[], here, fun _ _ _ => Nat.zero_le _⟩

theorem counts_cons_iff (none : start = true → ∀ d, ¬ Sets (c :: cs) d) :
    Counts start (c :: cs) ds ↔ Counts (freshBehind start c) cs ds := by
  -- every place with a setting is behind the first character
  have behind {front d : List Char} (sets : SetsAt start (c :: cs) front d) :
      ∃ front', front = c :: front' ∧ SetsAt (freshBehind start c) cs front' d := by
    cases front with
    | nil =>
        obtain ⟨begins, here⟩ := setsAt_nil_iff.mp sets
        exact absurd here (none begins d)
    | cons c' front' =>
        have ⟨rest, whole, _⟩ := sets
        obtain rfl := (List.cons.inj whole).1
        exact ⟨front', rfl, setsAt_cons_iff.mp sets⟩
  constructor
  · rintro ⟨front, sets, least⟩
    obtain ⟨front, rfl, inner⟩ := behind sets
    refine ⟨front, inner, fun front' d sets' => ?_⟩
    exact Nat.le_of_succ_le_succ (least (c :: front') d (setsAt_cons_iff.mpr sets'))
  · rintro ⟨front, sets, least⟩
    refine ⟨c :: front, setsAt_cons_iff.mpr sets, fun front' d sets' => ?_⟩
    obtain ⟨front', rfl, inner⟩ := behind sets'
    exact Nat.succ_le_succ (least front' d inner)

theorem ite_setsHere?_eq_some_iff :
    (if start then setsHere? cs else none) = some ds ↔ start = true ∧ Sets cs ds := by
  rw [Option.ite_none_right_eq_some, setsHere?_eq_some_iff]

theorem ite_setsHere?_eq_none_iff :
    (if start then setsHere? cs else none) = none ↔ (start = true → ∀ d, ¬ Sets cs d) := by
  rw [Option.eq_none_iff_forall_ne_some]
  constructor
  · intro none begins d sets
    exact none d (ite_setsHere?_eq_some_iff.mpr ⟨begins, sets⟩)
  · intro none d here
    obtain ⟨begins, sets⟩ := ite_setsHere?_eq_some_iff.mp here
    exact none begins d sets

/-- The search finds the setting that counts. -/
theorem firstSet?_eq_some_iff : firstSet? start cs = some ds ↔ Counts start cs ds := by
  induction cs generalizing start with
  | nil =>
      refine iff_of_false nofun fun counts => ?_
      cases counts.mem
  | cons c cs ih =>
      rw [firstSet?]
      cases here : if start then setsHere? (c :: cs) else none with
      | some d =>
          obtain ⟨begins, sets⟩ := ite_setsHere?_eq_some_iff.mp here
          rw [Option.some_or, counts_of_sets begins sets, Option.some_inj]
          exact eq_comm
      | none =>
          rw [Option.none_or, ih, counts_cons_iff (ite_setsHere?_eq_none_iff.mp here)]

theorem counts_eq (start : Bool) (cs : List Char) :
    Counts start cs = fun ds => firstSet? start cs = some ds :=
  funext fun _ => propext firstSet?_eq_some_iff.symm

/-! ## The level of a script -/

theorem firstSetLevel?_false_cons (c : Char) (cs : List Char) :
    firstSetLevel? false (c :: cs) = firstSetLevel? (c == '\n') cs := rfl

theorem firstSetLevel?_true (cs : List Char) :
    firstSetLevel? true cs = (setLevel? cs).or (firstSetLevel? false cs) := by
  cases cs with
  | nil => rfl
  | cons c cs =>
      rw [firstSetLevel?, if_pos rfl, Option.orElse_eq_or]
      rfl

/-- To look behind the blanks at the beginning of each line is to look at each fresh
place. -/
theorem firstSetLevel?_eq (start : Bool) (cs : List Char) :
    firstSetLevel? start cs = firstSet? start cs := by
  induction cs generalizing start with
  | nil => rfl
  | cons c cs ih =>
      have behind : firstSetLevel? (freshBehind start c) cs = firstSet? (freshBehind start c) cs :=
        ih _
      cases start with
      | false =>
          rw [freshBehind, Bool.false_and, Bool.or_false] at behind
          rw [firstSetLevel?_false_cons, behind, firstSet?, if_neg Bool.false_ne_true,
            Option.none_or, freshBehind, Bool.false_and, Bool.or_false]
      | true =>
          rw [firstSet?, if_pos rfl, ← behind, firstSetLevel?_true, firstSetLevel?_false_cons,
            setLevel?_eq, freshBehind, Bool.true_and]
          cases blank : isBlank c with
          | false =>
              rw [List.dropWhile_cons_of_neg (by simp [blank]), Bool.or_false]
          | true =>
              rw [List.dropWhile_cons_of_pos blank, setsHere?_of_blank blank, Option.none_or,
                Bool.or_true, firstSetLevel?_true, setLevel?_eq]
              cases c == '\n' with
              | false => rfl
              | true => rw [firstSetLevel?_true, setLevel?_eq, ← Option.or_assoc, Option.or_self]

/-- `Gives P n`: a number that satisfies `P` is that of the level `n`. -/
def Gives (P : List Char → Prop) (n : Nat) : Prop :=
  ∃ ds, P ds ∧ Text.level? (String.ofList ds) = some n

/-- A script gives the level of the setting that counts. -/
theorem scriptLevel?_eq_some_iff {n : Nat} :
    scriptLevel? (String.ofList cs) = some n ↔ Gives (Counts true cs) n := by
  rw [scriptLevel?, String.toList_ofList, firstSetLevel?_eq, Option.bind_eq_some_iff]
  simp only [firstSet?_eq_some_iff]
  rfl

end First

/-! ## A script that goes on -/

/-- `Prefers P Q ds`: the number is one that satisfies `P`, or if there is none one that
satisfies `Q`. -/
def Prefers (P Q : List Char → Prop) (ds : List Char) : Prop :=
  P ds ∨ (∀ ds', ¬ P ds') ∧ Q ds

/-- `Reaches start pre back ds`: a setting to the number `ds` reaches over the end of
`pre` into `back`, and on its own `pre` sets nothing there. -/
def Reaches (start : Bool) (pre back ds : List Char) : Prop :=
  ∃ front part, pre = front ++ part ∧ part ≠ [] ∧ IsFresh start front ∧
    Sets (part ++ back) ds ∧ ∀ ds', ¬ Sets part ds'

/-- Whether the place behind a text is fresh. -/
def freshAfter (start : Bool) (front : List Char) : Bool :=
  front.foldl freshBehind start

section Prefers

variable {P Q : List Char → Prop}

theorem prefers_of_pos {ds : List Char} (found : P ds) : Prefers P Q = P := by
  funext ds'
  refine propext ⟨?_, .inl⟩
  rintro (here | ⟨none, -⟩)
  · exact here
  · exact absurd found (none ds)

theorem prefers_of_neg (none : ∀ ds, ¬ P ds) : Prefers P Q = Q := by
  funext ds
  refine propext ⟨?_, fun behind => .inr ⟨none, behind⟩⟩
  rintro (here | ⟨-, behind⟩)
  · exact absurd here (none ds)
  · exact behind

theorem prefers_eq_some {o o' : Option (List Char)} :
    Prefers (fun ds => o = some ds) (fun ds => o' = some ds) = fun ds => o.or o' = some ds := by
  cases o with
  | none => exact prefers_of_neg nofun
  | some d => exact prefers_of_pos rfl

theorem prefers_prefers {A B Q : List Char → Prop} (apart : ∀ ds ds', A ds → ¬ B ds') :
    Prefers A (Prefers B Q) = Prefers (fun ds => A ds ∨ B ds) Q := by
  by_cases first : ∃ ds, A ds
  · obtain ⟨ds, here⟩ := first
    have none (ds') : ¬ B ds' := apart ds ds' here
    rw [prefers_of_pos here, prefers_of_pos (P := fun ds => A ds ∨ B ds) (Or.inl here)]
    funext ds'
    simp [none ds']
  · have none (ds) : ¬ A ds := fun here => first ⟨ds, here⟩
    rw [prefers_of_neg none]
    have same : (fun ds => A ds ∨ B ds) = B := by
      funext ds
      simp [none ds]
    rw [same]

end Prefers

section Append

variable {start : Bool} {c : Char} {pre back cs ds : List Char}

theorem freshAfter_eq_true_iff : freshAfter start pre = true ↔ IsFresh start pre := by
  induction pre generalizing start with
  | nil => exact isFresh_nil_iff.symm
  | cons c pre ih => rw [isFresh_cons_iff, ← ih]; rfl

theorem freshAfter_append (start : Bool) (front back : List Char) :
    freshAfter start (front ++ back) = freshAfter (freshAfter start front) back :=
  List.foldl_append

/-- Behind a foreign character no place is fresh until the next line. -/
theorem freshBehind_of_foreign (foreign : IsForeign c) (fresh : Bool) :
    freshBehind fresh c = false := by
  have noBreak : (c == '\n') = false := by
    rw [beq_eq_false_iff_ne]
    rintro rfl
    cases foreign.1
  rw [freshBehind, noBreak, foreign.1, Bool.and_false, Bool.or_false]

theorem setsHere?_append_cons (foreign : IsForeign c) (part back : List Char) :
    setsHere? (part ++ c :: back) = setsHere? part := by
  ext ds
  rw [setsHere?_eq_some_iff, setsHere?_eq_some_iff, sets_append_cons_iff foreign]

/-- **Where a character stands that no setting holds a script falls into two**: what
counts is what counts before it, or else what counts behind it. -/
theorem firstSet?_append_cons (foreign : IsForeign c) (start : Bool) (front back : List Char) :
    firstSet? start (front ++ c :: back) = (firstSet? start front).or (firstSet? false back) := by
  induction front generalizing start with
  | nil =>
      have none := setsHere?_append_cons foreign [] back
      rw [List.nil_append] at none
      rw [List.nil_append, firstSet?, firstSet?, none, freshBehind_of_foreign foreign]
      cases start <;> rfl
  | cons d front ih =>
      have here := setsHere?_append_cons foreign (d :: front) back
      rw [List.cons_append] at here
      rw [List.cons_append, firstSet?, firstSet?, ih, here, Option.or_assoc]

theorem firstSet?_cons {d : Char} (foreign : IsForeign d) (start : Bool) (back : List Char) :
    firstSet? start (d :: back) = firstSet? false back :=
  firstSet?_append_cons foreign start [] back

/-- Blanks in front of a script say no more than whether its beginning is fresh. -/
theorem firstSet?_gap_append {gap : List Char} (blank : IsGap gap) (start : Bool)
    (back : List Char) : firstSet? start (gap ++ back) = firstSet? (freshAfter start gap) back := by
  induction gap generalizing start with
  | nil => rfl
  | cons c gap ih =>
      obtain ⟨here, blank⟩ := List.forall_mem_cons.mp blank
      rw [List.cons_append, firstSet?, setsHere?_of_blank here, ite_self, Option.none_or, ih blank]
      rfl

theorem not_reaches_nil : ¬ Reaches start [] back ds := by
  rintro ⟨front, part, whole, some, -⟩
  exact some (List.append_eq_nil_iff.mp whole.symm).2

theorem reaches_cons_iff : Reaches start (c :: cs) back ds ↔
    (start = true ∧ Sets (c :: cs ++ back) ds ∧ ∀ d, ¬ Sets (c :: cs) d) ∨
      Reaches (freshBehind start c) cs back ds := by
  constructor
  · rintro ⟨front, part, whole, some, fresh, sets, apart⟩
    cases front with
    | nil =>
        obtain rfl : c :: cs = part := whole
        exact .inl ⟨isFresh_nil_iff.mp fresh, sets, apart⟩
    | cons d front =>
        obtain ⟨rfl, rfl⟩ := List.cons.inj whole
        exact .inr ⟨front, part, rfl, some, isFresh_cons_iff.mp fresh, sets, apart⟩
  · rintro (⟨begins, sets, apart⟩ | ⟨front, part, rfl, some, fresh, sets, apart⟩)
    · exact ⟨[], c :: cs, rfl, List.cons_ne_nil _ _, isFresh_nil_iff.mpr begins, sets, apart⟩
    · exact ⟨c :: front, part, rfl, some, isFresh_cons_iff.mpr fresh, sets, apart⟩

/-- Behind a setting that reaches over the end of a script no other begins in it. -/
theorem not_mem_of_reaching (sets : Sets (c :: cs ++ back) ds) (apart : ∀ d, ¬ Sets (c :: cs) d) :
    'm' ∉ cs := by
  obtain here | ⟨more, rest, -, -, setting⟩ := sets.cut
  · exact absurd here (apart ds)
  · obtain rfl := Option.some.inj sets.head?_eq
    exact fun mem => setting.not_mem_tail (List.mem_append_left more mem)

theorem Reaches.mem (reaches : Reaches start cs back ds) : 'm' ∈ cs := by
  obtain ⟨front, part, rfl, some, -, sets, -⟩ := reaches
  obtain ⟨d, part, rfl⟩ := List.exists_cons_of_ne_nil some
  obtain rfl := Option.some.inj sets.head?_eq
  exact List.mem_append_right _ (.head _)

/-- What counts in a script counts when it goes on. -/
theorem firstSet?_append_of_some (ends : EndsNumber back) (found : firstSet? start pre = some ds) :
    firstSet? start (pre ++ back) = some ds := by
  induction pre generalizing start with
  | nil => cases found
  | cons c cs ih =>
      rw [firstSet?] at found
      rw [List.cons_append, firstSet?, Option.or_eq_some_iff]
      obtain here | ⟨none, later⟩ := Option.or_eq_some_iff.mp found
      · obtain ⟨begins, sets⟩ := ite_setsHere?_eq_some_iff.mp here
        exact .inl (ite_setsHere?_eq_some_iff.mpr ⟨begins, sets.append ends⟩)
      · refine .inr ⟨ite_setsHere?_eq_none_iff.mpr fun begins d sets => ?_, ih later⟩
        exact not_mem_of_reaching sets (ite_setsHere?_eq_none_iff.mp none begins)
          (firstSet?_eq_some_iff.mp later).mem

/-- **What counts in a script that goes on** where nothing counts so far is a setting
that reaches over the end, or else what counts behind. -/
theorem firstSet?_append_of_none (none : firstSet? start pre = none) :
    firstSet? start (pre ++ back) = some ds ↔
      Prefers (Reaches start pre back) (Counts (freshAfter start pre) back) ds := by
  induction pre generalizing start with
  | nil =>
      rw [List.nil_append, firstSet?_eq_some_iff, prefers_of_neg fun _ => not_reaches_nil]
      rfl
  | cons c cs ih =>
      rw [firstSet?, Option.or_eq_none_iff] at none
      have apart := ite_setsHere?_eq_none_iff.mp none.1
      rw [List.cons_append, firstSet?]
      cases reaching : if start then setsHere? (c :: (cs ++ back)) else Option.none with
      | none =>
          have same : Reaches start (c :: cs) back = Reaches (freshBehind start c) cs back := by
            funext d
            refine propext (reaches_cons_iff.trans (or_iff_right ?_))
            rintro ⟨begins, sets, -⟩
            exact ite_setsHere?_eq_none_iff.mp reaching begins d sets
          rw [Option.none_or, ih none.2, same]
          rfl
      | some d =>
          obtain ⟨begins, sets⟩ := ite_setsHere?_eq_some_iff.mp reaching
          have reaches := reaches_cons_iff.mpr (.inl ⟨begins, sets, apart begins⟩)
          rw [Option.some_or, prefers_of_pos reaches, Option.some_inj]
          constructor
          · rintro rfl
            exact reaches
          · intro reaches'
            obtain ⟨-, sets', -⟩ | later := reaches_cons_iff.mp reaches'
            · exact sets.unique sets'
            · exact absurd later.mem (not_mem_of_reaching sets (apart begins))

end Append

end Project

end AndroidLint
