/-
Periods — which periods in a path are reported.

The rule drops every hop, two periods and the slash behind them, from the text of
the path and counts the periods that remain.  It does not ask where a name
begins, so a hop is dropped at the end of a longer name as well, and a period
that is a piece of its own is counted.  `Remains` says of a text, without the
scan, that one of its periods is in no hop.

A text can be cut where no hop is cut (`kept_append`): behind each slash, and in
front of the extension.  So what remains is found folder by folder, and the
extension has one period of its own (`one_lt_count_kept_iff`).
-/
import AndroidLint.Proofs.PathPieces
import AndroidLint.Proofs.Rule.Attributes
import AndroidLint.Proofs.Rule.Calls
import AndroidLint.Rule.Conventions

namespace AndroidLint

namespace Rule

open Code (SourceFile Language)

/-! ## Hops -/

/-- Whether a character is a slash that leans either way. -/
def isSlash (c : Char) : Bool :=
  c == '/' || c == '\\'

/-- A character, or the slash that a slash leaning the other way is taken for. -/
def leant (c : Char) : Char :=
  if c = '\\' then '/' else c

theorem leant_eq_slash_iff {c : Char} : leant c = '/' ↔ isSlash c = true := by
  rw [leant]
  split <;> simp_all [isSlash]

theorem leant_eq_period_iff {c : Char} : leant c = '.' ↔ c = '.' := by
  rw [leant]
  split <;> simp_all

/-- What is left of a text without its hops. -/
def kept (cs : List Char) : List Char :=
  withoutHops (cs.map leant)

/-- A hop begins the text. -/
def BeginsWithHop (cs : List Char) : Prop :=
  ∃ c r, isSlash c = true ∧ cs = '.' :: '.' :: c :: r

theorem kept_hop {c : Char} (slash : isSlash c = true) (r : List Char) :
    kept ('.' :: '.' :: c :: r) = kept r := by
  simp [kept, leant_eq_slash_iff.mpr slash, leant_eq_period_iff.mpr rfl, withoutHops]

theorem kept_cons {c : Char} {r : List Char} (other : ¬ BeginsWithHop (c :: r)) :
    kept (c :: r) = leant c :: kept r := by
  rw [kept, List.map_cons, withoutHops.eq_2]
  · rfl
  · intro rest hc hr
    obtain ⟨d, r, rfl, hd, hr⟩ := List.map_eq_cons_iff.mp hr
    obtain ⟨e, r, rfl, he, -⟩ := List.map_eq_cons_iff.mp hr
    refine other ⟨e, r, leant_eq_slash_iff.mp he, ?_⟩
    rw [leant_eq_period_iff.mp hc, leant_eq_period_iff.mp hd]

/-- A text is made from its end, by putting in front either a hop or one
character that begins none. -/
theorem hopInduction {P : List Char → Prop} (nil : P [])
    (hop : ∀ c r, isSlash c = true → P r → P ('.' :: '.' :: c :: r))
    (cons : ∀ c r, ¬ BeginsWithHop (c :: r) → P r → P (c :: r)) (cs : List Char) : P cs := by
  induction h : cs.length using Nat.strongRecOn generalizing cs with
  | ind n ih =>
      subst h
      cases cs with
      | nil => exact nil
      | cons c r =>
          by_cases begins : BeginsWithHop (c :: r)
          case pos =>
            obtain ⟨d, r', slash, whole⟩ := begins
            rw [whole] at ih ⊢
            exact hop d r' slash (ih r'.length (by simp only [List.length_cons]; omega) r' rfl)
          case neg => exact cons c r begins (ih r.length (Nat.lt_succ_self _) r rfl)

/-! ## Cutting a text -/

/-- `Sound front back`: no hop is cut between the two texts. -/
def Sound (front back : List Char) : Prop :=
  ∀ c, isSlash c = true →
    ¬ (['.'] <:+ front ∧ ['.', c] <+: back) ∧ ¬ (['.', '.'] <:+ front ∧ [c] <+: back)

theorem Sound.of_cons {c : Char} {front back : List Char} (sound : Sound (c :: front) back) :
    Sound front back := by
  refine fun d slash => ⟨?_, ?_⟩
  · rintro ⟨ends, begins⟩
    exact (sound d slash).1 ⟨ends.trans (List.suffix_cons c front), begins⟩
  · rintro ⟨ends, begins⟩
    exact (sound d slash).2 ⟨ends.trans (List.suffix_cons c front), begins⟩

/-- What begins with no hop begins with none after a text is added behind a sound
cut. -/
theorem Sound.not_beginsWithHop {c : Char} {front back : List Char}
    (sound : Sound (c :: front) back) (other : ¬ BeginsWithHop (c :: front)) :
    ¬ BeginsWithHop (c :: (front ++ back)) := by
  rintro ⟨d, rest, slash, whole⟩
  match front, whole with
  | [], whole =>
      cases whole
      exact (sound d slash).1 ⟨List.suffix_refl _, rest, rfl⟩
  | [e], whole =>
      cases whole
      exact (sound d slash).2 ⟨List.suffix_refl _, rest, rfl⟩
  | e :: e' :: front, whole =>
      cases whole
      exact other ⟨d, front, slash, rfl⟩

theorem kept_append {front back : List Char} (sound : Sound front back) :
    kept (front ++ back) = kept front ++ kept back := by
  induction front using hopInduction with
  | nil => rfl
  | hop c r slash ih =>
      rw [List.cons_append, List.cons_append, List.cons_append, kept_hop slash, kept_hop slash,
        ih sound.of_cons.of_cons.of_cons]
  | cons c r other ih =>
      rw [List.cons_append, kept_cons (sound.not_beginsWithHop other), kept_cons other,
        ih sound.of_cons, List.cons_append]

/-! ## Periods that remain -/

/-- `Remains cs`: a period of the text is neither the first nor the second of two
that a slash follows. -/
def Remains (cs : List Char) : Prop :=
  ∃ front back, cs = front ++ '.' :: back ∧
    ∀ c, isSlash c = true → ¬ ['.', c] <+: back ∧ ¬ (['.'] <:+ front ∧ [c] <+: back)

theorem not_period_of_isSlash {c : Char} (slash : isSlash c = true) : c ≠ '.' := by
  rintro rfl
  cases slash

theorem Remains.mem_kept {cs : List Char} (remains : Remains cs) : '.' ∈ kept cs := by
  obtain ⟨front, back, rfl, stays⟩ := remains
  have before : Sound front ('.' :: back) := by
    refine fun c slash => ⟨?_, ?_⟩
    · rintro ⟨ends, begins⟩
      exact (stays c slash).2 ⟨ends, (List.cons_prefix_cons.mp begins).2⟩
    · rintro ⟨-, begins⟩
      exact not_period_of_isSlash slash (List.cons_prefix_cons.mp begins).1
  have behind : Sound ['.'] back := by
    refine fun c slash => ⟨fun h => (stays c slash).1 h.2, ?_⟩
    rintro ⟨ends, -⟩
    exact absurd ends.length_le (by decide)
  rw [kept_append before, ← List.singleton_append, kept_append behind]
  exact List.mem_append_right _ (List.mem_append_left _ (List.mem_singleton_self _))

theorem Remains.hop {c : Char} {r : List Char} (slash : isSlash c = true) (remains : Remains r) :
    Remains ('.' :: '.' :: c :: r) := by
  obtain ⟨front, back, rfl, stays⟩ := remains
  refine ⟨'.' :: '.' :: c :: front, back, rfl, fun d slash' => ⟨(stays d slash').1, ?_⟩⟩
  rintro ⟨ends, begins⟩
  simp [List.suffix_cons_iff, (not_period_of_isSlash slash).symm] at ends
  exact (stays d slash').2 ⟨ends, begins⟩

theorem Remains.cons {c : Char} {r : List Char} (other : c ≠ '.') (remains : Remains r) :
    Remains (c :: r) := by
  obtain ⟨front, back, rfl, stays⟩ := remains
  refine ⟨c :: front, back, rfl, fun d slash => ⟨(stays d slash).1, ?_⟩⟩
  rintro ⟨ends, begins⟩
  obtain same | ends := List.suffix_cons_iff.mp ends
  · exact other (List.cons.inj same).1.symm
  · exact (stays d slash).2 ⟨ends, begins⟩

/-- The periods that remain are those that the rule counts. -/
theorem remains_iff {cs : List Char} : Remains cs ↔ '.' ∈ kept cs := by
  refine ⟨Remains.mem_kept, fun mem => ?_⟩
  induction cs using hopInduction with
  | nil => cases mem
  | hop c r slash ih =>
      rw [kept_hop slash] at mem
      exact (ih mem).hop slash
  | cons c r other ih =>
      rw [kept_cons other] at mem
      by_cases period : c = '.'
      · refine ⟨[], r, by rw [period]; rfl, fun d slash => ⟨?_, ?_⟩⟩
        · rintro ⟨rest, rfl⟩
          exact other ⟨d, rest, slash, by rw [period]; rfl⟩
        · rintro ⟨ends, -⟩
          exact absurd ends.length_le (by decide)
      · obtain same | mem := List.mem_cons.mp mem
        · exact absurd (leant_eq_period_iff.mp same.symm) period
        · exact (ih mem).cons period

/-! ## Folders, name and what follows -/

/-- The folders of a path as they stand in its text. -/
def folderText (ds : List String) : List Char :=
  ds.flatMap fun d => d.toList ++ ['/']

/-- The pieces behind the name as they stand in the text of a path. -/
def trailerText (pieces : List String) : List Char :=
  pieces.flatMap fun piece => '/' :: piece.toList

theorem toList_intercalate_cons (name : String) (idle : List String) :
    ("/".intercalate (name :: idle)).toList = name.toList ++ trailerText idle := by
  induction idle generalizing name with
  | nil => simp [trailerText]
  | cons piece idle ih =>
      rw [String.intercalate_cons_of_ne_nil (List.cons_ne_nil _ _), String.toList_append, ih]
      simp [trailerText]

theorem toList_intercalate_append (ds : List String) (name : String) (idle : List String) :
    ("/".intercalate (ds ++ name :: idle)).toList =
      folderText ds ++ (name.toList ++ trailerText idle) := by
  induction ds with
  | nil => exact toList_intercalate_cons name idle
  | cons d ds ih =>
      rw [List.cons_append, String.intercalate_cons_of_ne_nil (by simp), String.toList_append, ih]
      simp [folderText]

theorem eq_of_suffix_concat {s front : List Char} {a b : Char}
    (ends : s ++ [a] <:+ front ++ [b]) : a = b := by
  obtain ⟨t, whole⟩ := ends
  simpa [← List.append_assoc] using congrArg List.getLast? whole

/-- A hop does not reach over the slash behind a folder. -/
theorem mem_kept_folderText {ds : List String} {rest : List Char} :
    '.' ∈ kept (folderText ds ++ rest) ↔
      (∃ d ∈ ds, Remains (d.toList ++ ['/'])) ∨ Remains rest := by
  induction ds with
  | nil => simp [folderText, remains_iff]
  | cons d ds ih =>
      have sound : Sound (d.toList ++ ['/']) (folderText ds ++ rest) := fun c _ =>
        ⟨fun h => absurd (eq_of_suffix_concat (s := []) h.1) (by decide),
          fun h => absurd (eq_of_suffix_concat (s := ['.']) h.1) (by decide)⟩
      have cut : folderText (d :: ds) ++ rest = (d.toList ++ ['/']) ++ (folderText ds ++ rest) := by
        simp [folderText]
      rw [cut, kept_append sound, List.mem_append, ih, ← remains_iff, ← or_assoc]
      simp

/-- Behind the name there are no hops. -/
theorem mem_kept_trailerText {idle : List String}
    (behind : ∀ piece ∈ idle, FilePath.isIdle piece = true) :
    '.' ∈ kept (trailerText idle) ↔ "." ∈ idle := by
  induction idle with
  | nil => simp [trailerText, kept, withoutHops]
  | cons piece idle ih =>
      obtain ⟨first, others⟩ := List.forall_mem_cons.mp behind
      have slashed (c : Char) : ¬ ['.', c] <+: trailerText idle := by
        intro begins
        cases idle with
        | nil => exact absurd begins.length_le (by simp [trailerText])
        | cons p ps => exact absurd (List.cons_prefix_cons.mp begins).1 (by decide)
      have cut : trailerText (piece :: idle) = ('/' :: piece.toList) ++ trailerText idle := rfl
      obtain rfl | rfl := FilePath.isIdle_iff.mp first
      · have sound : Sound ('/' :: "".toList) (trailerText idle) := fun c _ =>
          ⟨fun h => slashed c h.2, fun h => absurd h.1 (by decide)⟩
        rw [cut, kept_append sound, List.mem_append, ih others, List.mem_cons]
        exact or_congr_left (by decide)
      · have sound : Sound ('/' :: ".".toList) (trailerText idle) := fun c _ =>
          ⟨fun h => slashed c h.2, fun h => absurd h.1 (by decide)⟩
        rw [cut, kept_append sound, List.mem_append, ih others, List.mem_cons]
        exact or_congr_left (by decide)

/-! ## The periods of a path -/

/-- A path has a period besides the one of its extension, in the name of a folder
or in the stem, that is in no hop, or a period that is a piece behind the name. -/
def HasStrayPeriod (p : FilePath) : Prop :=
  (∃ d ∈ p.directories, Remains (d.toList ++ ['/'])) ∨ (∃ s ∈ p.stem?, Remains s.toList) ∨
    "." ∈ p.trailer

section Extension

variable {ext : List Char} (some : ext ≠ []) (plain : ∀ c ∈ ext, c ≠ '.' ∧ isSlash c = false)

include some plain

theorem sound_front_extension (front back : List Char) : Sound front ('.' :: ext ++ back) := by
  obtain ⟨e, rest, rfl⟩ := List.exists_cons_of_ne_nil some
  refine fun c slash => ⟨?_, ?_⟩
  · rintro ⟨-, begins⟩
    have same : c = e := (List.cons_prefix_cons.mp (List.cons_prefix_cons.mp begins).2).1
    rw [same, (plain e List.mem_cons_self).2] at slash
    cases slash
  · rintro ⟨-, begins⟩
    exact not_period_of_isSlash slash (List.cons_prefix_cons.mp begins).1

theorem sound_extension_back (back : List Char) : Sound ('.' :: ext) back := by
  obtain ⟨rest, e, rfl⟩ := (List.eq_nil_or_concat ext).resolve_left some
  have last : e ≠ '.' := (plain e (by simp)).1
  rw [List.concat_eq_append, ← List.cons_append]
  exact fun c _ => ⟨fun h => last (eq_of_suffix_concat (s := []) h.1).symm,
    fun h => last (eq_of_suffix_concat (s := ['.']) h.1).symm⟩

theorem count_kept_extension : (kept ('.' :: ext)).count '.' = 1 := by
  have none : '.' ∉ kept ext := by
    rw [← remains_iff]
    rintro ⟨front, back, rfl, -⟩
    exact (plain '.' (by simp)).1 rfl
  have other : ¬ BeginsWithHop ('.' :: ext) := by
    rintro ⟨c, rest, -, whole⟩
    obtain rfl := (List.cons.inj whole).2
    exact (plain '.' List.mem_cons_self).1 rfl
  rw [kept_cons other, leant_eq_period_iff.mpr rfl, List.count_cons_self,
    List.count_eq_zero_of_not_mem none]

/-- The period in front of the extension is one of the periods that are counted. -/
theorem one_lt_count_kept_iff (front back : List Char) :
    1 < (kept (front ++ ('.' :: ext ++ back))).count '.' ↔ '.' ∈ kept front ∨ '.' ∈ kept back := by
  rw [kept_append (sound_front_extension some plain front back),
    kept_append (sound_extension_back some plain back), List.count_append, List.count_append,
    count_kept_extension some plain, ← List.count_pos_iff, ← List.count_pos_iff]
  omega

end Extension

theorem not_hasStrayPeriod_empty : ¬ HasStrayPeriod ⟨""⟩ := by
  rintro (⟨d, mem, -⟩ | ⟨s, mem, -⟩ | mem)
  · cases mem
  · cases mem
  · exact absurd mem (by decide)

/-- The rule counts more than one period exactly if a period strays. -/
theorem hasStrayPeriod_iff {root path : FilePath}
    (source : path.extension? = some "kt" ∨ path.extension? = some "java") :
    hasStrayPeriod root path = true ↔ HasStrayPeriod (path.seenFrom root) := by
  obtain ⟨ext, known, nonempty, plain⟩ : ∃ ext : String, path.extension? = some ext ∧
      ext.toList ≠ [] ∧ ∀ c ∈ ext.toList, c ≠ '.' ∧ isSlash c = false := by
    obtain known | known := source
    · exact ⟨"kt", known, by simp, by simp [isSlash]⟩
    · exact ⟨"java", known, by simp, by simp [isSlash]⟩
  obtain ⟨name, -, ofPath, -⟩ := FilePath.fileName?_of_extension? known
  have counts : hasStrayPeriod root path =
      decide (1 < (kept (path.seenFrom root).text.toList).count '.') := rfl
  rw [counts, decide_eq_true_iff]
  obtain empty | ofRest := FilePath.fileName?_seenFrom ofPath root
  case inl =>
    rw [show path.seenFrom root = ⟨""⟩ from congrArg FilePath.mk empty]
    exact ⟨fun many => absurd many (by decide), fun stray => absurd stray not_hasStrayPeriod_empty⟩
  case inr =>
    generalize path.seenFrom root = rest at ofRest
    have same : rest.extension? = some ext := by
      rw [← known, FilePath.extension?, FilePath.extension?, ofPath, ofRest]
    obtain ⟨name', stem, ofRest, stemmed, parts⟩ := FilePath.fileName?_of_extension? same
    obtain ⟨pieces, idle⟩ := FilePath.splitAll_of_fileName? ofRest
    have text : rest.text.toList = (folderText rest.directories ++ stem.toList) ++
        ('.' :: ext.toList ++ trailerText rest.trailer) := by
      rw [(Text.splitAll_eq_iff.mp pieces).1]
      refine (toList_intercalate_append _ _ _).trans ?_
      rw [parts]
      simp
    rw [text, one_lt_count_kept_iff nonempty plain, mem_kept_folderText, mem_kept_trailerText idle,
      HasStrayPeriod, stemmed, or_assoc]
    simp

/-! ## Ordinary paths -/

/-- `IsOrdinary p`: no name has a slash that leans backwards, no folder's name ends
in two periods unless it is `..`, and no piece is a single period. -/
structure IsOrdinary (p : FilePath) : Prop where
  folders : ∀ d ∈ p.directories,
    d ≠ "." ∧ '\\' ∉ d.toList ∧ (['.', '.'] <:+ d.toList → d = "..")
  stem : ∀ s ∈ p.stem?, '\\' ∉ s.toList
  trailer : "." ∉ p.trailer

theorem remains_of_mem {cs : List Char} (apart : ∀ c ∈ cs, isSlash c = false) (mem : '.' ∈ cs) :
    Remains cs := by
  obtain ⟨front, back, rfl⟩ := List.append_of_mem mem
  have none : ∀ c ∈ back, isSlash c = false := fun c mem => apart c (by simp [mem])
  refine ⟨front, back, rfl, fun c slash => ⟨?_, ?_⟩⟩
  · intro begins
    exact absurd slash (by simp [none c (begins.subset (by simp))])
  · rintro ⟨-, begins⟩
    exact absurd slash (by simp [none c (begins.subset (by simp))])

theorem mem_of_remains {cs : List Char} (remains : Remains cs) : '.' ∈ cs := by
  obtain ⟨front, back, rfl, -⟩ := remains
  simp

theorem remains_folder_iff {d : List Char} (apart : ∀ c ∈ d, isSlash c = false)
    (hop : ['.', '.'] <:+ d → d = ['.', '.']) :
    Remains (d ++ ['/']) ↔ d ≠ ['.', '.'] ∧ '.' ∈ d := by
  constructor
  · intro remains
    refine ⟨?_, by simpa using mem_of_remains remains⟩
    rintro rfl
    exact absurd (remains_iff.mp remains) (by decide)
  · rintro ⟨other, mem⟩
    obtain ⟨front, back, rfl⟩ := List.append_of_mem mem
    have none : ∀ c ∈ back, isSlash c = false := fun c mem => apart c (by simp [mem])
    refine ⟨front, back ++ ['/'], by simp, fun c slash => ⟨?_, ?_⟩⟩
    · intro begins
      match back, none with
      | [], _ => exact absurd (List.cons_prefix_cons.mp begins).1 (by decide)
      | [e], _ =>
          obtain rfl : '.' = e := (List.cons_prefix_cons.mp begins).1
          exact other (hop ⟨front, rfl⟩)
      | e :: e' :: back, none =>
          obtain rfl : c = e' :=
            (List.cons_prefix_cons.mp (List.cons_prefix_cons.mp begins).2).1
          exact absurd slash (by simp [none c (by simp)])
    · rintro ⟨⟨first, rfl⟩, begins⟩
      cases back with
      | nil => exact other (hop ⟨first, by simp⟩)
      | cons e back =>
          obtain rfl : c = e := (List.cons_prefix_cons.mp begins).1
          exact absurd slash (by simp [none c (by simp)])

/-- In an ordinary path each period in a name strays. -/
theorem IsOrdinary.hasStrayPeriod_iff {p : FilePath} (ordinary : IsOrdinary p) :
    HasStrayPeriod p ↔
      (∃ d ∈ p.directories, d ≠ ".." ∧ '.' ∈ d.toList) ∨ ∃ s ∈ p.stem?, '.' ∈ s.toList := by
  have apart {cs : List Char} (slash : '/' ∉ cs) (other : '\\' ∉ cs) :
      ∀ c ∈ cs, isSlash c = false := by
    intro c mem
    rw [isSlash, Bool.or_eq_false_iff, beq_eq_false_iff_ne, beq_eq_false_iff_ne]
    exact ⟨fun same => slash (same ▸ mem), fun same => other (same ▸ mem)⟩
  have folder (d : String) (mem : d ∈ p.directories) :
      Remains (d.toList ++ ['/']) ↔ d ≠ ".." ∧ '.' ∈ d.toList := by
    obtain ⟨-, other, hop⟩ := ordinary.folders d mem
    rw [remains_folder_iff (apart (FilePath.slash_not_mem_directories mem) other)
      fun ends => congrArg String.toList (hop ends)]
    exact and_congr_left' (not_congr (String.toList_inj : d.toList = "..".toList ↔ d = ".."))
  have stem (s : String) (mem : s ∈ p.stem?) : Remains s.toList ↔ '.' ∈ s.toList :=
    ⟨mem_of_remains,
      remains_of_mem (apart (FilePath.slash_not_mem_stem mem) (ordinary.stem s mem))⟩
  rw [HasStrayPeriod, or_iff_left ordinary.trailer]
  exact or_congr (exists_congr fun d => and_congr_right fun mem => folder d mem)
    (exists_congr fun s => and_congr_right fun mem => stem s mem)

/-! ## The rule -/

/-- **Periods in names are reported, hops apart.**  A Kotlin or Java file is
reported exactly if a period strays in its path as seen from the root of the
project.  In an ordinary path it does exactly if the name of a folder other than
`..`, or the stem of the file, has a period. -/
theorem judge_packageName_iff {x : Context} {f : SourceFile}
    (source : f.path.extension? = some "kt" ∨ f.path.extension? = some "java") :
    let rest := f.path.seenFrom x.settings.projectRoot
    let found := packageInfo.finding f.location packageExplanation none
    (packageName.judge x (.file f) = .ok (some found) ↔ HasStrayPeriod rest) ∧
      (packageName.judge x (.file f) = pass ↔ ¬ HasStrayPeriod rest) ∧
      (IsOrdinary rest → (HasStrayPeriod rest ↔
        (∃ d ∈ rest.directories, d ≠ ".." ∧ '.' ∈ d.toList) ∨
          ∃ s ∈ rest.stem?, '.' ∈ s.toList)) := by
  have strays : hasStrayPeriod x.settings.projectRoot f.path = true ↔ _ :=
    hasStrayPeriod_iff source
  exact ⟨reportIf_eq_finding_iff.trans strays, reportIf_eq_pass_iff.trans (not_congr strays),
    IsOrdinary.hasStrayPeriod_iff⟩

/-- A class in a folder with a version in its name. -/
theorem judge_packageName_feature :
    let f := Language.kotlin.read ⟨"src/feature.v2/A.kt"⟩ "class A\n"
    packageName.judge (contextIn [f] f) (.file f) =
        .ok (some (packageInfo.finding f.location packageExplanation none)) ∧
      ∃ d ∈ (f.path.seenFrom ⟨"."⟩).directories, d ≠ ".." ∧ '.' ∈ d.toList := by
  intro f
  have path : f.path = ⟨"src/feature.v2/A.kt"⟩ := by decide +kernel
  have source : f.path.extension? = some "kt" := by rw [path]; decide
  have folders : (f.path.seenFrom ⟨"."⟩).directories = ["src", "feature.v2"] := by
    rw [path]
    decide +kernel
  have ordinary : IsOrdinary (f.path.seenFrom ⟨"."⟩) := by
    constructor
    · rw [folders]
      decide
    · rw [path]
      decide +kernel
    · rw [path]
      decide +kernel
  have named : ∃ d ∈ (f.path.seenFrom ⟨"."⟩).directories, d ≠ ".." ∧ '.' ∈ d.toList :=
    ⟨"feature.v2", by rw [folders]; decide, by decide, by decide⟩
  obtain ⟨reported, -, law⟩ := judge_packageName_iff (x := contextIn [f] f) (.inl source)
  exact ⟨reported.mpr ((law ordinary).mpr (.inl named)), named⟩

/-- Two periods at the end of a folder's name are taken for a hop, and the file is
not reported; a hop to the same folder is taken for a name, and the file is. -/
theorem packageName_passes_trailing_periods :
    let f := Language.kotlin.read ⟨"a../B.kt"⟩ "class B\n"
    let g := Language.kotlin.read ⟨"a/./B.kt"⟩ "class B\n"
    let reported (f : SourceFile) :=
      ((packageName.judge (contextIn [f] f) (.file f)).toOption.join).map (·.ruleId)
    (f.path.seenFrom ⟨"."⟩).directories = ["a.."] ∧ reported f = none ∧
      (g.path.seenFrom ⟨"."⟩).directories = ["a", "."] ∧ g.path.stem? = some "B" ∧
      reported g = some "PackageNameDetector" := by
  decide +kernel

end Rule

end AndroidLint
