/-
Isolation — a file that cannot be parsed is left out, and nothing else
changes.

A path to a file ends in the name of the file (`name_of_trail?`), so of two
projects that are alike a path reads the same from both, or is the path of
a file that is broken in both (`read_alike`).  The name settles of which
kind the file is, wherever it is found.  Such a file is then parsed in
neither project, and it is no manifest and no build script: what is parsed
and the level of the platform are the same.

The reports are in the order of the files that were found, and the paths of
these increase strictly (`pairwise_discover`).
-/
import AndroidLint.Proofs.Analysis.Origin
import AndroidLint.Proofs.Markup.Nesting
import AndroidLint.Proofs.PathPieces
import AndroidLint.Proofs.Project.Discovery
import AndroidLint.Proofs.Project.Likeness

namespace AndroidLint

/-! ## The name at the end of a path -/

namespace FilePath

/-- What is last behind another thing is last without it. -/
theorem getLast?_of_cons {α : Type} {a b : α} {as : List α}
    (last : (a :: as).getLast? = some b) (other : a ≠ b) : as.getLast? = some b := by
  cases as with
  | nil => exact absurd (Option.some.inj last) other
  | cons c cs => rwa [List.getLast?_cons_cons] at last

end FilePath

namespace Project

open Storage (Trail follow)

section Trails

variable {t t' : Trail} {step : String} {steps : List String} {n name : String} {i : Item}
  {outer : Trail}

/-- What a first step does: it stays, goes back, or goes on to what has a
name. -/
theorem cases_of_follow (led : follow t (step :: steps) = .ok t') :
    FilePath.component? step = none ∧ follow t steps = .ok t' ∨
      FilePath.component? step = some .parent ∧ (∃ around, follow around steps = .ok t') ∨
      FilePath.component? step = some (.named step) ∧
        ∃ j, follow ((step, j) :: t) steps = .ok t' := by
  rw [FilePath.component?_eq]
  obtain _ | ⟨⟨m, _ | is⟩, around⟩ := t
  case nil => cases led
  case cons.file => cases led
  case cons.folder =>
    rw [follow] at led
    split at led
    case isTrue stays => exact .inl ⟨if_pos stays, led⟩
    case isFalse goes =>
      rw [if_neg goes]
      split at led
      case isTrue back => exact .inr (.inl ⟨if_pos back, around, led⟩)
      case isFalse inwards =>
        split at led
        case h_1 => cases led
        case h_2 j held => exact .inr (.inr ⟨if_neg inwards, j, led⟩)

/-- Steps that count for nothing lead nowhere. -/
theorem eq_of_follow_idle (idle : steps.filterMap FilePath.component? = [])
    (led : follow t steps = .ok t') : t' = t := by
  induction steps with
  | nil =>
      rw [follow] at led
      exact (Except.ok.inj led).symm
  | cons step steps ih =>
      obtain ⟨first, others⟩ := List.forall_mem_cons.mp (List.filterMap_eq_nil_iff.mp idle)
      obtain ⟨-, stays⟩ | ⟨back, -⟩ | ⟨inwards, -⟩ := cases_of_follow led
      · exact ih (List.filterMap_eq_nil_iff.mpr others) stays
      · cases back.symm.trans first
      · cases inwards.symm.trans first

/-- Where steps lead is named as the last one, if that is a name. -/
theorem name_of_follow (led : follow t steps = .ok ((n, i) :: outer))
    (last : (steps.filterMap FilePath.component?).getLast? = some (.named name)) : n = name := by
  induction steps generalizing t with
  | nil => cases last
  | cons step steps ih =>
      obtain ⟨idle, stays⟩ | ⟨back, around, led⟩ | ⟨inwards, j, led⟩ := cases_of_follow led
      · rw [List.filterMap_cons_none idle] at last
        exact ih stays last
      · rw [List.filterMap_cons_some back] at last
        exact ih led (FilePath.getLast?_of_cons last nofun)
      · rw [List.filterMap_cons_some inwards] at last
        cases behind : steps.filterMap FilePath.component? with
        | nil =>
            rw [behind] at last
            obtain rfl : step = name := FilePath.Component.named.inj (Option.some.inj last)
            exact (Prod.mk.inj (List.cons.inj (eq_of_follow_idle behind led)).1).1
        | cons c cs =>
            rw [behind, List.getLast?_cons_cons] at last
            exact ih led (behind ▸ last)

theorem name_of_trail? {s : Storage} {p : FilePath} (led : s.trail? p = .ok ((n, i) :: outer))
    (named : p.fileName? = some name) : n = name := by
  rw [Storage.trail?] at led
  split at led
  · cases led
  · exact name_of_follow led (FilePath.fileName?_eq_some_iff.mp named)

end Trails

/-! ## What is read at a path -/

/-- A path reads the same from projects that are alike, or is the path of a
file that is broken in both. -/
theorem read_alike {s s' : Storage} (alike : AllAlike s s') {p : FilePath} {name : String}
    (named : p.fileName? = some name) :
    s'.read p = s.read p ∨ IsBroken name (s.read p).toOption ∧
      IsBroken name (s'.read p).toOption := by
  rw [Storage.read, Storage.read]
  obtain ⟨e, lost, lost'⟩ | ⟨t, t', led, led', trails⟩ := (sameWay_trail? alike p).eq
  · rw [lost, lost']
    exact .inl rfl
  · rw [led, led']
    cases trails with
    | nil => exact .inl rfl
    | cons first others =>
        obtain rfl := name_of_trail? led named
        cases first with
        | @file _ text? =>
            refine .inl ?_
            cases text? <;> rfl
        | folder => exact .inl rfl
        | @broken _ text? text'? one other =>
            refine .inr ⟨?_, ?_⟩
            · cases text? <;> exact one
            · cases text'? <;> exact other

/-- Whether a text can be parsed as a file of a kind does not depend on
where the file lies. -/
theorem read_eq_none_iff (kind : FileKind) (p : FilePath) (text : String) :
    (ParsedFile.read kind p text).toOption = none ↔
      kind ≠ .kotlin ∧ kind ≠ .java ∧ ¬ Markup.Completable (Markup.unmarked text.toList) := by
  have markup : ((Markup.read p text).map ParsedFile.resource).toOption = none ↔
      ¬ Markup.Completable (Markup.unmarked text.toList) := by
    have readable : (∃ d, Markup.read p text = .ok d) ↔
        Markup.Completable (Markup.unmarked text.toList) :=
      Markup.isOk_read_iff.trans Markup.isOk_progress_iff
    rw [← readable]
    cases Markup.read p text <;> simp [Except.map, Except.toOption]
  cases kind with
  | kotlin => simp [ParsedFile.read, Except.toOption]
  | java => simp [ParsedFile.read, Except.toOption]
  | _ => simp [ParsedFile.read, markup]

section Parsed

variable {s : Storage} {f : Source} {name : String}

theorem parse?_eq (s : Storage) (f : Source) :
    f.parse? s = (s.read f.path).toOption.bind fun text =>
      (ParsedFile.read f.kind f.path text).toOption := by
  rw [Source.parse?]
  cases s.read f.path <;> rfl

/-- A file that is parsed stands where it was found. -/
theorem path_of_parse? {file : ParsedFile} (parsed : f.parse? s = some file) :
    file.path = f.path := by
  rw [parse?_eq] at parsed
  obtain ⟨text, -, parsed⟩ := Option.bind_eq_some_iff.mp parsed
  exact ParsedFile.path_of_read (eq_ok_of_toOption_eq_some parsed)

/-- A file that is broken by its name and what it holds is of a kind that is
checked, and is not parsed. -/
theorem parse?_of_isBroken (kind : FileKind.classify? f.path = some f.kind)
    (named : f.path.fileName? = some name) (broken : IsBroken name (s.read f.path).toOption) :
    f.kind.isChecked = true ∧ f.parse? s = none := by
  obtain ⟨q, kind', named', kinds, checked, fails⟩ := broken
  obtain rfl := FileKind.eq_of_fileName?_eq named' named kinds kind
  refine ⟨checked, ?_⟩
  rw [parse?_eq, Option.bind_eq_none_iff]
  intro text held
  exact (read_eq_none_iff _ _ _).mpr ((read_eq_none_iff _ _ _).mp (fails text held))

end Parsed

section Files

variable {s s' : Storage} (alike : AllAlike s s') {f : Source}
  (kind : FileKind.classify? f.path = some f.kind)

include alike kind

/-- The same is parsed of a file. -/
theorem parse?_alike : f.parse? s' = f.parse? s := by
  obtain ⟨name, named⟩ := FileKind.exists_name_of_classify? kind
  obtain same | ⟨one, other⟩ := read_alike alike named
  · rw [parse?_eq, parse?_eq, same]
  · rw [(parse?_of_isBroken kind named one).2, (parse?_of_isBroken kind named other).2]

/-- A file that is not checked reads the same. -/
theorem read_eq_of_unchecked (unchecked : f.kind.isChecked = false) :
    s'.read f.path = s.read f.path := by
  obtain ⟨name, named⟩ := FileKind.exists_name_of_classify? kind
  obtain same | ⟨one, -⟩ := read_alike alike named
  · exact same
  · rw [(parse?_of_isBroken kind named one).1] at unchecked
    cases unchecked

end Files

/-! ## The whole run -/

section Runs

variable {s s' : Storage} {c : Configuration} {root : FilePath} {files : List Source}

theorem findSome?_ofKind {α : Type} (kind : FileKind) {find find' : FilePath → Option α}
    (same : ∀ f ∈ files, f.kind = kind → find' f.path = find f.path) :
    (ofKind kind files).findSome? find' = (ofKind kind files).findSome? find := by
  rw [← List.head?_filterMap, ← List.head?_filterMap]
  refine congrArg List.head? (List.filterMap_congr fun p mem => ?_)
  obtain ⟨f, hf, rfl⟩ := List.mem_map.mp mem
  obtain ⟨hf, isKind⟩ := List.mem_filter.mp hf
  exact same f hf (beq_iff_eq.mp isKind)

/-- The level of the platform is the same. -/
theorem levelOf_alike (alike : AllAlike s s')
    (kinds : ∀ f ∈ files, FileKind.classify? f.path = some f.kind) :
    levelOf s' c files = levelOf s c files := by
  have manifests : (ofKind .manifest files).findSome? s'.manifestLevel? =
      (ofKind .manifest files).findSome? s.manifestLevel? := by
    refine findSome?_ofKind .manifest fun f hf isKind => ?_
    rw [Storage.manifestLevel?, Storage.manifestLevel?,
      read_eq_of_unchecked alike (kinds f hf) (by rw [isKind]; rfl)]
  have scripts : (ofKind .buildScript files).findSome? s'.scriptLevel? =
      (ofKind .buildScript files).findSome? s.scriptLevel? := by
    refine findSome?_ofKind .buildScript fun f hf isKind => ?_
    rw [Storage.scriptLevel?, Storage.scriptLevel?,
      read_eq_of_unchecked alike (kinds f hf) (by rw [isKind]; rfl)]
  rw [levelOf, levelOf, minSdk, minSdk, manifests, scripts]

/-- Checking the same files comes to the same. -/
theorem outcomeOf_alike (alike : AllAlike s s')
    (kinds : ∀ f ∈ files, FileKind.classify? f.path = some f.kind) :
    outcomeOf s' c root files = outcomeOf s c root files := by
  have level : levelOf s' c files = levelOf s c files := levelOf_alike alike kinds
  have parsed : (files.filter (·.kind.isChecked)).filterMap (Source.parse? s') =
      (files.filter (·.kind.isChecked)).filterMap (Source.parse? s) :=
    List.filterMap_congr fun f mem => parse?_alike alike (kinds f (List.mem_filter.mp mem).1)
  have presence : s'.has = s.has := funext (has_alike alike)
  simp only [outcomeOf, analysisOf, level, parsed, presence]

/-- Projects that are alike come to the same. -/
theorem lint_alike (alike : AllAlike s s') (c : Configuration) (root : FilePath) :
    lint s' c root = lint s c root := by
  rw [lint, lint, discover_alike alike]
  cases found : discover s c.scope root with
  | error e => rw [Except.map, Except.map]
  | ok files =>
      have same : outcomeOf s' c root files = outcomeOf s c root files :=
        outcomeOf_alike alike fun f mem => classify?_of_mem_discover found mem
      rw [Except.map, Except.map, same]

theorem isChecked_eq (kind : FileKind) :
    kind.isChecked = decide (kind ∈ [.kotlin, .java, .resource]) := by
  cases kind <;> rfl

/-- What is parsed stands where it was found. -/
theorem paths_filterMap_parse? (fs : List Source) :
    (fs.filterMap (Source.parse? s)).map ParsedFile.path =
      (fs.filter fun f => (f.parse? s).isSome).map (·.path) := by
  induction fs with
  | nil => rfl
  | cons f fs ih =>
      cases parsed : f.parse? s with
      | none =>
          rw [List.filterMap_cons_none parsed, List.filter_cons_of_neg (by simp [parsed]), ih]
      | some file =>
          rw [List.filterMap_cons_some parsed, List.filter_cons_of_pos (by simp [parsed]),
            List.map_cons, List.map_cons, path_of_parse? parsed, ih]

theorem paths_reports :
    (outcomeOf s c root files).reports.map (·.path) =
      (files.filter fun f => decide (f.kind ∈ [.kotlin, .java, .resource]) &&
        (f.parse? s).isSome).map (·.path) := by
  rw [outcomeOf, Analysis.run, List.map_map]
  refine (paths_filterMap_parse? _).trans ?_
  rw [List.filter_filter]
  simp only [isChecked_eq, Bool.and_comm]

end Runs

/-- **A file that cannot be parsed is left out, and nothing else changes.**
Where checking a project succeeds, there is one report for each file found
that is to be checked and can be parsed, in the order of their paths, and
the other files that are to be checked are counted.  Any project that
differs from it in files that are broken in both comes to the same. -/
theorem lint_isolates (s : Storage) (c : Configuration) (root : FilePath) (outcome : Outcome)
    (linted : lint s c root = .ok outcome) :
    (∃ files, discover s c.scope root = .ok files ∧
      outcome.reports.map (·.path) =
        (files.filter fun f => decide (f.kind ∈ [.kotlin, .java, .resource]) &&
          (f.parse? s).isSome).map (·.path) ∧
      outcome.reports.Pairwise (fun r r' => r.path.compare r'.path = .lt) ∧
      outcome.filesAnalyzed = outcome.reports.length ∧
      outcome.filesAnalyzed + outcome.filesSkipped =
        files.countP (·.kind ∈ [.kotlin, .java, .resource])) ∧
    ∀ s', AllAlike s s' → lint s' c root = .ok outcome := by
  refine ⟨?_, fun s' alike => (lint_alike alike c root).trans linted⟩
  obtain ⟨files, found, rfl⟩ := exists_of_map_eq_ok linted
  refine ⟨files, found, paths_reports, ?_, ?_, ?_⟩
  · have ordered := (pairwise_discover found).sublist
      (List.filter_sublist (p := fun f => decide (f.kind ∈ [.kotlin, .java, .resource]) &&
        (f.parse? s).isSome))
    have ordered := List.pairwise_map (R := fun p q : FilePath => p.compare q = .lt).mpr ordered
    rw [← paths_reports] at ordered
    exact List.pairwise_map.mp ordered
  · rw [outcomeOf, Analysis.run, List.length_map]
  · rw [outcomeOf, Nat.add_sub_cancel' (List.length_filterMap_le _ _),
      ← List.countP_eq_length_filter]
    simp only [isChecked_eq]

/-- A project with two layouts, the second of which holds some text. -/
def layouts (text? : Option String) : Storage :=
  [("res", .folder [("layout", .folder
    [("good.xml", .file (some "<ImageView android:src=\"4dp\" />")),
     ("broken.xml", .file text?)])])]

/-- The second layout does not nest in one project and is no text in the
other. -/
theorem lint_isolates_layouts :
    AllAlike (layouts (some "<FrameLayout><View></FrameLayout>")) (layouts none) ∧
      ∃ outcome,
        lint (layouts (some "<FrameLayout><View></FrameLayout>")) .default ⟨"."⟩ = .ok outcome ∧
        outcome.reports.Pairwise (fun r r' => r.path.compare r'.path = .lt) ∧
        lint (layouts none) .default ⟨"."⟩ = .ok outcome := by
  have broken (text? : Option String) (fails : ∀ text ∈ text?,
      (ParsedFile.read .resource ⟨"res/layout/broken.xml"⟩ text).toOption = none) :
      IsBroken "broken.xml" text? :=
    ⟨⟨"res/layout/broken.xml"⟩, .resource, by decide +kernel, by decide +kernel, rfl, fails⟩
  have unnested : (ParsedFile.read .resource ⟨"res/layout/broken.xml"⟩
      "<FrameLayout><View></FrameLayout>").toOption.isNone = true := by
    decide +kernel
  have alike : AllAlike (layouts (some "<FrameLayout><View></FrameLayout>")) (layouts none) := by
    refine .cons (.folder (.cons (.folder (.cons .file (.cons ?_ .nil))) .nil)) .nil
    refine .broken (broken _ ?_) (broken _ nofun)
    rintro text ⟨⟩
    exact Option.isNone_iff_eq_none.mp unnested
  have isOk : (lint (layouts (some "<FrameLayout><View></FrameLayout>")) .default
      ⟨"."⟩).toOption.isSome = true := by
    decide +kernel
  obtain ⟨outcome, kept⟩ := Option.isSome_iff_exists.mp isOk
  have linted := eq_ok_of_toOption_eq_some kept
  obtain ⟨⟨files, -, -, ordered, -⟩, isolated⟩ := lint_isolates _ .default ⟨"."⟩ outcome linted
  exact ⟨alike, outcome, linted, ordered, isolated _ alike⟩

end Project

end AndroidLint
