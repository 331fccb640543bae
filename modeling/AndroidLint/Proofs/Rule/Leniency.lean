/-
Leniency — where a higher level or more files let rules pass.

Two things open escape hatches: the lowest level of the platform, and the
files that exist beside the one that is checked.  They are combined with
other conditions in several ways, negated or not, but always so that a
higher level or one more file can make a finding go away and never makes one
appear.  Only two rules look at them at all; the verdicts of the others are
the same, and no failure depends on them.
-/
import AndroidLint.Analysis.Catalog

namespace AndroidLint

open Resource (Presence)
open Rule (Context Node Verdict)

/-- `p.Within q`: the files that `p` tells of are there by `q` too. -/
def Resource.Presence.Within (p q : Presence) : Prop :=
  ∀ file, p file = true → q file = true

/-- A context with another lowest level and other files. -/
def Rule.Context.eased (x : Context) (level : Nat) (files : Presence) : Context :=
  { x with
    settings := { x.settings with minSdk := level }
    presence := files }

/-- `w.Yields v`: the verdict `w` is `v`, or passes where `v` finds
something. -/
def Rule.Verdict.Yields (w v : Verdict) : Prop :=
  w = v ∨ (w = Rule.pass ∧ ∃ f, v = .ok (some f))

/-! ## Files -/

section Files

variable {p q : Presence} (within : p.Within q) (file : FilePath)
include within

theorem hasLollipopVariant_eq_false (missing : Resource.hasLollipopVariant file q = false) :
    Resource.hasLollipopVariant file p = false := by
  delta Resource.hasLollipopVariant at missing ⊢
  split at missing
  case h_1 => exact Bool.eq_false_iff.mpr (mt (within _) (Bool.eq_false_iff.mp missing))
  case h_2 => rfl

theorem isColorSelector_eq_false {color : String}
    (missing : Resource.isColorSelector file q color = false) :
    Resource.isColorSelector file p color = false := by
  delta Resource.isColorSelector at missing ⊢
  split at missing
  case h_1 => exact Bool.eq_false_iff.mpr (mt (within _) (Bool.eq_false_iff.mp missing))
  case h_2 => rfl

end Files

namespace Rule

/-- `r.IsLenient`: raising the level or adding files makes the rule `r`
yield, whatever it looks at. -/
def IsLenient (r : Rule) : Prop :=
  ∀ (x : Context) (level : Nat) (files : Presence), x.settings.minSdk ≤ level →
    x.presence.Within files → ∀ n, (r.judge (x.eased level files) n).Yields (r.judge x n)

theorem yields_reportIf {info : Info} {fires fires' : Bool} {location : Location}
    {message : String} {fix : Option Fix} (weaker : fires' = true → fires = true) :
    Verdict.Yields (info.reportIf fires' location message fix)
      (info.reportIf fires location message fix) := by
  cases fires' with
  | true =>
      rw [weaker rfl]
      exact .inl rfl
  | false =>
      cases fires with
      | true => exact .inr ⟨rfl, _, rfl⟩
      | false => exact .inl rfl

/-! ## The rules that look at them -/

section Conditions

variable {x : Context} {level : Nat} {files : Presence}

theorem colorReferenceFires_of_eased (more : x.presence.Within files) {file : FilePath}
    {d : Markup.Document} {index : Nat} {color : String}
    (fires : colorReferenceFires (x.eased level files) file d index color = true) :
    colorReferenceFires x file d index color = true := by
  simp only [colorReferenceFires, Bool.or_eq_true, Bool.and_eq_true, Bool.not_eq_true'] at fires ⊢
  obtain (⟨inLayout, noSelector⟩ | inVector) | ⟨⟨inDrawable, noVariant⟩, noSelector⟩ := fires
  · exact .inl (.inl ⟨inLayout, isColorSelector_eq_false more file noSelector⟩)
  · exact .inl (.inr inVector)
  · exact .inr ⟨⟨inDrawable, hasLollipopVariant_eq_false more file noVariant⟩,
      isColorSelector_eq_false more file noSelector⟩

theorem below_of_eased (raised : x.settings.minSdk ≤ level)
    (below : decide ((x.eased level files).settings.minSdk < Resource.lollipop) = true) :
    decide (x.settings.minSdk < Resource.lollipop) = true :=
  decide_eq_true (Nat.lt_of_le_of_lt raised (of_decide_eq_true below))

theorem themeReferenceFires_of_eased (raised : x.settings.minSdk ≤ level) {file : FilePath}
    {d : Markup.Document} {index : Nat}
    (fires : themeReferenceFires (x.eased level files) file d index = true) :
    themeReferenceFires x file d index = true := by
  obtain ⟨elsewhere, below⟩ := Bool.and_eq_true_iff.mp fires
  exact Bool.and_eq_true_iff.mpr ⟨elsewhere, below_of_eased raised below⟩

theorem colorFires_of_eased (raised : x.settings.minSdk ≤ level) (more : x.presence.Within files)
    {file : FilePath} {d : Markup.Document} {index : Nat} {a : Markup.Attribute}
    (fires : colorFires (x.eased level files) file d index a = true) :
    colorFires x file d index a = true := by
  obtain ⟨asked, value⟩ := Bool.and_eq_true_iff.mp fires
  refine Bool.and_eq_true_iff.mpr ⟨asked, ?_⟩
  split at value
  case h_1 => exact colorReferenceFires_of_eased more value
  case h_2 =>
    obtain ⟨theme, value⟩ := Bool.and_eq_true_iff.mp value
    exact Bool.and_eq_true_iff.mpr ⟨theme, themeReferenceFires_of_eased raised value⟩

end Conditions

theorem isLenient_colorResourceUsage : IsLenient colorResourceUsage := by
  intro x level files raised more n
  have same : (x.eased level files).resource? = x.resource? := rfl
  dsimp only [colorResourceUsage]
  rw [same]
  split
  · exact yields_reportIf (colorFires_of_eased raised more)
  · exact .inl rfl

theorem isLenient_srcCompatUsage : IsLenient srcCompatUsage := by
  intro x level files raised more n
  dsimp only [srcCompatUsage]
  split
  · refine yields_reportIf fun fires => ?_
    obtain ⟨image, below⟩ := Bool.and_eq_true_iff.mp fires
    exact Bool.and_eq_true_iff.mpr ⟨image, below_of_eased raised below⟩
  · exact .inl rfl

/-! ## All rules -/

/-- A rule that looks at neither is lenient. -/
theorem isLenient_of_same {r : Rule}
    (same : ∀ (x : Context) level files n, r.judge (x.eased level files) n = r.judge x n) :
    IsLenient r :=
  fun x level files _ _ n => .inl (same x level files n)

/-- Every rule yields to a higher level and to more files. -/
theorem isLenient_of_mem_all {r : Rule} (mem : r ∈ all) : r.IsLenient := by
  simp only [all, List.mem_cons, List.not_mem_nil, or_false] at mem
  rcases mem with rfl | rfl | rfl | rfl | rfl | rfl | rfl | rfl | rfl | rfl | rfl | rfl | rfl | rfl
    | rfl
  · exact isLenient_colorResourceUsage
  · exact isLenient_of_same fun _ _ _ _ => rfl
  · exact isLenient_srcCompatUsage
  all_goals exact isLenient_of_same fun _ _ _ _ => rfl

end Rule

end AndroidLint
