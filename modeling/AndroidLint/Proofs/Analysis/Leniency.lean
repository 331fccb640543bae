/-
Leniency — what a higher level and more files do to a report.

Compared are two reports on one file under one selection: one with a higher
lowest level, and with more files beside the checked one.  What is offered
to the rules is the same.  At each offer a rule finds the same or nothing
(`Rule.isLenient_of_mem_all`), so the findings are part of the findings
before, and sorting keeps them part of those, in their order.
-/
import AndroidLint.Proofs.Analysis.Selection
import AndroidLint.Proofs.Rule.Leniency

namespace AndroidLint

open Resource (Presence)
open Rule (Node Context)

/-- What a function picks out of a list is part of what another does that
picks the same or more. -/
theorem filterMap_sublist {α β : Type} {g h : α → Option β} {l : List α}
    (part : ∀ a ∈ l, g a = h a ∨ g a = none) : (l.filterMap g).Sublist (l.filterMap h) := by
  induction l with
  | nil => exact List.Sublist.refl _
  | cons a l ih =>
      have rest := ih fun b mem => part b (List.mem_cons_of_mem _ mem)
      obtain same | nothing := part a List.mem_cons_self
      · rw [List.filterMap_cons, List.filterMap_cons, same]
        cases h a with
        | none => exact rest
        | some b => exact rest.cons_cons b
      · rw [List.filterMap_cons_none nothing, List.filterMap_cons]
        cases h a with
        | none => exact rest
        | some b => exact rest.cons b

theorem Resource.Presence.ofList_within {few many : List FilePath}
    (more : ∀ p ∈ few, p.isAmong many = true) : (Presence.ofList few).Within (.ofList many) := by
  intro file there
  obtain ⟨p, mem, same⟩ := List.any_eq_true.mp there
  obtain ⟨q, mem, same'⟩ := List.any_eq_true.mp (more p mem)
  refine List.any_eq_true.mpr ⟨q, mem, ?_⟩
  rw [FilePath.same, beq_iff_eq] at same same' ⊢
  exact same.trans same'

/-! ## Offer by offer -/

section Offers

variable {s : Selection} {x : Context} {level : Nat} {files : Presence}
  (raised : x.settings.minSdk ≤ level) (more : x.presence.Within files)
include raised more

theorem finding?_eased {o : Node × Rule} (mem : o.2 ∈ Rule.all) :
    Reference.finding? s (x.eased level files) o = Reference.finding? s x o ∨
      Reference.finding? s (x.eased level files) o = none := by
  have silenced : Suppression.isSilenced (x.eased level files) o.1 o.2.id =
      Suppression.isSilenced x o.1 o.2.id := rfl
  rw [Reference.finding?, Reference.finding?, silenced]
  obtain same | ⟨passes, -⟩ := Rule.isLenient_of_mem_all mem x level files raised more o.1
  · rw [same]
    exact .inl rfl
  · rw [passes]
    exact .inr rfl

theorem failure?_eased {o : Node × Rule} (mem : o.2 ∈ Rule.all) :
    Reference.failure? (x.eased level files) o = Reference.failure? x o := by
  rw [Reference.failure?, Reference.failure?]
  obtain same | ⟨passes, f, found⟩ := Rule.isLenient_of_mem_all mem x level files raised more o.1
  · rw [same]
  · rw [passes, found]
    rfl

end Offers

/-! ## File by file -/

/-- **Escape hatches only remove findings.**  For every selection, file and
resolver: a report with a lowest level that is no lower, and with the listed
files and perhaps more, has part of the findings, in the same order, and the
same failures. -/
theorem reportOn_eased (s : Selection) (settings : Rule.Settings) (resolver : Symbol.Resolver)
    (file : ParsedFile) {level : Nat} (raised : settings.minSdk ≤ level)
    {few many : List FilePath} (more : ∀ p ∈ few, p.isAmong many = true) :
    let strict : Analysis := ⟨.ofSelection s, settings, resolver, .ofList few⟩
    let lenient : Analysis :=
      ⟨.ofSelection s, { settings with minSdk := level }, resolver, .ofList many⟩
    (lenient.reportOn file).findings.Sublist (strict.reportOn file).findings ∧
      (lenient.reportOn file).failures = (strict.reportOn file).failures := by
  intro strict lenient
  have hstrict := reportOn_selecting strict s file
  have hlenient := reportOn_selecting lenient s file
  rw [show strict.selecting s = strict from rfl] at hstrict
  rw [show lenient.selecting s = lenient from rfl] at hlenient
  have heased : lenient.context file = (strict.context file).eased level (.ofList many) := rfl
  have within : (strict.context file).presence.Within (.ofList many) :=
    Presence.ofList_within more
  rw [hstrict, hlenient, heased]
  constructor
  · refine sortBy_sublist (filterMap_sublist fun o mem => ?_)
    exact finding?_eased raised within (mem_all_of_offered mem).1
  · refine List.filterMap_congr fun o mem => ?_
    exact failure?_eased raised within (mem_all_of_offered mem).1

/-- A drawable with a color of its own, one of the theme and one that is
written out. -/
def backgroundDrawable : ParsedFile :=
  let path : FilePath := ⟨"res/drawable/bg.xml"⟩
  let setting (name value : String) : Markup.Attribute := ⟨name, value, .top path⟩
  .resource ⟨path, #[{
    tag := "shape"
    attributes := [setting "android:color" "@color/black",
      setting "android:startColor" "?colorAccent", setting "android:endColor" "#fff"]
    parent := none
    children := []
    location := .top path }]⟩

/-- The copy for Android 5.0 allows the first, the level of Android 5.0 the
second, and nothing the third. -/
theorem reportOn_eased_backgroundDrawable :
    let strict : Analysis := ⟨.ofSelection .none, .default, (Symbol.Index.build []).resolver,
      .ofList []⟩
    let lenient : Analysis := ⟨.ofSelection .none, { Rule.Settings.default with minSdk := 21 },
      (Symbol.Index.build []).resolver, .ofList [⟨"res/drawable-v21/bg.xml"⟩]⟩
    Rule.Settings.default.minSdk ≤ 21 ∧
      (∀ p ∈ ([] : List FilePath), p.isAmong [⟨"res/drawable-v21/bg.xml"⟩] = true) ∧
      (strict.reportOn backgroundDrawable).findings.map (·.ruleId) =
        ["ColorResourceUsage", "ColorResourceUsage", "HardcodedValueInXML"] ∧
      (lenient.reportOn backgroundDrawable).findings.map (·.ruleId) = ["HardcodedValueInXML"] ∧
      (lenient.reportOn backgroundDrawable).findings.Sublist
        (strict.reportOn backgroundDrawable).findings ∧
      (lenient.reportOn backgroundDrawable).failures =
        (strict.reportOn backgroundDrawable).failures := by
  intro strict lenient
  have raised : Rule.Settings.default.minSdk ≤ 21 := by decide
  have more : ∀ p ∈ ([] : List FilePath), p.isAmong [⟨"res/drawable-v21/bg.xml"⟩] = true := by
    simp
  obtain ⟨part, failures⟩ := reportOn_eased .none .default (Symbol.Index.build []).resolver
    backgroundDrawable raised more
  refine ⟨raised, more, ?_, ?_, part, failures⟩
  · rw [show strict = strict.selecting .none from rfl, reportOn_selecting]
    decide +kernel
  · rw [show lenient = lenient.selecting .none from rfl, reportOn_selecting]
    decide +kernel

end AndroidLint
