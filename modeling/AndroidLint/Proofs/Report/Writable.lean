/-
Writable — which reports have a form in JSON.

An edit that is made of several has no form in JSON, so a report that
holds one is not written at all, whatever else it holds
(`isOk_json_iff`).  Which reports of an analysis these are is settled by
who proposes such edits: the rule for the sources of images does with
every finding, and no other rule ever does.  So an analysis can be
written exactly if that rule found nothing.
-/
import AndroidLint.Analysis.Parse
import AndroidLint.Proofs.Analysis.Selection
import AndroidLint.Report.Exchange

namespace AndroidLint

namespace Report

/-! ## Any report -/

theorem isOk_mapM_iff {α β ε : Type} {g : α → Except ε β} {l : List α} :
    (∃ bs, l.mapM g = .ok bs) ↔ ∀ a ∈ l, ∃ b, g a = .ok b := by
  induction l with
  | nil => simp [pure, Except.pure]
  | cons a l ih =>
      rw [List.forall_mem_cons, ← ih, List.mapM_cons]
      cases g a with
      | error e => simp [bind, Except.bind]
      | ok b =>
          cases l.mapM g with
          | error e => simp [bind, Except.bind]
          | ok bs => simp [bind, Except.bind, pure, Except.pure]

theorem isOk_fixValue_iff (fix : Fix) : (∃ v, fixValue fix = .ok v) ↔ fix.isComposite = false := by
  cases fix <;> simp [fixValue, Fix.isComposite]

theorem isOk_findingValue_iff (f : Finding) :
    (∃ v, findingValue f = .ok v) ↔ f.hasCompositeFix = false := by
  rw [findingValue, Finding.hasCompositeFix]
  cases f.fix with
  | none => simp [fixMembers, Except.map]
  | some fix =>
      rw [Option.any_some, ← isOk_fixValue_iff, fixMembers]
      cases fixValue fix <;> simp [Except.map]

/-- A report can be written exactly if no finding of it proposes an edit
made of several. -/
theorem isOk_json_iff (o : Options) (files : List FileReport) :
    (∃ text, json o files = .ok text) ↔ ∀ f ∈ findings files, f.hasCompositeFix = false := by
  have hvalues : (∃ vs, (findings files).mapM findingValue = .ok vs) ↔
      ∀ f ∈ findings files, f.hasCompositeFix = false := by
    simp only [isOk_mapM_iff, isOk_findingValue_iff]
  rw [← hvalues, json, jsonValue]
  cases (findings files).mapM findingValue <;> simp [Except.map]

end Report

/-! ## The reports of an analysis -/

/-- Of the findings of an analysis, those of the rule for the sources of
images propose edits made of several, and the others do not. -/
theorem hasCompositeFix_of_mem {a : Analysis} {s : Selection} {file : ParsedFile} {f : Finding}
    (mem : f ∈ ((a.selecting s).reportOn file).findings) :
    f.hasCompositeFix = (f.ruleId == Rule.srcCompatUsage.id) := by
  obtain ⟨n, -, r, hall, -, g, judged, rfl⟩ := exists_judge_of_mem_findings a mem
  have reply := Rule.reply_of_judge hall judged
  show g.hasCompositeFix = (g.ruleId == Rule.srcCompatUsage.id)
  rw [reply.signed]
  exact reply.kind

/-- **A report can be written as JSON unless an image's source was found.**
For every analysis under every selection and whatever files, the report is
written exactly if the rule for the sources of images reported nothing. -/
theorem isOk_json_run_iff (a : Analysis) (s : Selection) (o : Report.Options)
    (files : List ParsedFile) :
    (∃ text, Report.json o ((a.selecting s).run files) = .ok text) ↔
      ∀ report ∈ (a.selecting s).run files, ∀ f ∈ report.findings,
        f.ruleId ≠ Rule.srcCompatUsage.id := by
  have hkind : ∀ report ∈ (a.selecting s).run files, ∀ f ∈ report.findings,
      (f.hasCompositeFix = false ↔ f.ruleId ≠ Rule.srcCompatUsage.id) := by
    intro report hreport f hf
    obtain ⟨file, -, rfl⟩ := List.mem_map.mp hreport
    rw [hasCompositeFix_of_mem hf, beq_eq_false_iff_ne]
  rw [Report.isOk_json_iff]
  constructor
  · intro plain report hreport f hf
    exact (hkind report hreport f hf).mp (plain f (List.mem_flatMap.mpr ⟨report, hreport, hf⟩))
  · intro other f hf
    obtain ⟨report, hreport, hf⟩ := List.mem_flatMap.mp hf
    exact (hkind report hreport f hf).mpr (other report hreport f hf)

/-- A layout with one image. -/
def iconLayout : ParsedFile :=
  let path : FilePath := ⟨"res/layout/icon.xml"⟩
  ((ParsedFile.read .resource path "<ImageView android:src=\"@drawable/icon\"/>").toOption).getD
    (.resource (.empty path))

theorem ruleIds_iconLayout :
    ((aloneAnalysis.selecting .none).reportOn iconLayout).findings.map (·.ruleId) =
      ["SrcCompatUsage"] := by
  rw [reportOn_selecting]
  decide +kernel

/-- A layout with an image is read, and its report cannot be written. -/
theorem json_iconLayout :
    (ParsedFile.read .resource ⟨"res/layout/icon.xml"⟩
        "<ImageView android:src=\"@drawable/icon\"/>").toOption = some iconLayout ∧
      ¬ ∃ text, Report.json ⟨false, none, none⟩ ((aloneAnalysis.selecting .none).run [iconLayout]) =
        .ok text := by
  constructor
  · have hread : (ParsedFile.read .resource ⟨"res/layout/icon.xml"⟩
        "<ImageView android:src=\"@drawable/icon\"/>").toOption.isSome = true := by decide +kernel
    obtain ⟨file, hfile⟩ := Option.isSome_iff_exists.mp hread
    rw [iconLayout, hfile, Option.getD_some]
  · intro written
    rw [Report.isOk_json_iff] at written
    have hmem : "SrcCompatUsage" ∈
        ((aloneAnalysis.selecting .none).reportOn iconLayout).findings.map (·.ruleId) := by
      rw [ruleIds_iconLayout]
      exact List.mem_singleton.mpr rfl
    obtain ⟨f, hf, hid⟩ := List.mem_map.mp hmem
    have hplain := written f (List.mem_flatMap.mpr ⟨_, List.mem_cons_self, hf⟩)
    rw [hasCompositeFix_of_mem hf, hid] at hplain
    cases hplain

end AndroidLint
