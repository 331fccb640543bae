/-
Selection — what a project's choice of rules does to its reports.

A selection adds rules, leaves rules out and sets severities.  Compared
are reports of one analysis under two selections.  Leaving a rule out
takes away what bears its id and nothing else, wherever in the list of
rules to leave out the id is put; setting severities changes severities
and nothing else; and what is reported belongs to a rule that the
selection turns on and has the severity that the selection gives it.

All three are read off the list of offers, every node of a file with every
active rule: a selection decides which rules are offered a node and how a
finding is graded, and both pass through the sorting of a report
(`sortBy_filter`, `sortBy_map`).  That ids tell the findings of rules apart
is `Rule.reply_of_judge`.
-/
import AndroidLint.Proofs.Analysis.Reference
import AndroidLint.Symbol.Index

namespace AndroidLint

open Rule (Node Context)

/-- The analysis with the rules of a selection. -/
def Analysis.selecting (a : Analysis) (s : Selection) : Analysis :=
  { a with catalog := .ofSelection s }

/-- A finding without its severity. -/
def Finding.ungraded (f : Finding) : Finding :=
  { f with severity := default }

namespace FileReport

/-- A report without what bears a rule's id. -/
def without (id : String) (r : FileReport) : FileReport :=
  { r with
    findings := r.findings.filter (·.ruleId ≠ id)
    failures := r.failures.filter (·.rule ≠ id) }

/-- A report without severities. -/
def ungraded (r : FileReport) : FileReport :=
  { r with findings := r.findings.map Finding.ungraded }

end FileReport

section Selecting

variable (a : Analysis) (s : Selection) (file : ParsedFile)

theorem reportOn_selecting :
    (a.selecting s).reportOn file =
      { path := file.path
        findings := sortBy Reference.rank
          ((Reference.offers s file).filterMap (Reference.finding? s (a.context file)))
        failures :=
          (Reference.offers s file).filterMap (Reference.failure? (a.context file)) } := by
  rw [Analysis.reportOn, Analysis.outcomes, mergeSort_eq_sortBy noLater_iff]
  exact congrArg₂ (FileReport.mk file.path) (congrArg _ (found_nodes s _ file))
    (failures_nodes s _ file)

variable {s file}

/-! ## What is offered -/

theorem mem_all_of_offered {o : Node × Rule} (mem : o ∈ Reference.offers s file) :
    o.2 ∈ Rule.all ∧ Reference.IsActive s o.2 := by
  obtain ⟨n, -, hn⟩ := List.mem_flatMap.mp mem
  obtain ⟨r, hr, rfl⟩ := List.mem_map.mp hn
  obtain ⟨hall, hactive⟩ := List.mem_filter.mp hr
  exact ⟨hall, of_decide_eq_true hactive⟩

theorem mem_nodes_of_offered {o : Node × Rule} (mem : o ∈ Reference.offers s file) :
    o.1 ∈ Reference.nodes file := by
  obtain ⟨n, hn, offered⟩ := List.mem_flatMap.mp mem
  obtain ⟨r, -, rfl⟩ := List.mem_map.mp offered
  exact hn

/-- What is found at an offer is what the rule found there, graded. -/
theorem finding?_eq_some {x : Context} {o : Node × Rule} {f : Finding}
    (found : Reference.finding? s x o = some f) :
    ∃ g, o.2.judge x o.1 = .ok (some g) ∧
      f = { g with severity := Reference.severity s o.2 } := by
  rw [Reference.finding?] at found
  split at found
  case h_1 g hjudge =>
    split at found
    · cases found
    · exact ⟨g, hjudge, (Option.some.inj found).symm⟩
  case h_2 => cases found

theorem ruleId_of_offered {x : Context} {o : Node × Rule} (mem : o ∈ Reference.offers s file)
    {f : Finding} (found : Reference.finding? s x o = some f) : f.ruleId = o.2.id := by
  obtain ⟨g, hjudge, rfl⟩ := finding?_eq_some found
  exact (Rule.reply_of_judge (mem_all_of_offered mem).1 hjudge).signed

theorem rule_of_offered {x : Context} {o : Node × Rule} (mem : o ∈ Reference.offers s file)
    {e : Rule.Failure} (failed : Reference.failure? x o = some e) : e.rule = o.2.id := by
  rw [Reference.failure?] at failed
  split at failed
  case h_1 e' hjudge =>
    obtain rfl := Option.some.inj failed
    obtain ⟨newer, -, -, -, -, -, rfl⟩ :=
      (Rule.judge_eq_error_iff (mem_all_of_offered mem).1).mp hjudge
    rw [newer]
    rfl
  case h_2 => cases failed

/-! ## Leaving a rule out -/

section LeavingOut

variable {id : String} {disable : List String}
  (added : ∀ other, other ∈ disable ↔ other = id ∨ other ∈ s.disable)

include added

theorem isActive_disable (r : Rule) :
    Reference.IsActive { s with disable } r ↔ Reference.IsActive s r ∧ r.id ≠ id := by
  simp only [Reference.IsActive, added, not_or]
  tauto

theorem active_disable :
    Reference.active { s with disable } = (Reference.active s).filter (·.id ≠ id) := by
  rw [Reference.active, Reference.active, List.filter_filter]
  refine List.filter_congr fun r _ => ?_
  rw [Bool.eq_iff_iff, Bool.and_eq_true, decide_eq_true_iff, decide_eq_true_iff,
    decide_eq_true_iff, isActive_disable added, and_comm]

theorem offers_disable (file : ParsedFile) :
    Reference.offers { s with disable } file =
      (Reference.offers s file).filter (·.2.id ≠ id) := by
  rw [Reference.offers, Reference.offers, List.filter_flatMap]
  refine List.flatMap_congr fun n _ => ?_
  rw [active_disable added, List.filter_map]
  rfl

omit added in
/-- What offers of some of the rules bring forth is the part of what all
offers bring forth that bears their ids, if what an offer brings forth bears
the id of its rule. -/
theorem filterMap_filter_id {β : Type} {offers : List (Node × Rule)} {g : Node × Rule → Option β}
    {idOf : β → String} (p : String → Bool)
    (own : ∀ o ∈ offers, ∀ b, g o = some b → idOf b = o.2.id) :
    (offers.filter (p ·.2.id)).filterMap g = (offers.filterMap g).filter (p <| idOf ·) := by
  rw [List.filterMap_filter, List.filter_filterMap]
  refine List.filterMap_congr fun o mem => ?_
  cases h : g o with
  | none => simp
  | some b => simp only [Option.filter_some, own o mem b h]

theorem reportOn_disable (file : ParsedFile) :
    (a.selecting { s with disable }).reportOn file =
      ((a.selecting s).reportOn file).without id := by
  have hfound : ∀ o ∈ Reference.offers s file, ∀ f,
      Reference.finding? s (a.context file) o = some f → f.ruleId = o.2.id :=
    fun o mem f h => ruleId_of_offered mem h
  have hfailed : ∀ o ∈ Reference.offers s file, ∀ e,
      Reference.failure? (a.context file) o = some e → e.rule = o.2.id :=
    fun o mem e h => rule_of_offered mem h
  -- grading does not look at the rules that are left out
  have hgrade : Reference.finding? { s with disable } = Reference.finding? s := rfl
  rw [reportOn_selecting, reportOn_selecting, offers_disable added, hgrade, FileReport.without,
    filterMap_filter_id (· ≠ id) hfound, filterMap_filter_id (· ≠ id) hfailed, sortBy_filter]

end LeavingOut

/-! ## Setting severities -/

theorem ungraded_finding? (severities : List (String × Severity)) (x : Context)
    (o : Node × Rule) :
    (Reference.finding? { s with severities } x o).map Finding.ungraded =
      (Reference.finding? s x o).map Finding.ungraded := by
  rw [Reference.finding?, Reference.finding?]
  split
  · split <;> rfl
  · rfl

theorem reportOn_severities (severities : List (String × Severity)) :
    ((a.selecting { s with severities }).reportOn file).ungraded =
      ((a.selecting s).reportOn file).ungraded := by
  have hrank : ∀ f : Finding, Reference.rank f.ungraded = Reference.rank f := fun f => rfl
  have hoffers : Reference.offers { s with severities } file = Reference.offers s file := rfl
  rw [reportOn_selecting, reportOn_selecting, FileReport.ungraded, FileReport.ungraded, hoffers,
    ← sortBy_map hrank, ← sortBy_map hrank, List.map_filterMap, List.map_filterMap]
  simp only [ungraded_finding?]

/-! ## What is reported -/

/-- What is reported is what an active rule found at a node, graded. -/
theorem exists_judge_of_mem_findings {f : Finding}
    (mem : f ∈ ((a.selecting s).reportOn file).findings) :
    ∃ n ∈ Reference.nodes file, ∃ r ∈ Rule.all, Reference.IsActive s r ∧
      ∃ g, r.judge (a.context file) n = .ok (some g) ∧
        f = { g with severity := Reference.severity s r } := by
  rw [reportOn_selecting, mem_sortBy, List.mem_filterMap] at mem
  obtain ⟨⟨n, r⟩, offered, found⟩ := mem
  obtain ⟨hall, hactive⟩ := mem_all_of_offered offered
  exact ⟨n, mem_nodes_of_offered offered, r, hall, hactive, finding?_eq_some found⟩

theorem of_mem_findings {f : Finding} (mem : f ∈ ((a.selecting s).reportOn file).findings) :
    ∃ r ∈ Rule.all, r.id = f.ruleId ∧ Reference.IsActive s r ∧
      f.severity = Reference.severity s r := by
  obtain ⟨n, -, r, hall, hactive, g, judged, rfl⟩ := exists_judge_of_mem_findings a mem
  exact ⟨r, hall, (Rule.reply_of_judge hall judged).signed.symm, hactive, rfl⟩

end Selecting

/-- **A selection only filters.**  For every analysis, every list of files
and every selection: adding a rule to those left out takes what bears its
id out of the reports and leaves the rest as it was; other severities
change severities only; and every finding belongs to a rule that is not
left out and is on by default, added, or covered by `all`, with the
severity that is set for it or else its own. -/
theorem run_selecting (a : Analysis) (s : Selection) (files : List ParsedFile) :
    (∀ (id : String) (disable : List String),
      (∀ other, other ∈ disable ↔ other = id ∨ other ∈ s.disable) →
        (a.selecting { s with disable }).run files =
          ((a.selecting s).run files).map (FileReport.without id)) ∧
    (∀ severities : List (String × Severity),
      ((a.selecting { s with severities }).run files).map FileReport.ungraded =
        ((a.selecting s).run files).map FileReport.ungraded) ∧
    (∀ report ∈ (a.selecting s).run files, ∀ f ∈ report.findings,
      ∃ r ∈ Rule.all, r.id = f.ruleId ∧ r.id ∉ s.disable ∧
        (r.info.onByDefault = true ∨ r.id ∈ s.enable ∨ "all" ∈ s.enable) ∧
        f.severity = (s.severities.lookup r.id).getD r.info.severity) := by
  refine ⟨?leavingOut, ?severities, ?reported⟩
  case leavingOut =>
    intro id disable added
    rw [Analysis.run, Analysis.run, List.map_map]
    exact List.map_congr_left fun file _ => reportOn_disable a added file
  case severities =>
    intro severities
    rw [Analysis.run, Analysis.run, List.map_map, List.map_map]
    exact List.map_congr_left fun file _ => reportOn_severities a severities
  case reported =>
    intro report hreport f hf
    obtain ⟨file, -, rfl⟩ := List.mem_map.mp hreport
    obtain ⟨r, hall, hid, ⟨hon, hoff⟩, hseverity⟩ := of_mem_findings a hf
    exact ⟨r, hall, hid, hoff, by tauto, hseverity⟩

/-- A layout with one image whose source is written as a size. -/
def imageLayout : ParsedFile :=
  let path : FilePath := ⟨"res/layout/a.xml"⟩
  .resource ⟨path, #[{
    tag := "ImageView"
    attributes := [⟨"android:src", "4dp", .top path⟩]
    parent := none
    children := []
    location := .top path }]⟩

/-- An analysis of files that no other files belong to. -/
def aloneAnalysis : Analysis :=
  ⟨.standard, .default, (Symbol.Index.build []).resolver, fun _ => false⟩

theorem ruleIds_imageLayout :
    ((aloneAnalysis.selecting .none).reportOn imageLayout).findings.map (·.ruleId) =
      ["HardcodedValueInXML", "SrcCompatUsage"] := by
  rw [reportOn_selecting]
  decide +kernel

theorem run_selecting_imageLayout :
    (aloneAnalysis.selecting ⟨[], ["SrcCompatUsage"], []⟩).run [imageLayout] =
        ((aloneAnalysis.selecting .none).run [imageLayout]).map (.without "SrcCompatUsage") ∧
      ((aloneAnalysis.selecting ⟨[], [], [("SrcCompatUsage", .info)]⟩).run [imageLayout]).map
          (·.ungraded) =
        ((aloneAnalysis.selecting .none).run [imageLayout]).map (·.ungraded) ∧
      ∃ f ∈ ((aloneAnalysis.selecting .none).reportOn imageLayout).findings,
        f.ruleId = "SrcCompatUsage" ∧
        ∃ r ∈ Rule.all, r.id = f.ruleId ∧ r.id ∉ Selection.none.disable ∧
          (r.info.onByDefault = true ∨ r.id ∈ Selection.none.enable ∨
            "all" ∈ Selection.none.enable) ∧
          f.severity = (Selection.none.severities.lookup r.id).getD r.info.severity := by
  obtain ⟨leavingOut, severities, reported⟩ := run_selecting aloneAnalysis .none [imageLayout]
  refine ⟨leavingOut "SrcCompatUsage" ["SrcCompatUsage"] (by simp [Selection.none]),
    severities [("SrcCompatUsage", .info)], ?_⟩
  have hmem : "SrcCompatUsage" ∈
      ((aloneAnalysis.selecting .none).reportOn imageLayout).findings.map (·.ruleId) := by
    rw [ruleIds_imageLayout]
    simp
  obtain ⟨f, hf, hid⟩ := List.mem_map.mp hmem
  exact ⟨f, hf, hid, reported _ List.mem_cons_self f hf⟩

end AndroidLint
