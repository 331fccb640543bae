/-
Order — the listing by line has every finding once, in order.

The findings of a file come sorted by line, column and rule; the listing
sorts those of all files by path, line and column.  The second sort knows
nothing of rules, so where findings share a place the order of the rules is
what the first sort left, kept because the second is stable
(`StablySorted.pairwise_refined`).  That needs findings that share a place
to come from one report, and they do if no two files have one path: what
is found in a file lies in that file (`file_of_mem_findings`).
-/
import AndroidLint.Proofs.Analysis.Origin
import AndroidLint.Proofs.Analysis.Selection
import AndroidLint.Report.Listing

namespace AndroidLint

open Rule (Node)

/-! ## Where findings lie -/

theorem element_mem_nodes_iff {d d' : Markup.Document} {index : Nat} {e : Markup.Element} :
    Node.element d' index e ∈ Reference.nodes (.resource d) ↔
      d' = d ∧ d.element? index = some e := by
  have indexed : (∃ e' i, (e', i) ∈ d.elements.toList.zipIdx ∧ d' = d ∧ index = i ∧ e = e') ↔
      d' = d ∧ d.element? index = some e := by
    simp only [List.mem_zipIdx_iff_getElem?, Array.getElem?_toList, Markup.Document.element?]
    constructor
    · rintro ⟨e', i, held, rfl, rfl, rfl⟩
      exact ⟨rfl, held⟩
    · rintro ⟨rfl, held⟩
      exact ⟨e, index, held, rfl, rfl, rfl⟩
  rw [← indexed, Reference.nodes]
  simp

theorem element_not_mem_nodes_source {f : Code.SourceFile} {d : Markup.Document} {index : Nat}
    {e : Markup.Element} : Node.element d index e ∉ Reference.nodes (.source f) := by
  simp [Reference.nodes, Reference.listed, mem_sortBy]

/-- A place at which something may be found for a node of a file is the
place of a node of the file. -/
theorem exists_node_of_mem_places {file : ParsedFile} {n : Node} (mem : n ∈ Reference.nodes file)
    {l : Location} (lies : l ∈ n.places) : ∃ m ∈ Reference.nodes file, m.location = l := by
  have own (alone : n.places = [n.location]) : ∃ m ∈ Reference.nodes file, m.location = l :=
    ⟨n, mem, (List.mem_singleton.mp (alone ▸ lies)).symm⟩
  cases n with
  | element d index e =>
      cases file with
      | source f => exact absurd mem element_not_mem_nodes_source
      | resource d' =>
          obtain ⟨rfl, -⟩ := element_mem_nodes_iff.mp mem
          rcases List.mem_cons.mp lies with rfl | around
          · exact ⟨_, mem, rfl⟩
          · obtain ⟨e', outward, rfl⟩ := List.mem_map.mp around
            obtain ⟨i, -, held⟩ := List.mem_filterMap.mp outward
            exact ⟨.element d i e', element_mem_nodes_iff.mpr ⟨rfl, held⟩, rfl⟩
  | _ => exact own rfl

theorem file_of_mem_findings {a : Analysis} {s : Selection} {file : ParsedFile}
    (own : file.NamesItself) {f : Finding} (mem : f ∈ ((a.selecting s).reportOn file).findings) :
    f.location.file.same file.path = true := by
  obtain ⟨n, hn, r, hall, -, g, judged, rfl⟩ := exists_judge_of_mem_findings a mem
  obtain ⟨k, hk, at_k⟩ := exists_node_of_mem_places hn (Rule.reply_of_judge hall judged).lies
  rw [← nodes_eq_reference] at hk
  rw [← at_k]
  exact own k hk

/-! ## The order of findings -/

/-- `f.NoLater g`: the finding `f` comes no later than `g` by path, line,
column and rule. -/
def Finding.NoLater (f g : Finding) : Prop :=
  f.location.file.compare g.location.file = .lt ∨
    f.location.file.same g.location.file = true ∧
      (f.location.line < g.location.line ∨
        f.location.line = g.location.line ∧
          (f.location.column < g.location.column ∨
            f.location.column = g.location.column ∧ f.ruleId ≤ g.ruleId))

/-- Where a finding stands in the listing by line. -/
def Finding.place (f : Finding) : List (Nat ×ₗ String) ×ₗ Nat ×ₗ Nat :=
  toLex (f.location.file.key, toLex (f.location.line, f.location.column))

theorem placedNoLater_iff (f g : Finding) :
    Report.placedNoLater f g = true ↔ f.place ≤ g.place := by
  rw [Report.placedNoLater, Finding.place, Finding.place, Prod.Lex.toLex_le_toLex,
    Prod.Lex.toLex_le_toLex, Ordering.isLE_then_iff_or, Ordering.then_eq_lt, Ordering.then_eq_eq,
    FilePath.compare_eq_lt_iff, FilePath.compare_eq_eq_iff, Nat.compare_eq_lt, Nat.compare_eq_eq,
    Nat.isLE_compare]
  tauto

theorem noLater_iff_place (f g : Finding) :
    f.NoLater g ↔ f.place < g.place ∨ f.place = g.place ∧ f.ruleId ≤ g.ruleId := by
  rw [Finding.NoLater, Finding.place, Finding.place, Prod.Lex.toLex_lt_toLex,
    Prod.Lex.toLex_lt_toLex, toLex_inj, Prod.mk.injEq, toLex_inj, Prod.mk.injEq,
    FilePath.compare_eq_lt_iff, FilePath.same_iff]
  tauto

theorem ruleId_le_of_rank_le {f g : Finding} (ordered : Reference.rank f ≤ Reference.rank g)
    (line : f.location.line = g.location.line) (column : f.location.column = g.location.column) :
    f.ruleId ≤ g.ruleId := by
  rw [Reference.rank, Reference.rank, line, column, Prod.Lex.toLex_le_toLex,
    Prod.Lex.toLex_le_toLex] at ordered
  simpa using ordered

/-! ## Findings that share a place -/

section Ties

variable (a : Analysis) (s : Selection)

theorem ties_reportOn (file : ParsedFile) :
    ((a.selecting s).reportOn file).findings.Pairwise fun f g =>
      f.place = g.place → f.ruleId ≤ g.ruleId := by
  rw [reportOn_selecting]
  refine (stablySorted_sortBy Reference.rank _).ordered.imp fun {f g} ordered tie => ?_
  obtain ⟨-, tie⟩ := Prod.mk.inj (toLex_inj.mp tie)
  obtain ⟨line, column⟩ := Prod.mk.inj (toLex_inj.mp tie)
  exact ruleId_le_of_rank_le ordered line column

theorem ties_run {files : List ParsedFile}
    (apart : files.Pairwise fun f g => f.path.same g.path = false)
    (own : ∀ file ∈ files, file.NamesItself) :
    (Report.findings ((a.selecting s).run files)).Pairwise fun f g =>
      f.place = g.place → f.ruleId ≤ g.ruleId := by
  rw [Report.findings, Analysis.run, List.flatMap_map, List.pairwise_flatMap]
  refine ⟨fun file _ => ties_reportOn a s file, apart.imp_of_mem ?_⟩
  intro file file' mem mem' other f hf g hg tie
  have hf := FilePath.same_iff.mp (file_of_mem_findings (own file mem) hf)
  have hg := FilePath.same_iff.mp (file_of_mem_findings (own file' mem') hg)
  obtain ⟨same, -⟩ := Prod.mk.inj (toLex_inj.mp tie)
  have together : file.path.same file'.path = true :=
    FilePath.same_iff.mpr (hf.symm.trans (same.trans hg))
  exact absurd (other.symm.trans together) Bool.false_ne_true

end Ties

/-! ## The listing -/

/-- The line for a finding: its path as seen from the base, line and column,
severity, rule and message. -/
theorem formatLine_eq (base? : Option FilePath) (f : Finding) :
    Report.formatLine base? f =
      ((base?.bind f.location.file.below?).getD f.location.file).text ++ ":" ++
        toString f.location.line ++ ":" ++ toString f.location.column ++ ": " ++
        f.severity.name ++ " " ++ "[" ++ f.ruleId ++ "] " ++ f.message := by
  simp only [Report.formatLine, Report.compactLine, Report.Options.paint, Report.Options.shown,
    Report.painted, Bool.false_eq_true, if_false, String.append_assoc]
  rfl

/-- **The listing by line is the findings in order.**  For files of which no
two have one path, and of which each is named by its nodes as the file they
lie in, the listing of an analysis under any selection has one line for
each finding, by path, line, column and rule. -/
theorem compact_sorted (a : Analysis) (s : Selection) (base? : Option FilePath)
    (count? : Option Nat) (files : List ParsedFile)
    (apart : files.Pairwise fun f g => f.path.same g.path = false)
    (own : ∀ file ∈ files, file.NamesItself) :
    ∃ found : List Finding, found.Perm (Report.findings ((a.selecting s).run files)) ∧
      found.Pairwise Finding.NoLater ∧
      Report.compact ⟨false, base?, count?⟩ ((a.selecting s).run files) =
        found.map (Report.formatLine base?) ∧
      ∀ f, Report.formatLine base? f =
        ((base?.bind f.location.file.below?).getD f.location.file).text ++ ":" ++
          toString f.location.line ++ ":" ++ toString f.location.column ++ ": " ++
          f.severity.name ++ " " ++ "[" ++ f.ruleId ++ "] " ++ f.message := by
  have sorted := stablySorted_mergeSort placedNoLater_iff
    (Report.findings ((a.selecting s).run files))
  refine ⟨_, sorted.perm, ?_, rfl, formatLine_eq base?⟩
  refine (sorted.pairwise_refined (ties_run a s apart own)).imp fun {f g} refined => ?_
  exact (noLater_iff_place f g).mpr refined

/-- A layout with two images, the sources of both written as sizes. -/
def imagesLayout : ParsedFile :=
  let path : FilePath := ⟨"res/layout/./B.xml"⟩
  let image (line : Nat) : Markup.Element :=
    { tag := "ImageView"
      attributes := [⟨"android:src", "4dp", ⟨path, line, 3, 0, 0⟩⟩]
      parent := none
      children := []
      location := ⟨path, line, 1, 0, 0⟩ }
  .resource ⟨path, #[image 7, image 2]⟩

theorem compact_sorted_images :
    [imageLayout, imagesLayout].Pairwise (fun f g => f.path.same g.path = false) ∧
      (∀ file ∈ [imageLayout, imagesLayout], file.NamesItself) ∧
      ∃ found : List Finding,
        found.Perm (Report.findings
          ((aloneAnalysis.selecting .none).run [imageLayout, imagesLayout])) ∧
        found.Pairwise Finding.NoLater ∧
        Report.compact ⟨false, some ⟨"res"⟩, none⟩
            ((aloneAnalysis.selecting .none).run [imageLayout, imagesLayout]) =
          found.map (Report.formatLine (some ⟨"res"⟩)) := by
  have apart : [imageLayout, imagesLayout].Pairwise fun f g => f.path.same g.path = false := by
    decide +kernel
  have own : ∀ file ∈ [imageLayout, imagesLayout], file.NamesItself := by
    unfold ParsedFile.NamesItself
    decide +kernel
  obtain ⟨found, perm, ordered, lines, -⟩ :=
    compact_sorted aloneAnalysis .none (some ⟨"res"⟩) none [imageLayout, imagesLayout] apart own
  exact ⟨apart, own, found, perm, ordered, lines⟩

end AndroidLint
