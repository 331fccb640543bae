/-
Origin — a file that was parsed knows where it came from.

Whatever a text holds, the file that is read from it stands at the path it
was read at, and each of its nodes names that path (`namesItself_of_read`).
For source files this is kept by every entry; in a document every element
is drawn by a tag of the text, with its attributes.
-/
import AndroidLint.Analysis.Parse
import AndroidLint.Proofs.Analysis.Reference
import AndroidLint.Proofs.Code.Place
import AndroidLint.Proofs.Except
import AndroidLint.Proofs.Markup.Opening
import AndroidLint.Proofs.PathOrder

namespace AndroidLint

/-! ## Documents -/

namespace Markup

section Runs

variable {s : Source} {p q : Progress}

theorem Taken.path {k : Kind} (taken : Taken p q k) : q.document.path = p.document.path := by
  cases k with
  | passage => exact congrArg Document.path taken.1
  | close name => exact congrArg Document.path taken.1
  | start content =>
      obtain ⟨_, -, -, gained⟩ := taken
      exact gained.path
  | empty content =>
      obtain ⟨_, -, -, gained⟩ := taken
      exact gained.path

theorem path_of_run {ls : List Lexeme} (run : ls.foldlM (Progress.next s) p = .ok q) :
    q.document.path = p.document.path := by
  induction ls generalizing p with
  | nil =>
      obtain rfl := Except.ok.inj run
      rfl
  | cons l ls ih =>
      obtain ⟨m, next, others⟩ := foldlM_cons_eq_ok run
      exact (ih others).trans (taken_of_next next).path

theorem file_of_mem_placed {start : Nat} {markup : List Char} {search : Nat}
    {pairs : List (String × String)} {a : Attribute}
    (mem : a ∈ placed s start markup search pairs) : a.location.file = s.path := by
  induction pairs generalizing search with
  | nil => cases mem
  | cons pair pairs ih =>
      obtain ⟨key, value⟩ := pair
      rw [placed] at mem
      obtain rfl | mem := List.mem_cons.mp mem
      · rfl
      · exact ih mem

/-- An element lies in the text it was read from, and so do its
attributes. -/
theorem file_of_mem_elements (progress : s.progress = .ok p) {e : Element}
    (mem : e ∈ p.document.elements.toList) :
    e.location.file = s.path ∧ ∀ a ∈ e.attributes, a.location.file = s.path := by
  obtain ⟨o, front, back, -, -, -, draws⟩ := exists_opening progress mem
  obtain ⟨pairs, -, drawn⟩ := draws.eq
  have location : e.location = s.location o.start o.stop := congrArg Element.location drawn
  have attributes := congrArg Element.attributes drawn
  constructor
  · rw [location]
    rfl
  · intro a ha
    exact file_of_mem_placed (attributes ▸ ha)

end Runs

theorem path_of_read {path : FilePath} {text : String} {d : Document}
    (read : Markup.read path text = .ok d) : d.path = path := by
  obtain ⟨p, progress, rfl⟩ := read_eq_ok_iff.mp read
  obtain ⟨-, run⟩ := progress_eq_ok_iff.mp progress
  exact path_of_run run

end Markup

/-! ## Parsed files -/

namespace ParsedFile

/-- `file.NamesItself`: every node of the file names the file as the one
that it lies in. -/
def NamesItself (file : ParsedFile) : Prop :=
  ∀ n ∈ file.nodes, n.location.file.same file.path = true

theorem file_of_mem_nodes_source {f : Code.SourceFile} {path : FilePath} (lies : f.LiesAt path)
    {n : Rule.Node} (mem : n ∈ (ParsedFile.source f).nodes) : n.location.file = path := by
  rw [nodes_eq_reference] at mem
  simp only [Reference.nodes, Reference.listed, mem_sortBy, List.mem_cons, List.mem_append,
    List.mem_map, List.mem_filter, Array.mem_toList_iff] at mem
  rcases mem with rfl | ((((⟨i, hi, rfl⟩ | ⟨c, ⟨hc, -⟩, rfl⟩) | ⟨m, hm, rfl⟩) | ⟨c, hc, rfl⟩) |
    ⟨r, hr, rfl⟩) | ⟨l, hl, rfl⟩
  · exact lies.here
  · exact lies.imports i hi
  · exact lies.classes c hc
  · exact lies.methods m hm
  · exact lies.calls c hc
  · exact lies.references r hr
  · exact lies.lambdas l hl

theorem file_of_mem_nodes_resource {path : FilePath} {text : String} {d : Markup.Document}
    (read : Markup.read path text = .ok d) {n : Rule.Node}
    (mem : n ∈ (ParsedFile.resource d).nodes) : n.location.file = path := by
  obtain ⟨p, progress, rfl⟩ := Markup.read_eq_ok_iff.mp read
  rw [nodes_eq_reference] at mem
  obtain ⟨⟨e, index⟩, held, mem⟩ := List.mem_flatMap.mp mem
  obtain ⟨element, attributes⟩ :=
    Markup.file_of_mem_elements progress (List.fst_mem_of_mem_zipIdx held)
  rcases List.mem_cons.mp mem with rfl | mem
  · exact element
  · obtain ⟨a, ha, rfl⟩ := List.mem_map.mp mem
    exact attributes a ha

variable {kind : FileKind} {path : FilePath} {text : String} {file : ParsedFile}

/-- What is parsed is a source file of one of the languages or a document. -/
theorem cases_of_read (read : ParsedFile.read kind path text = .ok file) :
    (∃ l : Code.Language, file = .source (l.read path text)) ∨
      ∃ d, Markup.read path text = .ok d ∧ file = .resource d := by
  cases kind with
  | kotlin => exact .inl ⟨.kotlin, (Except.ok.inj read).symm⟩
  | java => exact .inl ⟨.java, (Except.ok.inj read).symm⟩
  | _ =>
      have read : (Markup.read path text).map resource = .ok file := read
      obtain ⟨d, document, rfl⟩ := exists_of_map_eq_ok read
      exact .inr ⟨d, document, rfl⟩

theorem path_of_read (read : ParsedFile.read kind path text = .ok file) : file.path = path := by
  obtain ⟨l, rfl⟩ | ⟨d, document, rfl⟩ := cases_of_read read
  · exact (Code.liesAt_read l path text).here
  · exact Markup.path_of_read document

/-- Every node of a file that was parsed names the file. -/
theorem namesItself_of_read (read : ParsedFile.read kind path text = .ok file) :
    file.NamesItself := by
  intro n mem
  have here : n.location.file = file.path := by
    rw [path_of_read read]
    obtain ⟨l, rfl⟩ | ⟨d, document, rfl⟩ := cases_of_read read
    · exact file_of_mem_nodes_source (Code.liesAt_read l path text) mem
    · exact file_of_mem_nodes_resource document mem
  exact FilePath.same_iff.mpr (congrArg FilePath.key here)

end ParsedFile

end AndroidLint
