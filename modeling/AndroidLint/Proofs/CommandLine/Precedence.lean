/-
Precedence — the command line against the configuration file.

Both may add rules and leave rules out.  What the words of a command line
name is gathered option by option (`extends_ofWords`), and both lists are
put behind those of the file.  As leaving out counts more than adding,
wherever it comes from (`Arguments.activates_over`), the command line can
take away any rule, but it can bring back none that the file leaves out.
-/
import AndroidLint.CommandLine.Answer
import AndroidLint.Proofs.Analysis.Catalog

namespace AndroidLint

/-! ## Active rules -/

theorem Catalog.contains_ofSelection {r : Rule} (mem : r ∈ Rule.all) (s : Selection) :
    (Catalog.ofSelection s).contains r.id = s.activates r := by
  rw [Bool.eq_iff_iff, contains, ofSelection, List.any_eq_true]
  constructor
  · rintro ⟨r', hr', same⟩
    obtain ⟨mem', active⟩ := List.mem_filter.mp hr'
    rwa [Rule.eq_of_id_eq mem' mem (beq_iff_eq.mp same)] at active
  · intro active
    exact ⟨r, List.mem_filter.mpr ⟨mem, active⟩, beq_self_eq_true r.id⟩

theorem Selection.activates_iff {s : Selection} {r : Rule} :
    s.activates r = true ↔
      (r.info.onByDefault = true ∨ r.id ∈ s.enable ∨ "all" ∈ s.enable) ∧ r.id ∉ s.disable := by
  simp only [activates, turnsOn, Bool.and_eq_true, Bool.or_eq_true, Bool.not_eq_true',
    List.contains_eq_mem, decide_eq_true_eq, decide_eq_false_iff_not]
  tauto

namespace CommandLine

/-! ## What the words name -/

/-- What a word names for an option. -/
def Word.named (s : Switch) : Word → List String
  | .setting t value => if t = s then Text.splitAll ',' value else []
  | _ => []

/-- What words name for an option that takes lists: the values that it is
given, cut at commas. -/
def named (s : Switch) (ws : List Word) : List String :=
  ws.flatMap (Word.named s)

/-- `a.Extends b ws`: the lists of rules of `a` are those of `b` and behind
them what the words name. -/
structure Arguments.Extends (a b : Arguments) (ws : List Word) : Prop where
  enable : a.enable = b.enable ++ named .enable ws
  disable : a.disable = b.disable ++ named .disable ws

section Words

variable {a b c : Arguments} {s : Switch}

theorem Arguments.Extends.cons {w : Word} {ws : List Word} (first : b.Extends a [w])
    (rest : c.Extends b ws) : c.Extends a (w :: ws) where
  enable := by
    rw [rest.enable, first.enable, List.append_assoc, named, named, named, ← List.flatMap_append]
    rfl
  disable := by
    rw [rest.disable, first.disable, List.append_assoc, named, named, named,
      ← List.flatMap_append]
    rfl

theorem Arguments.extends_set? {value : String} (set : a.set? s value = some b) :
    b.Extends a [.setting s value] := by
  cases s with
  | enable | disable =>
      obtain rfl := Option.some.inj set
      exact ⟨by simp [named, Word.named], by simp [named, Word.named]⟩
  | exclude =>
      obtain rfl := Option.some.inj set
      exact ⟨(List.append_nil _).symm, (List.append_nil _).symm⟩
  | config | target | format | output | minSdk | parallel =>
      obtain ⟨v, -, rfl⟩ := Option.map_eq_some_iff.mp set
      exact ⟨(List.append_nil _).symm, (List.append_nil _).symm⟩
  | completions =>
      rw [set?, Option.ite_none_right_eq_some] at set
      obtain rfl := Option.some.inj set.2
      exact ⟨(List.append_nil _).symm, (List.append_nil _).symm⟩
  | listRules | noFail | verbose | quiet | help | version => cases set

theorem Arguments.extends_switched (a : Arguments) (s : Switch) :
    (a.switched s).Extends a [.switch s] := by
  cases s <;> exact ⟨(List.append_nil _).symm, (List.append_nil _).symm⟩

theorem Arguments.extends_placed? {path : String} (placed : a.placed? path = some b) :
    b.Extends a [.plain path] := by
  rw [placed?] at placed
  split at placed
  case h_1 => cases placed
  case h_2 =>
    obtain ⟨p, -, rfl⟩ := Option.map_eq_some_iff.mp placed
    exact ⟨(List.append_nil _).symm, (List.append_nil _).symm⟩

/-- What words ask for has the lists of rules that the words name, behind
those that were there before. -/
theorem extends_ofWords {seen : List Switch} {ws : List Word}
    (asked : Request.ofWords a seen ws = .proceed b) : b.Extends a ws := by
  fun_induction Request.ofWords a seen ws with
  | case1 =>
      obtain rfl := Request.proceed.inj asked
      exact ⟨(List.append_nil _).symm, (List.append_nil _).symm⟩
  | case3 a seen text ws a' placed ih => exact (Arguments.extends_placed? placed).cons (ih asked)
  | case8 a seen s ws _ _ _ ih => exact (Arguments.extends_switched a s).cons (ih asked)
  | case10 a seen s value ws _ a' set ih => exact (Arguments.extends_set? set).cons (ih asked)
  | case2 | case4 | case5 | case6 | case7 | case9 | case11 => cases asked

theorem lists_ofLine {line : List String} (asked : Request.ofLine line = .proceed a) :
    a.enable = named .enable (words none line) ∧ a.disable = named .disable (words none line) := by
  obtain ⟨enable, disable⟩ := extends_ofWords asked
  exact ⟨enable, disable⟩

end Words

/-! ## The effective configuration -/

/-- The configuration that the named file gives, or else that of the project. -/
def Arguments.fileConfiguration (a : Arguments) (s : Project.Storage) :
    Except Configuration.Fault Configuration :=
  match a.config? with
  | some file => Configuration.ofFile s ⟨file⟩
  | none => Configuration.ofProject s a.path

theorem Arguments.configuration_eq_ok_iff {a : Arguments} {s : Project.Storage}
    {c : Configuration} :
    a.configuration s = .ok c ↔ ∃ file, a.fileConfiguration s = .ok file ∧
      (a.over file).unsound? = none ∧ a.over file = c := by
  have hbind : a.configuration s =
      (a.fileConfiguration s).bind fun file => Configuration.checked (a.over file) := rfl
  rw [hbind]
  cases a.fileConfiguration s with
  | error e => simp [Except.bind]
  | ok file =>
      simp only [Except.bind, Configuration.checked, Except.ok.injEq, exists_eq_left']
      cases (a.over file).unsound? with
      | some u => simp
      | none => simp

theorem Arguments.activates_over (a : Arguments) (file : Configuration) (r : Rule) :
    (a.over file).selection.activates r = true ↔
      ((r.info.onByDefault = true ∨ r.id ∈ file.selection.enable ∨ "all" ∈ file.selection.enable) ∨
          r.id ∈ a.enable ∨ "all" ∈ a.enable) ∧
        r.id ∉ file.selection.disable ∧ r.id ∉ a.disable := by
  simp only [Arguments.over, Selection.activates_iff, List.mem_append, not_or]
  tauto

/-- The effective configuration is that of the file with the command line
put on top, if it is sound.  A rule that the line leaves out is off,
whatever the file adds.  One that the line adds is on unless the file leaves
it out.  On any other the file decides. -/
theorem contains_over {line : List String} {a : Arguments}
    (asked : Request.ofLine line = .proceed a) (s : Project.Storage) :
    (∀ c, a.configuration s = .ok c ↔ ∃ file, a.fileConfiguration s = .ok file ∧
      (a.over file).unsound? = none ∧ a.over file = c) ∧
    ∀ file : Configuration, ∀ r ∈ Rule.all,
      let added := named .enable (words none line)
      let leftOut := named .disable (words none line)
      (r.id ∈ leftOut → (a.over file).catalog.contains r.id = false) ∧
      (r.id ∉ leftOut → r.id ∈ added ∨ "all" ∈ added →
        ((a.over file).catalog.contains r.id = true ↔ r.id ∉ file.selection.disable)) ∧
      (r.id ∉ leftOut → r.id ∉ added → "all" ∉ added →
        (a.over file).catalog.contains r.id = file.catalog.contains r.id) := by
  refine ⟨fun c => Arguments.configuration_eq_ok_iff, ?_⟩
  intro file r mem added leftOut
  obtain ⟨enable, disable⟩ : a.enable = added ∧ a.disable = leftOut := lists_ofLine asked
  have whole := a.activates_over file r
  rw [enable, disable] at whole
  have overs : (a.over file).catalog.contains r.id = (a.over file).selection.activates r :=
    Catalog.contains_ofSelection mem _
  have files : file.catalog.contains r.id = file.selection.activates r :=
    Catalog.contains_ofSelection mem _
  rw [overs, files]
  refine ⟨fun out => ?_, fun kept asks => ?_, fun kept unasked unasked' => ?_⟩
  · rw [← Bool.not_eq_true, whole]
    exact fun active => active.2.2 out
  · rw [whole]
    exact ⟨fun active => active.2.1, fun free => ⟨.inr asks, free, kept⟩⟩
  · rw [Bool.eq_iff_iff, whole, Selection.activates_iff]
    simp only [kept, unasked, unasked', or_false, not_false_eq_true, and_true]

/-- Whether a check is asked for, and its configuration passes a test. -/
def Request.configures (s : Project.Storage) (test : Configuration → Bool) : Request → Bool
  | .proceed a => (a.configuration s).toOption.any test
  | _ => false

theorem Request.configures_iff {s : Project.Storage} {test : Configuration → Bool} {r : Request} :
    r.configures s test = true ↔
      ∃ a, r = .proceed a ∧ ∃ c, a.configuration s = .ok c ∧ test c = true := by
  cases r with
  | help | version | senseless => simp [configures]
  | proceed a => cases h : a.configuration s <;> simp [configures, h, Except.toOption]

/-- A project with a text for its configuration file. -/
def settingsFile (text : String) : Project.Storage :=
  [("droidlint.toml", .file (some text))]

/-- The command line takes away the rule that the file adds. -/
theorem contains_over_frameworkPair :
    ∃ a, Request.ofLine ["--disable", "FrameworkPair", "--enable", "all"] = .proceed a ∧
      ∃ c, a.configuration (settingsFile "enable = [\"FrameworkPair\"]\n") = .ok c ∧
        c.catalog.contains "FrameworkPair" = false := by
  have runs : (Request.ofLine ["--disable", "FrameworkPair", "--enable", "all"]).configures
      (settingsFile "enable = [\"FrameworkPair\"]\n") (fun _ => true) = true := by
    decide +kernel
  obtain ⟨a, asked, c, loaded, -⟩ := Request.configures_iff.mp runs
  obtain ⟨loads, lists⟩ := contains_over asked (settingsFile "enable = [\"FrameworkPair\"]\n")
  obtain ⟨file, -, -, rfl⟩ := (loads c).mp loaded
  have mem : Rule.frameworkPair ∈ Rule.all := by simp [Rule.all]
  have leftOut : "FrameworkPair" ∈
      named .disable (words none ["--disable", "FrameworkPair", "--enable", "all"]) := by
    decide +kernel
  exact ⟨a, asked, _, loaded, (lists file _ mem).1 leftOut⟩

/-- The command line adds the rule that the file leaves out, in vain. -/
theorem getDrawable_stays_off :
    Rule.getDrawable ∈ Rule.all ∧ Rule.getDrawable.id = "GetDrawable" ∧
      "GetDrawable" ∈ named .enable (words none ["--enable", "GetDrawable"]) ∧
      "GetDrawable" ∉ named .disable (words none ["--enable", "GetDrawable"]) ∧
      ∃ a, Request.ofLine ["--enable", "GetDrawable"] = .proceed a ∧
        ∃ c, a.configuration (settingsFile "disable = [\"GetDrawable\"]\n") = .ok c ∧
          c.catalog.contains "GetDrawable" = false := by
  have stays : (Request.ofLine ["--enable", "GetDrawable"]).configures
      (settingsFile "disable = [\"GetDrawable\"]\n")
      (fun c => !c.catalog.contains "GetDrawable") = true := by
    decide +kernel
  obtain ⟨a, asked, c, loaded, off⟩ := Request.configures_iff.mp stays
  rw [Bool.not_eq_eq_eq_not, Bool.not_true] at off
  exact ⟨by simp [Rule.all], rfl, by decide +kernel, by decide +kernel, a, asked, c, loaded, off⟩

end CommandLine

end AndroidLint
