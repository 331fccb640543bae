/-
Walkers — the files below a target, with lists and without.

Two walks look for the files of a project: one that minds the lists which keep
files out of version control, and one that does not.  Where there are no such
lists, both find what an entry leads to (`mem_within_iff`), and differ in two
things.  The second walk asks whether the target is excluded, the first does
not.  And the first walk takes a `./` away in front of a path before it asks
whether that is excluded, where one is taken away in any case: that makes a
difference below a target that begins with `./` twice, as `.` does below a
root `.`, and nowhere else (`within_of_isSingle`).

So the walks find the same exactly if what is found below the targets that are
excluded, or begin with `./` twice, is found by the other walk too.
-/
import AndroidLint.Proofs.PathPieces
import AndroidLint.Proofs.Project.Discovery

namespace AndroidLint

namespace FilePath

/-- Paths that name one place take the same steps. -/
theorem steps_eq_of_same {p q : FilePath} (same : p.key = q.key) : p.steps = q.steps := by
  have sifted (p : FilePath) :
      p.steps = p.components.filter fun c => c ≠ .root ∧ c ≠ .current := by
    have inside : (p.division.body.filterMap component?).filter
        (fun c => c ≠ .root ∧ c ≠ .current) = p.division.body.filterMap component? := by
      refine List.filter_eq_self.mpr fun c mem => ?_
      obtain ⟨piece, -, stands⟩ := List.mem_filterMap.mp mem
      rw [component?_eq] at stands
      split at stands
      · cases stands
      · split at stands
        · obtain rfl := Option.some.inj stands
          simp
        · obtain rfl := Option.some.inj stands
          simp
    have lead : p.division.lead.toList.filter (fun c => c ≠ .root ∧ c ≠ .current) = [] := by
      rw [division]
      split <;> rfl
    rw [components, List.filter_append, inside, lead, List.nil_append, ← filterMap_pieces]
    rfl
  have components : p.components = q.components :=
    List.map_injective_iff.mpr Component.key_injective same
  rw [sifted p, sifted q, components]

end FilePath

/-- What a file is depends on the steps of its path only. -/
theorem FileKind.classify?_of_same {p q : FilePath} (same : p.key = q.key) :
    classify? p = classify? q := by
  have steps := FilePath.steps_eq_of_same same
  have name : p.fileName? = q.fileName? :=
    FilePath.bind_fileName?_of_steps (p := some p) (q := some q) steps
  have above : ∀ p : FilePath, ((p.parent?.bind (·.parent?)).map FilePath.steps).getD [] =
      p.steps.dropLast.dropLast := by
    intro p
    rw [← FilePath.steps_parent?]
    cases p.parent? with
    | none => rfl
    | some q => exact FilePath.steps_parent? q
  have folder := FilePath.bind_fileName?_of_steps (p := p.parent?.bind (·.parent?))
    (q := q.parent?.bind (·.parent?)) (by rw [above, above, steps])
  rw [classify?, classify?, FilePath.fileName, FilePath.fileName, FilePath.extension?,
    FilePath.extension?, ofMarkup?, ofMarkup?, FilePath.fileName, FilePath.fileName, name, folder]

namespace Project

open Storage (Trail follow)

/-! ## Storages without lists -/

mutual

/-- `Bare i`: no folder in the item holds a list of what to leave out, and
what folders hold has names that can be steps of a path. -/
inductive Bare : Item → Prop
  | file {text? : Option String} : Bare (.file text?)
  | folder {is : List (String × Item)}
      (unlisted : ∀ name ∈ [".ignore", ".gitignore"], (Item.folder is).textOf? name = none)
      (inside : AllBare is) : Bare (.folder is)

/-- `AllBare is`: all items are bare and have such names. -/
inductive AllBare : List (String × Item) → Prop
  | nil : AllBare []
  | cons {name : String} {i : Item} {is : List (String × Item)} (apart : '/' ∉ name.toList)
      (named : name ≠ ".") (first : Bare i) (others : AllBare is) : AllBare ((name, i) :: is)

end

/-- The lists of a folder say nothing. -/
structure FolderRules.Empty (r : FolderRules) : Prop where
  first : r.first.rules = []
  second : r.second.rules = []

/-- No list around an entry says anything. -/
structure Surrounding.Silent (s : Surrounding) : Prop where
  inner : ∀ r ∈ s.inner, r.Empty
  above : ∀ a ∈ s.above, a.2.Empty

theorem empty_of_bare {i : Item} (bare : Bare i) (path : String) : (FolderRules.of path i).Empty := by
  have unlisted : ∀ name ∈ [".ignore", ".gitignore"], i.textOf? name = none := by
    cases bare with
    | file => intro name _; rfl
    | folder unlisted => exact unlisted
  have first := unlisted ".ignore" (by decide)
  have second := unlisted ".gitignore" (by decide)
  constructor
  · simp only [FolderRules.of, first]
  · simp only [FolderRules.of, second]

theorem verdict?_eq_none {l : IgnoreRules} (empty : l.rules = []) (path : String)
    (isFolder : Bool) : l.verdict? path isFolder = none := by
  rw [IgnoreRules.verdict?, empty]
  rfl

/-- Nothing is left out by lists that say nothing. -/
theorem Surrounding.Silent.leavesOut {s : Surrounding} (silent : s.Silent) (path : String)
    (steps : List String) (isFolder : Bool) : s.leavesOut path steps isFolder = false := by
  have mute : ∀ choose : FolderRules → IgnoreRules,
      (∀ r : FolderRules, r.Empty → (choose r).rules = []) →
        s.verdict? choose path steps isFolder = none := by
    intro choose chosen
    have inner : (s.inner.findSome? fun r => (choose r).verdict? path isFolder) = none :=
      List.findSome?_eq_none_iff.mpr fun r mem =>
        verdict?_eq_none (chosen r (silent.inner r mem)) path isFolder
    rw [Surrounding.verdict?, inner]
    exact List.findSome?_eq_none_iff.mpr fun a mem =>
      verdict?_eq_none (chosen a.2 (silent.above a mem)) _ isFolder
  rw [Surrounding.leavesOut, mute FolderRules.first fun r empty => empty.first,
    mute FolderRules.second fun r empty => empty.second]
  rfl

/-! ## What surrounds a target -/

theorem bare_of_lookup {is : List (String × Item)} (bare : AllBare is) {name : String} {i : Item}
    (found : is.lookup name = some i) : Bare i := by
  induction is with
  | nil => cases found
  | cons entry is ih =>
      cases bare with
      | @cons n j _ _ _ first others =>
          rw [List.lookup_cons] at found
          cases here : name == n with
          | true =>
              rw [here] at found
              exact Option.some.inj found ▸ first
          | false =>
              rw [here] at found
              exact ih others found

theorem bare_of_follow {t t' : Trail} {steps : List String} (bare : ∀ e ∈ t, Bare e.2)
    (led : follow t steps = .ok t') : ∀ e ∈ t', Bare e.2 := by
  induction steps generalizing t with
  | nil =>
      rw [follow] at led
      exact Except.ok.inj led ▸ bare
  | cons step steps ih =>
      obtain _ | ⟨⟨n, _ | is⟩, outer⟩ := t
      case nil => cases led
      case cons.file => cases led
      case cons.folder =>
        rw [follow] at led
        split at led
        · exact ih bare led
        · split at led
          · exact ih (fun e mem => bare e (List.mem_cons_of_mem _ mem)) led
          · split at led
            · cases led
            · rename_i i found
              refine ih (List.forall_mem_cons.mpr ⟨?_, bare⟩) led
              cases bare _ List.mem_cons_self with
              | folder _ inside => exact bare_of_lookup inside found

theorem bare_of_trail? {s : Storage} (bare : Bare (.folder s)) {p : FilePath} {t : Trail}
    (led : s.trail? p = .ok t) : ∀ e ∈ t, Bare e.2 := by
  rw [Storage.trail?] at led
  split at led
  · cases led
  · exact bare_of_follow (List.forall_mem_singleton.mpr bare) led

theorem empty_of_mem_listsAbove {t : Trail} (bare : ∀ e ∈ t, Bare e.2) {way : List String}
    {a : String × FolderRules} (mem : a ∈ listsAbove way t) : a.2.Empty := by
  induction t generalizing way with
  | nil => cases mem
  | cons entry t ih =>
      obtain ⟨first, others⟩ := List.forall_mem_cons.mp bare
      rw [listsAbove] at mem
      obtain rfl | mem := List.mem_cons.mp mem
      · exact empty_of_bare first "."
      · exact ih others mem

theorem silent_ofTrail {t : Trail} (bare : ∀ e ∈ t, Bare e.2) : (Surrounding.ofTrail t).Silent := by
  obtain _ | ⟨⟨name, _ | is⟩, outer⟩ := t
  case nil => exact ⟨nofun, nofun⟩
  case cons.file => exact ⟨nofun, nofun⟩
  case cons.folder =>
    obtain ⟨-, others⟩ := List.forall_mem_cons.mp bare
    exact ⟨nofun, fun a mem => empty_of_mem_listsAbove others mem⟩

/-! ## Dots in front -/

/-- `IsSingle p`: the path does not begin with `./` twice, even with a slash
behind it. -/
def IsSingle (p : FilePath) : Prop :=
  Text.startsWith (p.text ++ "/") "././" = false

instance (p : FilePath) : Decidable (IsSingle p) :=
  inferInstanceAs (Decidable (_ = _))

/-- A name behind a slash does not make a path begin with `./` twice. -/
theorem prefix_of_prefix_append {front name : List Char}
    (closed : front = [] ∨ front.getLast? = some '/') (apart : '/' ∉ name) (named : name ≠ ['.'])
    (dotted : ['.', '/', '.', '/'] <+: front ++ name ++ ['/']) :
    ['.', '/', '.', '/'] <+: front := by
  -- what stands in front of the name has no character, two, or at least four
  have short : ¬ ['.', '/'] <+: name ++ ['/'] := by
    intro dot
    match name with
    | [] => simp at dot
    | [c] =>
        simp only [List.cons_append, List.nil_append, List.cons_prefix_cons] at dot
        exact named (by rw [dot.1])
    | c :: d :: name =>
        simp only [List.cons_append, List.cons_prefix_cons] at dot
        exact apart (by simp [← dot.2.1])
  match front with
  | [] => exact absurd (List.IsPrefix.trans ⟨['.', '/'], rfl⟩ dotted) short
  | [a] => simp_all
  | [a, b] =>
      simp only [List.cons_append, List.nil_append, List.cons_prefix_cons] at dotted
      exact absurd dotted.2.2 short
  | [a, b, c] => simp_all
  | a :: b :: c :: d :: front =>
      simp only [List.cons_append, List.cons_prefix_cons, List.nil_prefix, and_true] at dotted ⊢
      exact dotted

theorem startsWith_eq_false_iff {s t : String} :
    Text.startsWith s t = false ↔ ¬ t.toList <+: s.toList := by
  rw [Text.startsWith, ← Bool.not_eq_true, List.isPrefixOf_iff_prefix]

theorem IsSingle.join {p : FilePath} (single : IsSingle p) {name : String}
    (apart : '/' ∉ name.toList) (named : name ≠ ".") : IsSingle (p.join name) := by
  have relative : Text.startsWith name "/" = false := by
    rw [startsWith_eq_false_iff]
    rintro ⟨rest, whole⟩
    exact apart (by rw [← whole]; simp)
  have named : name.toList ≠ ['.'] := fun same => named (String.toList_inj.mp same)
  rw [IsSingle, startsWith_eq_false_iff] at single ⊢
  rw [FilePath.join, relative]
  intro dotted
  simp only [Bool.false_eq_true, if_false] at dotted
  split at dotted
  case isTrue closed =>
    have closed : p.text.toList = [] ∨ p.text.toList.getLast? = some '/' := by
      rw [Bool.or_eq_true, String.isEmpty_iff, Text.endsWith, List.isSuffixOf_iff_suffix] at closed
      obtain empty | ⟨front, whole⟩ := closed
      · exact .inl (by rw [empty]; rfl)
      · right
        rw [← whole]
        simp
    rw [String.toList_append, String.toList_append] at dotted
    have front := prefix_of_prefix_append closed apart named dotted
    rw [String.toList_append] at single
    exact single (front.trans (List.prefix_append _ _))
  case isFalse =>
    rw [String.toList_append, String.toList_append] at dotted
    exact single (prefix_of_prefix_append (.inr (by simp)) apart named dotted)

/-- Taking `./` away a second time changes nothing. -/
theorem withoutDot_withoutDot {p : FilePath} (single : IsSingle p) :
    withoutDot (withoutDot p.text) = withoutDot p.text := by
  rw [IsSingle, startsWith_eq_false_iff] at single
  cases dotted : Text.afterStart? p.text "./" with
  | none => rw [withoutDot, withoutDot, dotted, Option.getD_none, dotted, Option.getD_none]
  | some rest =>
      have whole := Text.afterStart?_eq_some_iff.mp dotted
      have undotted : Text.afterStart? rest "./" = none := by
        rw [Option.eq_none_iff_forall_ne_some]
        intro rest' again
        obtain rfl := Text.afterStart?_eq_some_iff.mp again
        exact single ⟨rest'.toList ++ ['/'], by rw [whole]; simp⟩
      rw [withoutDot, withoutDot, dotted, Option.getD_some, undotted, Option.getD_none]

/-! ## What a walk asks -/

/-- Whether an entry is excluded, asked with its path as it is. -/
def asGiven (excluded : IgnoreRules) (path : FilePath) (isFolder : Bool) : Bool :=
  excluded.isExcluded path.text isFolder

/-- Whether an entry is excluded, asked without a `./` in front of its path. -/
def asStripped (excluded : IgnoreRules) (path : FilePath) (isFolder : Bool) : Bool :=
  excluded.isExcluded (withoutDot path.text) isFolder

theorem asStripped_of_isSingle {p : FilePath} (single : IsSingle p) (excluded : IgnoreRules)
    (isFolder : Bool) : asStripped excluded p isFolder = asGiven excluded p isFolder := by
  have relative : excluded.relative (withoutDot p.text) = excluded.relative p.text := by
    rw [IgnoreRules.relative, IgnoreRules.relative, withoutDot_withoutDot single]
  rw [asStripped, asGiven, IgnoreRules.isExcluded, IgnoreRules.isExcluded, IgnoreRules.verdict?,
    IgnoreRules.verdict?, relative]

/-! ## What a walk finds -/

section Walks

variable (leavesOut : FilePath → Bool → Bool)

/-- `Leads leavesOut path i q`: at the path `q` there is a file of the item at
`path`, and neither it nor a folder on the way there is left out.  Whether the
item itself would be does not matter. -/
inductive Leads : FilePath → Item → FilePath → Prop
  | file {path : FilePath} {text? : Option String} : Leads path (.file text?) path
  | folder {path q : FilePath} {is : List (String × Item)} {name : String} {i : Item}
      (held : (name, i) ∈ is) (kept : leavesOut (path.join name) i.isFolder = false)
      (inner : Leads (path.join name) i q) : Leads path (.folder is) q

mutual

/-- The files of an item that are found once the item is entered. -/
def within (path : FilePath) : Item → List FilePath
  | .file _ => [path]
  | .folder is => withinAll path is

/-- The files of the items in a folder that are not left out. -/
def withinAll (folder : FilePath) : List (String × Item) → List FilePath
  | [] => []
  | (name, i) :: is =>
      let here := if leavesOut (folder.join name) i.isFolder then []
        else within (folder.join name) i
      here ++ withinAll folder is

end

mutual

theorem mem_within_iff {q : FilePath} (path : FilePath) : (i : Item) →
    (q ∈ within leavesOut path i ↔ Leads leavesOut path i q)
  | .file _ => by
      rw [within, List.mem_singleton]
      constructor
      · rintro rfl
        exact .file
      · rintro ⟨⟩
        rfl
  | .folder is => by
      rw [within, mem_withinAll_iff path is]
      constructor
      · rintro ⟨name, i, held, kept, inner⟩
        exact .folder held kept inner
      · rintro (_ | ⟨held, kept, inner⟩)
        exact ⟨_, _, held, kept, inner⟩

theorem mem_withinAll_iff {q : FilePath} (folder : FilePath) : (is : List (String × Item)) →
    (q ∈ withinAll leavesOut folder is ↔ ∃ name i, (name, i) ∈ is ∧
      leavesOut (folder.join name) i.isFolder = false ∧ Leads leavesOut (folder.join name) i q)
  | [] => by simp [withinAll]
  | (name, i) :: is => by
      have first : (q ∈ if leavesOut (folder.join name) i.isFolder then []
          else within leavesOut (folder.join name) i) ↔
          leavesOut (folder.join name) i.isFolder = false ∧
            Leads leavesOut (folder.join name) i q := by
        rw [← mem_within_iff (folder.join name) i]
        cases leavesOut (folder.join name) i.isFolder <;> simp
      rw [withinAll, List.mem_append, first, mem_withinAll_iff folder is]
      constructor
      · rintro (found | ⟨name', i', held, found⟩)
        · exact ⟨name, i, List.mem_cons_self, found⟩
        · exact ⟨name', i', List.mem_cons_of_mem _ held, found⟩
      · rintro ⟨name', i', held, found⟩
        obtain same | held := List.mem_cons.mp held
        · obtain ⟨rfl, rfl⟩ := Prod.mk.inj same
          exact .inl found
        · exact .inr ⟨name', i', held, found⟩

end

end Walks

section TwoWalks

variable (excluded : IgnoreRules)

mutual

/-- Without lists, an item is entered unless it is excluded. -/
theorem filesBelow_eq_within (path : FilePath) : (i : Item) →
    filesBelow excluded path i =
      if asGiven excluded path i.isFolder then [] else within (asGiven excluded) path i
  | .file _ => rfl
  | .folder is => by
      rw [filesBelow, within, filesIn_eq_withinAll path is]
      rfl

theorem filesIn_eq_withinAll (folder : FilePath) : (is : List (String × Item)) →
    filesIn excluded folder is = withinAll (asGiven excluded) folder is
  | [] => rfl
  | (name, i) :: is => by
      rw [filesIn, withinAll, filesBelow_eq_within (folder.join name) i,
        filesIn_eq_withinAll folder is]

end

mutual

/-- With lists that say nothing, an item is entered in any case. -/
theorem visited_eq_within (s : Surrounding) (silent : s.Silent) (path : FilePath)
    (steps : List String) : (i : Item) → Bare i →
      visited excluded s path steps i = within (asStripped excluded) path i
  | .file _, _ => rfl
  | .folder is, bare => by
      have inner : ({ s with inner := .of path.text (.folder is) :: s.inner } :
          Surrounding).Silent :=
        ⟨List.forall_mem_cons.mpr ⟨empty_of_bare bare path.text, silent.inner⟩, silent.above⟩
      cases bare with
      | folder _ inside => exact visitedIn_eq_withinAll _ inner path steps is inside

theorem visitedIn_eq_withinAll (s : Surrounding) (silent : s.Silent) (folder : FilePath)
    (steps : List String) : (is : List (String × Item)) → AllBare is →
      visitedIn excluded s folder steps is = withinAll (asStripped excluded) folder is
  | [], _ => rfl
  | (name, i) :: is, bare => by
      cases bare with
      | cons _ _ first others =>
          have skipped : isSkipped excluded s (folder.join name) (steps ++ [name]) i.isFolder =
              asStripped excluded (folder.join name) i.isFolder := by
            rw [isSkipped, silent.leavesOut, Bool.or_false, asStripped]
          rw [visitedIn, withinAll, visitedIn_eq_withinAll s silent folder steps is others]
          simp only [skipped, visited_eq_within s silent _ (steps ++ [name]) i first]

end

mutual

/-- Below a path that does not begin with `./` twice, both walks find the same. -/
theorem within_of_isSingle {path : FilePath} (single : IsSingle path) : (i : Item) → Bare i →
    within (asStripped excluded) path i = within (asGiven excluded) path i
  | .file _, _ => by rw [within, within]
  | .folder is, bare => by
      cases bare with
      | folder _ inside =>
          rw [within, within, withinAll_of_isSingle single is inside]

theorem withinAll_of_isSingle {folder : FilePath} (single : IsSingle folder) :
    (is : List (String × Item)) → AllBare is →
      withinAll (asStripped excluded) folder is = withinAll (asGiven excluded) folder is
  | [], _ => by rw [withinAll, withinAll]
  | (name, i) :: is, bare => by
      cases bare with
      | cons apart named first others =>
          have inner : IsSingle (folder.join name) := single.join apart named
          rw [withinAll, withinAll, asStripped_of_isSingle inner,
            within_of_isSingle inner i first, withinAll_of_isSingle single is others]

end

theorem leads_of_isSingle {excluded : IgnoreRules} {path q : FilePath} (single : IsSingle path)
    {i : Item} (bare : Bare i) :
    Leads (asStripped excluded) path i q ↔ Leads (asGiven excluded) path i q := by
  rw [← mem_within_iff, within_of_isSingle excluded single i bare, mem_within_iff]

end TwoWalks

/-! ## All targets -/

/-- The files below a target, none if it leads nowhere. -/
def filesAt (s : Storage) (p : Scope) (excluded : IgnoreRules) (t : FilePath) : List FilePath :=
  match s.trail? t with
  | .ok trail => filesOfTarget p excluded trail t
  | .error _ => []

theorem exists_trail {s : Storage} {t : FilePath} {i : Item} (found : s.item? t = some i) :
    ∃ name outer, s.trail? t = .ok ((name, i) :: outer) := by
  rw [Storage.item?] at found
  split at found
  case h_1 name j outer led =>
    obtain rfl := Option.some.inj found
    exact ⟨name, outer, led⟩
  case h_2 => cases found

section Targets

variable {s : Storage} {p : Scope} {excluded : IgnoreRules} {t : FilePath} {i : Item}

theorem bare_of_item? (bare : Bare (.folder s)) (found : s.item? t = some i) : Bare i := by
  obtain ⟨name, outer, led⟩ := exists_trail found
  exact bare_of_trail? bare led _ List.mem_cons_self

theorem filesAt_without (found : s.item? t = some i) (without : p.respectsIgnoreFiles = false) :
    filesAt s p excluded t =
      if asGiven excluded t i.isFolder then [] else within (asGiven excluded) t i := by
  obtain ⟨name, outer, led⟩ := exists_trail found
  rw [filesAt, led, ← filesBelow_eq_within]
  simp only [filesOfTarget, without, Bool.false_eq_true, if_false]

theorem filesAt_with (bare : Bare (.folder s)) (found : s.item? t = some i)
    (mindful : p.respectsIgnoreFiles = true) :
    filesAt s p excluded t = within (asStripped excluded) t i := by
  obtain ⟨name, outer, led⟩ := exists_trail found
  have trail := bare_of_trail? bare led
  rw [filesAt, led, ← visited_eq_within excluded _ (silent_ofTrail trail) t [] i
    (trail _ List.mem_cons_self)]
  simp only [filesOfTarget, mindful, if_true]

theorem filesOfTargets_eq {ts : List FilePath} (exist : ∀ t ∈ ts, s.has t = true) :
    filesOfTargets s p excluded ts = .ok (ts.flatMap (filesAt s p excluded)) := by
  induction ts with
  | nil => rfl
  | cons t ts ih =>
      obtain ⟨there, exist⟩ := List.forall_mem_cons.mp exist
      obtain ⟨i, found⟩ := Option.isSome_iff_exists.mp there
      obtain ⟨name, outer, led⟩ := exists_trail found
      rw [filesOfTargets, led, ih exist, List.flatMap_cons, filesAt, led]
      rfl

theorem exists_mem_withoutRepeats {paths : List FilePath} {q : FilePath} (mem : q ∈ paths) :
    ∃ r ∈ withoutRepeats paths, r.key = q.key := by
  induction paths with
  | nil => cases mem
  | cons p ps ih =>
      rw [withoutRepeats]
      obtain rfl | mem := List.mem_cons.mp mem
      · exact ⟨q, List.mem_cons_self, rfl⟩
      · obtain ⟨r, kept, same⟩ := ih mem
        by_cases repeated : p.key = r.key
        · exact ⟨p, List.mem_cons_self, repeated.trans same⟩
        · refine ⟨r, List.mem_cons_of_mem _ (List.mem_filter.mpr ⟨kept, ?_⟩), same⟩
          rw [Bool.not_eq_true', ← Bool.not_eq_true, FilePath.same_iff]
          exact repeated

theorem withoutRepeats_subset (paths : List FilePath) : withoutRepeats paths ⊆ paths := by
  induction paths with
  | nil => exact List.Subset.refl _
  | cons p ps ih =>
      rw [withoutRepeats]
      exact List.cons_subset_cons p fun q mem => ih (List.mem_filter.mp mem).1

/-- The files of some kind among paths, each once and in order. -/
def sourcesOf (paths : List FilePath) : List Source :=
  ((withoutRepeats paths).filterMap fun path =>
    (FileKind.classify? path).map fun kind => ⟨path, kind⟩).mergeSort fun a b => a.path.le b.path

variable {root : FilePath}

/-- What is found is what the targets give. -/
theorem discover_eq (there : s.has root = true) (valid : excludes root p.exclude = .ok excluded)
    (exist : ∀ t ∈ p.targetsBelow root, s.has t = true) :
    discover s p root = .ok (sourcesOf ((p.targetsBelow root).flatMap (filesAt s p excluded))) := by
  rw [discover, there, valid]
  simp only [Bool.not_true, Bool.false_eq_true, if_false]
  rw [filesOfTargets_eq exist]
  rfl

/-- The places of the files that are found. -/
theorem mem_places_iff {files : List Source} (found : discover s p root = .ok files)
    (there : s.has root = true) (valid : excludes root p.exclude = .ok excluded)
    (exist : ∀ t ∈ p.targetsBelow root, s.has t = true) {k : List (Nat ×ₗ String)} :
    k ∈ files.map (·.path.key) ↔ ∃ q, (FileKind.classify? q).isSome = true ∧ q.key = k ∧
      ∃ t ∈ p.targetsBelow root, ∃ q' ∈ filesAt s p excluded t, q'.key = q.key := by
  rw [discover_eq there valid exist] at found
  obtain rfl := Except.ok.inj found
  simp only [sourcesOf, List.mem_map, List.mem_mergeSort, List.mem_filterMap, Option.map_eq_some_iff]
  constructor
  · rintro ⟨f, ⟨q, kept, kind, classified, rfl⟩, rfl⟩
    obtain ⟨t, target, below⟩ := List.mem_flatMap.mp (withoutRepeats_subset _ kept)
    exact ⟨q, by rw [classified]; rfl, rfl, t, target, q, below, rfl⟩
  · rintro ⟨q, classified, rfl, t, target, q', below, same⟩
    obtain ⟨kind, classified⟩ := Option.isSome_iff_exists.mp classified
    obtain ⟨r, kept, same'⟩ :=
      exists_mem_withoutRepeats (List.mem_flatMap.mpr ⟨t, target, below⟩)
    rw [← FileKind.classify?_of_same (same'.trans same)] at classified
    exact ⟨⟨r, kind⟩, ⟨r, kept, kind, classified, rfl⟩, same'.trans same⟩

/-- Files are found at the same places if each place of one is one of the
other. -/
theorem places_eq_of_mem_iff {p' : Scope} {files files' : List Source}
    (found : discover s p root = .ok files) (found' : discover s p' root = .ok files')
    (same : ∀ k, k ∈ files.map (·.path.key) ↔ k ∈ files'.map (·.path.key)) :
    files.map (·.path.key) = files'.map (·.path.key) := by
  have sorted {p : Scope} {files : List Source} (found : discover s p root = .ok files) :
      (files.map (·.path.key)).Pairwise (· < ·) :=
    List.pairwise_map.mpr ((pairwise_discover found).imp FilePath.compare_eq_lt_iff.mp)
  exact (sorted found).eq_of_mem_iff (sorted found') fun k => same k

end Targets

/-! ## Both walks -/

section Both

variable (s : Storage) (excluded : IgnoreRules) (ts : List FilePath)

/-- `FoundWith s excluded ts q`: at the place of `q` there is a file that the walk
with lists finds from a target. -/
def FoundWith (q : FilePath) : Prop :=
  ∃ t ∈ ts, ∃ i, s.item? t = some i ∧ ∃ q', Leads (asStripped excluded) t i q' ∧ q'.key = q.key

/-- `FoundWithout s excluded ts q`: at the place of `q` there is a file that the
walk without lists finds from a target. -/
def FoundWithout (q : FilePath) : Prop :=
  ∃ t ∈ ts, ∃ i, s.item? t = some i ∧ excluded.isExcluded t.text i.isFolder = false ∧
    ∃ q', Leads (asGiven excluded) t i q' ∧ q'.key = q.key

/-- `Matched s excluded ts`: what the one walk finds below a target that is
excluded, or begins with `./` twice, the other walk finds too, maybe from another
target. -/
structure Matched : Prop where
  heeded : ∀ t ∈ ts, ∀ i, s.item? t = some i →
    excluded.isExcluded t.text i.isFolder = true ∨ ¬ IsSingle t →
      ∀ q, Leads (asStripped excluded) t i q → (FileKind.classify? q).isSome = true →
        FoundWithout s excluded ts q
  unheeded : ∀ t ∈ ts, ∀ i, s.item? t = some i →
    excluded.isExcluded t.text i.isFolder = false → ¬ IsSingle t →
      ∀ q, Leads (asGiven excluded) t i q → (FileKind.classify? q).isSome = true →
        FoundWith s excluded ts q

/-- `Covered s excluded ts`: what is found below a target that is excluded is
found from a target that is not. -/
def Covered : Prop :=
  ∀ t ∈ ts, ∀ i, s.item? t = some i → excluded.isExcluded t.text i.isFolder = true →
    ∀ q, Leads (asGiven excluded) t i q → (FileKind.classify? q).isSome = true →
      FoundWithout s excluded ts q

variable {s excluded ts}

theorem FoundWith.of_same {q q' : FilePath} (found : FoundWith s excluded ts q)
    (same : q.key = q'.key) : FoundWith s excluded ts q' := by
  rwa [FoundWith, ← same]

theorem FoundWithout.of_same {q q' : FilePath} (found : FoundWithout s excluded ts q)
    (same : q.key = q'.key) : FoundWithout s excluded ts q' := by
  rwa [FoundWithout, ← same]

/-- Below the other targets both walks find the same anyway. -/
theorem matched_iff (bare : Bare (.folder s)) :
    Matched s excluded ts ↔ ∀ q, (FileKind.classify? q).isSome = true →
      (FoundWith s excluded ts q ↔ FoundWithout s excluded ts q) := by
  constructor
  · intro matched q classified
    constructor
    · rintro ⟨t, target, i, held, q', leads, same⟩
      by_cases apart : excluded.isExcluded t.text i.isFolder = true ∨ ¬ IsSingle t
      · rw [← FileKind.classify?_of_same same] at classified
        exact (matched.heeded t target i held apart q' leads classified).of_same same
      · rw [not_or, Bool.not_eq_true, not_not] at apart
        obtain ⟨kept, single⟩ := apart
        exact ⟨t, target, i, held, kept, q',
          (leads_of_isSingle single (bare_of_item? bare held)).mp leads, same⟩
    · rintro ⟨t, target, i, held, kept, q', leads, same⟩
      by_cases single : IsSingle t
      · exact ⟨t, target, i, held, q',
          (leads_of_isSingle single (bare_of_item? bare held)).mpr leads, same⟩
      · rw [← FileKind.classify?_of_same same] at classified
        exact (matched.unheeded t target i held kept single q' leads classified).of_same same
  · intro same
    constructor
    · intro t target i held _ q leads classified
      exact (same q classified).mp ⟨t, target, i, held, q, leads, rfl⟩
    · intro t target i held kept _ q leads classified
      exact (same q classified).mpr ⟨t, target, i, held, kept, q, leads, rfl⟩

/-- Where no target begins with `./` twice, the excluded ones alone matter. -/
theorem matched_iff_covered (bare : Bare (.folder s)) (single : ∀ t ∈ ts, IsSingle t) :
    Matched s excluded ts ↔ Covered s excluded ts := by
  have either (t : FilePath) (target : t ∈ ts) {i : Item} (held : s.item? t = some i)
      (q : FilePath) : Leads (asStripped excluded) t i q ↔ Leads (asGiven excluded) t i q :=
    leads_of_isSingle (single t target) (bare_of_item? bare held)
  constructor
  · intro matched t target i held left q leads
    exact matched.heeded t target i held (.inl left) q ((either t target held q).mpr leads)
  · intro covered
    constructor
    · intro t target i held apart q leads
      have left := apart.resolve_right (not_not.mpr (single t target))
      exact covered t target i held left q ((either t target held q).mp leads)
    · exact fun t target _ _ _ double => absurd (single t target) double

variable {p : Scope} {q : FilePath}

theorem foundWith_iff (bare : Bare (.folder s)) (exist : ∀ t ∈ ts, s.has t = true)
    (mindful : p.respectsIgnoreFiles = true) :
    FoundWith s excluded ts q ↔ ∃ t ∈ ts, ∃ q' ∈ filesAt s p excluded t, q'.key = q.key := by
  refine exists_congr fun t => and_congr_right fun target => ?_
  obtain ⟨i, held⟩ := Option.isSome_iff_exists.mp (exist t target)
  simp only [filesAt_with bare held mindful, mem_within_iff, held, Option.some.injEq,
    exists_eq_left']

theorem foundWithout_iff (exist : ∀ t ∈ ts, s.has t = true)
    (without : p.respectsIgnoreFiles = false) :
    FoundWithout s excluded ts q ↔ ∃ t ∈ ts, ∃ q' ∈ filesAt s p excluded t, q'.key = q.key := by
  refine exists_congr fun t => and_congr_right fun target => ?_
  obtain ⟨i, held⟩ := Option.isSome_iff_exists.mp (exist t target)
  have asked : excluded.isExcluded t.text i.isFolder = asGiven excluded t i.isFolder := rfl
  simp only [filesAt_without held without, asked, held, Option.some.injEq, exists_eq_left']
  cases asGiven excluded t i.isFolder <;> simp [mem_within_iff]

variable {root : FilePath} {files : List Source} {k : List (Nat ×ₗ String)}

/-- The places of what the walk with lists finds. -/
theorem mem_places_with_iff (bare : Bare (.folder s)) (mindful : p.respectsIgnoreFiles = true)
    (found : discover s p root = .ok files) (there : s.has root = true)
    (valid : excludes root p.exclude = .ok excluded)
    (exist : ∀ t ∈ p.targetsBelow root, s.has t = true) :
    k ∈ files.map (·.path.key) ↔ ∃ q, (FileKind.classify? q).isSome = true ∧ q.key = k ∧
      FoundWith s excluded (p.targetsBelow root) q := by
  rw [mem_places_iff found there valid exist]
  simp only [foundWith_iff bare exist mindful]

/-- The places of what the walk without lists finds. -/
theorem mem_places_without_iff (without : p.respectsIgnoreFiles = false)
    (found : discover s p root = .ok files) (there : s.has root = true)
    (valid : excludes root p.exclude = .ok excluded)
    (exist : ∀ t ∈ p.targetsBelow root, s.has t = true) :
    k ∈ files.map (·.path.key) ↔ ∃ q, (FileKind.classify? q).isSome = true ∧ q.key = k ∧
      FoundWithout s excluded (p.targetsBelow root) q := by
  rw [mem_places_iff found there valid exist]
  simp only [foundWithout_iff exist without]

end Both

/-- **The two walks agree where each makes up for what the other leaves out.**  For
every storage without lists of files to leave out, every list of targets that
exist, every list of patterns that can be read and every root, files are found
with the lists heeded and unheeded.  They are the same files if no target is
itself excluded or begins with `./` twice; in general they lie at the same places
exactly if what the one walk finds below such a target is found by the other walk
too.  Where no target begins with `./` twice this is so exactly if what is found
below an excluded target is found from one that is not.

Storages hold files and folders, and no links: a target that is a link to a file,
which the walk with lists alone finds, is none of them. -/
theorem discover_same_iff (s : Storage) (p : Scope) (root : FilePath) (excluded : IgnoreRules)
    (bare : Bare (.folder s)) (there : s.has root = true)
    (valid : excludes root p.exclude = .ok excluded)
    (exist : ∀ t ∈ p.targetsBelow root, s.has t = true) :
    ∃ files files', discover s { p with respectsIgnoreFiles := true } root = .ok files ∧
      discover s { p with respectsIgnoreFiles := false } root = .ok files' ∧
      ((∀ t ∈ p.targetsBelow root, IsSingle t ∧ ∀ i, s.item? t = some i →
        excluded.isExcluded t.text i.isFolder = false) → files = files') ∧
      (files.map (·.path.key) = files'.map (·.path.key) ↔
        Matched s excluded (p.targetsBelow root)) ∧
      ((∀ t ∈ p.targetsBelow root, IsSingle t) →
        (Matched s excluded (p.targetsBelow root) ↔ Covered s excluded (p.targetsBelow root))) := by
  let mindful : Scope := { p with respectsIgnoreFiles := true }
  let mindless : Scope := { p with respectsIgnoreFiles := false }
  have found : discover s mindful root = .ok _ := discover_eq there valid exist
  have found' : discover s mindless root = .ok _ := discover_eq there valid exist
  refine ⟨_, _, found, found', ?kept, ?places, matched_iff_covered bare⟩
  case kept =>
    intro kept
    refine congrArg sourcesOf (List.flatMap_congr fun t target => ?_)
    obtain ⟨single, unexcluded⟩ := kept t target
    obtain ⟨i, held⟩ := Option.isSome_iff_exists.mp (exist t target)
    rw [filesAt_with bare held rfl, filesAt_without held rfl, asGiven, unexcluded i held,
      within_of_isSingle excluded single i (bare_of_item? bare held)]
    rfl
  case places =>
    have heeded (k : List (Nat ×ₗ String)) :=
      mem_places_with_iff (k := k) bare rfl found there valid exist
    have unheeded (k : List (Nat ×ₗ String)) :=
      mem_places_without_iff (k := k) rfl found' there valid exist
    rw [matched_iff bare]
    constructor
    · intro same q classified
      constructor
      · intro found
        have here := (heeded q.key).mpr ⟨q, classified, rfl, found⟩
        obtain ⟨q', -, key, found⟩ := (unheeded q.key).mp (same ▸ here)
        exact found.of_same key
      · intro found
        have here := (unheeded q.key).mpr ⟨q, classified, rfl, found⟩
        obtain ⟨q', -, key, found⟩ := (heeded q.key).mp (same ▸ here)
        exact found.of_same key
    · intro same
      refine places_eq_of_mem_iff found found' fun k => ?_
      rw [heeded, unheeded]
      exact exists_congr fun q => and_congr_right fun classified =>
        and_congr_right fun _ => same q classified

/-- A file, and another one in a folder of what has been built. -/
def builtProject : Storage :=
  [("src", .folder [("A.kt", .file (some "class A\n")),
    ("build", .folder [("B.kt", .file (some "class B\n"))])])]

theorem bare_builtProject : Bare (.folder builtProject) := by
  have built : Bare (.folder [("B.kt", .file (some "class B\n"))]) :=
    .folder (by decide +kernel) (.cons (by decide) (by decide) .file .nil)
  have folder : Bare (.folder [("A.kt", .file (some "class A\n")),
      ("build", .folder [("B.kt", .file (some "class B\n"))])]) :=
    .folder (by decide +kernel)
      (.cons (by decide) (by decide) .file (.cons (by decide) (by decide) built .nil))
  exact .folder (by decide +kernel) (.cons (by decide) (by decide) folder .nil)

/-- Both walks pass over the folder. -/
theorem discover_same_builtProject :
    ∃ excluded, Bare (.folder builtProject) ∧ builtProject.has ⟨"."⟩ = true ∧
      excludes ⟨"."⟩ ["build"] = .ok excluded ∧ excluded.isExcluded "./src/build" true = true ∧
      (∀ t ∈ [FilePath.join ⟨"."⟩ "src"], builtProject.has t = true) ∧
      (∀ t ∈ [FilePath.join ⟨"."⟩ "src"], IsSingle t ∧ ∀ i, builtProject.item? t = some i →
        excluded.isExcluded t.text i.isFolder = false) ∧
      ∃ files, discover builtProject ⟨["src"], ["build"], true⟩ ⟨"."⟩ = .ok files ∧
        discover builtProject ⟨["src"], ["build"], false⟩ ⟨"."⟩ = .ok files ∧
        files.map (·.path.text) = ["./src/A.kt"] := by
  have readable : (excludes ⟨"."⟩ ["build"]).toOption.isSome = true := by decide +kernel
  obtain ⟨excluded, valid⟩ := Option.isSome_iff_exists.mp readable
  have asked : (excludes ⟨"."⟩ ["build"]).toOption.all (fun l =>
      l.isExcluded "./src/build" true && !l.isExcluded "./src" true) = true := by
    decide +kernel
  rw [valid, Option.all_some, Bool.and_eq_true, Bool.not_eq_true'] at asked
  obtain ⟨built, kept⟩ := asked
  have valid := eq_ok_of_toOption_eq_some valid
  have there : builtProject.has ⟨"."⟩ = true := by decide +kernel
  have exist : ∀ t ∈ [FilePath.join ⟨"."⟩ "src"], builtProject.has t = true := by decide +kernel
  have plain : ∀ t ∈ [FilePath.join ⟨"."⟩ "src"], IsSingle t ∧ ∀ i, builtProject.item? t = some i →
      excluded.isExcluded t.text i.isFolder = false := by
    intro t target
    obtain rfl := List.mem_singleton.mp target
    refine ⟨by decide +kernel, fun i held => ?_⟩
    have folder : (builtProject.item? (FilePath.join ⟨"."⟩ "src")).all (·.isFolder) = true := by
      decide +kernel
    rw [held] at folder
    have text : (FilePath.join ⟨"."⟩ "src").text = "./src" := by decide +kernel
    rw [text, show i.isFolder = true from folder]
    exact kept
  obtain ⟨files, files', found, found', same, -⟩ := discover_same_iff builtProject
    ⟨["src"], ["build"], true⟩ ⟨"."⟩ excluded bare_builtProject there valid exist
  have paths : (discover builtProject ⟨["src"], ["build"], true⟩ ⟨"."⟩).toOption.map
      (·.map (·.path.text)) = some ["./src/A.kt"] := by
    decide +kernel
  rw [found] at paths
  exact ⟨excluded, bare_builtProject, there, valid, built, exist, plain, files, found,
    same plain ▸ found', Option.some.inj paths⟩

/-- A storage with one file, in a folder. -/
def loneFile : Storage :=
  [("src", .folder [("A.kt", .file (some "class A\n"))])]

theorem bare_loneFile : Bare (.folder loneFile) := by
  have folder : Bare (.folder [("A.kt", .file (some "class A\n"))]) :=
    .folder (by decide +kernel) (.cons (by decide) (by decide) .file .nil)
  exact .folder (by decide +kernel) (.cons (by decide) (by decide) folder .nil)

/-- Where a pattern excludes the target, or an anchored one is asked about a path
that begins with `./` twice, the walks find different files. -/
theorem discover_differs_loneFile :
    Bare (.folder loneFile) ∧
      (discover loneFile ⟨["src"], ["src"], true⟩ ⟨"."⟩).toOption.map (·.map (·.path.text)) =
        some ["./src/A.kt"] ∧
      (discover loneFile ⟨["src"], ["src"], false⟩ ⟨"."⟩).toOption.map (·.map (·.path.text)) =
        some [] ∧
      (discover loneFile ⟨["."], ["/src"], true⟩ ⟨"."⟩).toOption.map (·.map (·.path.text)) =
        some [] ∧
      (discover loneFile ⟨["."], ["/src"], false⟩ ⟨"."⟩).toOption.map (·.map (·.path.text)) =
        some ["././src/A.kt"] :=
  ⟨bare_loneFile, by decide +kernel⟩

end Project

end AndroidLint
