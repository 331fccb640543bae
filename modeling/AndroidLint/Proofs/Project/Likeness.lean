/-
Likeness — projects that differ in broken files only.

A file is broken if it is of a kind that is checked and its bytes are no
text, or a text that cannot be parsed as what the file is.  Two projects
are alike if the same files and folders stand in the same places and hold
the same, up to files that are broken in both (`Alike`).  A path then leads
to items of one name that are alike, or nowhere in both (`sameWay_trail?`),
and the same files are found (`discover_alike`).

Only the lists of what is left out are read while files are found, and
those are the same: a file's kind depends on its name and on whether it
lies among resources (`classify?_eq`), and no file with the name of a list
is of any kind.
-/
import AndroidLint.Project.Lint

namespace AndroidLint

/-! ## What a name says about a file -/

namespace FileKind

/-- What a file with a name is, depending on whether it lies where
resources do. -/
def ofName? (isAmongResources : Bool) (name : String) : Option FileKind :=
  if name == "build.gradle" || name == "build.gradle.kts" then some buildScript
  else
    match (match Text.beforeLast? '.' name with
      | none | some "" => none
      | some _ => some (Text.afterLast '.' name)) with
    | some "kt" => some kotlin
    | some "java" => some java
    | some "xml" =>
        if name == "AndroidManifest.xml" then some manifest
        else if isAmongResources then some resource
        else none
    | _ => none

theorem classify?_eq {p : FilePath} {name : String} (named : p.fileName? = some name) :
    ∃ isAmongResources, classify? p = ofName? isAmongResources name := by
  refine ⟨((p.parent?.bind (·.parent?)).bind (·.fileName?)) == some "res", ?_⟩
  rw [classify?, FilePath.fileName, FilePath.extension?, named, Option.getD_some, Option.bind_some,
    ofName?, ofMarkup?, FilePath.fileName, named]
  rfl

theorem exists_name_of_classify? {p : FilePath} {kind : FileKind}
    (classified : classify? p = some kind) : ∃ name, p.fileName? = some name := by
  cases named : p.fileName? with
  | some name => exact ⟨name, rfl⟩
  | none =>
      rw [classify?, FilePath.fileName, FilePath.extension?, named] at classified
      cases classified

/-- What is found elsewhere is found among resources too. -/
theorem ofName?_true {b : Bool} {name : String} {kind : FileKind}
    (found : ofName? b name = some kind) : ofName? true name = some kind := by
  cases b with
  | true => exact found
  | false =>
      rw [ofName?] at found ⊢
      split at found
      case isTrue script => rw [if_pos script, found]
      case isFalse script =>
        rw [if_neg script]
        split at found
        case h_3 =>
          split at found
          case isTrue manifest => rw [if_pos manifest, found]
          case isFalse => cases found
        all_goals exact found

/-- Files of one name are of one kind, if of any. -/
theorem eq_of_fileName?_eq {p q : FilePath} {name : String} {kind kind' : FileKind}
    (hp : p.fileName? = some name) (hq : q.fileName? = some name)
    (one : classify? p = some kind) (other : classify? q = some kind') : kind = kind' := by
  obtain ⟨b, hb⟩ := classify?_eq hp
  obtain ⟨b', hb'⟩ := classify?_eq hq
  have one := ofName?_true (hb ▸ one)
  have other := ofName?_true (hb' ▸ other)
  exact Option.some.inj (one.symm.trans other)

end FileKind

namespace Project

open Storage (Trail follow)

/-! ## Alike -/

/-- `IsBroken name text?`: at some path that ends in the name, a file is of
a kind that is checked, and what this file holds cannot be parsed as that
kind. -/
def IsBroken (name : String) (text? : Option String) : Prop :=
  ∃ path kind, path.fileName? = some name ∧ FileKind.classify? path = some kind ∧
    kind.isChecked = true ∧ ∀ text ∈ text?, (ParsedFile.read kind path text).toOption = none

mutual

/-- `Alike name i i'`: two items with a name hold the same up to what is in
files that are broken in both. -/
inductive Alike : String → Item → Item → Prop
  | file {name : String} {text? : Option String} : Alike name (.file text?) (.file text?)
  | broken {name : String} {text? text'? : Option String} (one : IsBroken name text?)
      (other : IsBroken name text'?) : Alike name (.file text?) (.file text'?)
  | folder {name : String} {is is' : List (String × Item)} (inside : AllAlike is is') :
      Alike name (.folder is) (.folder is')

/-- `AllAlike is is'`: the items have the same names, and those of one name
are alike. -/
inductive AllAlike : List (String × Item) → List (String × Item) → Prop
  | nil : AllAlike [] []
  | cons {name : String} {i i' : Item} {is is' : List (String × Item)} (first : Alike name i i')
      (others : AllAlike is is') : AllAlike ((name, i) :: is) ((name, i') :: is')

end

theorem Alike.isFolder {name : String} {i i' : Item} (alike : Alike name i i') :
    i'.isFolder = i.isFolder := by
  cases alike <;> rfl

/-- What has a name among items is alike, if anything has. -/
theorem AllAlike.lookup {is is' : List (String × Item)} (alike : AllAlike is is')
    (name : String) :
    (is.lookup name = none ∧ is'.lookup name = none) ∨
      ∃ i i', is.lookup name = some i ∧ is'.lookup name = some i' ∧ Alike name i i' := by
  induction is generalizing is' with
  | nil =>
      cases alike
      exact .inl ⟨rfl, rfl⟩
  | cons entry is ih =>
      cases alike with
      | @cons n i i' _ is' first others =>
          rw [List.lookup_cons, List.lookup_cons]
          cases here : name == n with
          | true =>
              obtain rfl := beq_iff_eq.mp here
              exact .inr ⟨i, i', rfl, rfl, first⟩
          | false => exact ih others

/-! ## Following a path -/

/-- `SameWay r r'`: two ways lead to trails that are alike, or fail alike. -/
inductive SameWay : Except ReadFault Trail → Except ReadFault Trail → Prop
  | lost (e : ReadFault) : SameWay (.error e) (.error e)
  | led {t t' : Trail} (alike : AllAlike t t') : SameWay (.ok t) (.ok t')

theorem SameWay.eq {r r' : Except ReadFault Trail} (way : SameWay r r') :
    (∃ e, r = .error e ∧ r' = .error e) ∨ ∃ t t', r = .ok t ∧ r' = .ok t' ∧ AllAlike t t' := by
  cases way with
  | lost e => exact .inl ⟨e, rfl, rfl⟩
  | led alike => exact .inr ⟨_, _, rfl, rfl, alike⟩

theorem sameWay_follow {t t' : Trail} (alike : AllAlike t t') (steps : List String) :
    SameWay (follow t steps) (follow t' steps) := by
  induction steps generalizing t t' with
  | nil =>
      rw [follow, follow]
      exact .led alike
  | cons step steps ih =>
      cases alike with
      | nil => exact .lost .missing
      | cons first others =>
          cases first with
          | file => exact .lost .notAFolder
          | broken => exact .lost .notAFolder
          | folder inside =>
              rw [follow, follow]
              split
              · exact ih (.cons (.folder inside) others)
              · split
                · exact ih others
                · obtain ⟨none, none'⟩ | ⟨i, i', found, found', alike⟩ := inside.lookup step
                  · rw [none, none']
                    exact .lost .missing
                  · rw [found, found']
                    exact ih (.cons alike (.cons (.folder inside) others))

section Storages

variable {s s' : Storage} (alike : AllAlike s s')

include alike

theorem sameWay_trail? (p : FilePath) : SameWay (s.trail? p) (s'.trail? p) := by
  rw [Storage.trail?, Storage.trail?]
  split
  · exact .lost .missing
  · exact sameWay_follow (.cons (.folder alike) .nil) _

/-- There is something at the same paths. -/
theorem has_alike (p : FilePath) : s'.has p = s.has p := by
  rw [Storage.has, Storage.item?, Storage.has, Storage.item?]
  obtain ⟨e, lost, lost'⟩ | ⟨t, t', led, led', trails⟩ := (sameWay_trail? alike p).eq
  · rw [lost, lost']
  · rw [led, led']
    cases trails <;> rfl

end Storages

/-! ## Files that are found -/

theorem not_isBroken_of_ofName? {name : String} (unkind : ∀ b, FileKind.ofName? b name = none)
    (text? : Option String) : ¬ IsBroken name text? := by
  rintro ⟨path, kind, named, classified, -⟩
  obtain ⟨b, kindOf⟩ := FileKind.classify?_eq named
  rw [kindOf, unkind b] at classified
  cases classified

/-- The lists that keep files out are files of no kind. -/
theorem ofName?_list : ∀ name ∈ [".ignore", ".gitignore"], ∀ b, FileKind.ofName? b name = none := by
  decide

theorem Alike.textOf? {name list : String} {i i' : Item} (alike : Alike name i i')
    (unkind : ∀ b, FileKind.ofName? b list = none) : i'.textOf? list = i.textOf? list := by
  cases alike with
  | file => rfl
  | broken => rfl
  | folder inside =>
      rw [Item.textOf?, Item.textOf?, Item.items, Item.items]
      obtain ⟨none, none'⟩ | ⟨j, j', found, found', alike⟩ := inside.lookup list
      · rw [none, none']
      · rw [found, found']
        cases alike with
        | file => rfl
        | broken one => exact absurd one (not_isBroken_of_ofName? unkind _)
        | folder => rfl

theorem FolderRules.of_alike {name : String} {i i' : Item} (alike : Alike name i i')
    (path : String) : FolderRules.of path i' = FolderRules.of path i := by
  have first := alike.textOf? (ofName?_list ".ignore" (by decide))
  have second := alike.textOf? (ofName?_list ".gitignore" (by decide))
  simp only [FolderRules.of, first, second]

section Found

variable (excluded : IgnoreRules)

mutual

theorem filesBelow_alike (path : FilePath) : (name : String) → (i i' : Item) → Alike name i i' →
    filesBelow excluded path i' = filesBelow excluded path i
  | _, .file _, _, alike => by
      cases alike <;> rfl
  | _, .folder is, _, alike => by
      cases alike with
      | folder inside => rw [filesBelow, filesBelow, filesIn_alike path is _ inside]

theorem filesIn_alike (folder : FilePath) : (is is' : List (String × Item)) → AllAlike is is' →
    filesIn excluded folder is' = filesIn excluded folder is
  | [], _, alike => by
      cases alike
      rfl
  | (name, i) :: is, _, alike => by
      cases alike with
      | cons first others =>
          rw [filesIn, filesIn, filesBelow_alike (folder.join name) name i _ first,
            filesIn_alike folder is _ others]

end

mutual

theorem visited_alike (around : Surrounding) (path : FilePath) (steps : List String) :
    (name : String) → (i i' : Item) → Alike name i i' →
      visited excluded around path steps i' = visited excluded around path steps i
  | _, .file _, _, alike => by
      cases alike <;> rfl
  | _, .folder is, _, alike => by
      have rules := FolderRules.of_alike alike path.text
      cases alike with
      | folder inside => rw [visited, visited, rules, visitedIn_alike _ path steps is _ inside]

theorem visitedIn_alike (around : Surrounding) (folder : FilePath) (steps : List String) :
    (is is' : List (String × Item)) → AllAlike is is' →
      visitedIn excluded around folder steps is' = visitedIn excluded around folder steps is
  | [], _, alike => by
      cases alike
      rfl
  | (name, i) :: is, _, alike => by
      cases alike with
      | cons first others =>
          rw [visitedIn, visitedIn, first.isFolder, visitedIn_alike around folder steps is _ others,
            visited_alike around (folder.join name) (steps ++ [name]) name i _ first]

end

theorem listsAbove_alike {t t' : Trail} (alike : AllAlike t t') (way : List String) :
    listsAbove way t' = listsAbove way t := by
  induction t generalizing t' way with
  | nil =>
      cases alike
      rfl
  | cons entry t ih =>
      cases alike with
      | cons first others =>
          rw [listsAbove, listsAbove, FolderRules.of_alike first, ih others]

theorem ofTrail_alike {t t' : Trail} (alike : AllAlike t t') :
    Surrounding.ofTrail t' = Surrounding.ofTrail t := by
  cases alike with
  | nil => rfl
  | cons first others =>
      cases first with
      | file => rfl
      | broken => rfl
      | folder => rw [Surrounding.ofTrail, Surrounding.ofTrail, listsAbove_alike others]

theorem filesOfTarget_alike (p : Scope) {t t' : Trail} (alike : AllAlike t t')
    (target : FilePath) :
    filesOfTarget p excluded t' target = filesOfTarget p excluded t target := by
  have around := ofTrail_alike alike
  cases alike with
  | nil => rfl
  | cons first others =>
      rw [filesOfTarget, filesOfTarget, around, filesBelow_alike excluded target _ _ _ first,
        visited_alike excluded _ target [] _ _ _ first]

section Storages

variable {s s' : Storage} (alike : AllAlike s s') (p : Scope)

include alike

theorem filesOfTargets_alike (targets : List FilePath) :
    filesOfTargets s' p excluded targets = filesOfTargets s p excluded targets := by
  induction targets with
  | nil => rfl
  | cons target targets ih =>
      rw [filesOfTargets, filesOfTargets]
      obtain ⟨e, lost, lost'⟩ | ⟨t, t', led, led', trails⟩ := (sameWay_trail? alike target).eq
      · rw [lost, lost']
      · rw [led, led', ih]
        simp only [filesOfTarget_alike excluded p trails]

omit excluded in
/-- The same files are found. -/
theorem discover_alike (root : FilePath) : discover s' p root = discover s p root := by
  rw [discover, discover, has_alike alike]
  simp only [filesOfTargets_alike _ alike]

end Storages

end Found

end Project

end AndroidLint
