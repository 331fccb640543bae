/-
Folder — what the name of a resource folder says.

The name is a type and its qualifiers, with hyphens between (`LiesIn`).  It is
so in one way only, so the type and the qualifiers that are read from it are
those it is made of.

A file with a name lies in a folder, and a folder with a name in another one.
Where a file would lie in a folder beside that of the file can be said then
(`IsBeside`): the selector of a color does, and so does the copy of a drawable
for a later platform, as long as the drawable's folder has no qualifiers.  With
qualifiers, the file is looked up in place of its copy.
-/
import AndroidLint.Proofs.PathPieces
import AndroidLint.Proofs.Text.Parts
import AndroidLint.Resource

namespace AndroidLint

namespace Resource

/-! ## Types and qualifiers -/

/-- `LiesIn file type qualifiers`: the name of the file's folder is the type
and the qualifiers, with hyphens between. -/
structure LiesIn (file : FilePath) (type : String) (qualifiers : List String) : Prop where
  name : folderName file = "-".intercalate (type :: qualifiers)
  apart : ∀ part ∈ type :: qualifiers, '-' ∉ part.toList

/-- `IsVersion q v`: a qualifier such as `v21` gives the level `v`. -/
def IsVersion (q : String) (v : Nat) : Prop :=
  ∃ level, q = "v" ++ level ∧ Text.level? level = some v

/-- `FirstVersion qs v`: the first of the qualifiers that gives a level gives
`v`. -/
def FirstVersion (qs : List String) (v : Nat) : Prop :=
  ∃ before q after, qs = before ++ q :: after ∧ IsVersion q v ∧ ∀ r ∈ before, ∀ w, ¬ IsVersion r w

section Names

variable {file : FilePath} {type : String} {qs : List String}

theorem liesIn_iff :
    LiesIn file type qs ↔ Text.splitAll '-' (folderName file) = type :: qs := by
  rw [Text.splitAll_eq_iff]
  constructor
  · rintro ⟨name, apart⟩
    exact ⟨name, apart, List.cons_ne_nil _ _⟩
  · rintro ⟨name, apart, -⟩
    exact ⟨name, apart⟩

theorem LiesIn.beforeFirst (lies : LiesIn file type qs) :
    Text.beforeFirst '-' (folderName file) = type := by
  have first := Text.head?_splitAll '-' (folderName file)
  rw [liesIn_iff.mp lies] at first
  exact (Option.some.inj first).symm

/-- Every file lies in a folder of some type with some qualifiers. -/
theorem exists_liesIn (file : FilePath) :
    ∃ qs, LiesIn file (Text.beforeFirst '-' (folderName file)) qs := by
  obtain ⟨qs, pieces⟩ := List.head?_eq_some_iff.mp (Text.head?_splitAll '-' (folderName file))
  exact ⟨qs, liesIn_iff.mpr pieces⟩

theorem FolderType.ofFolder?_eq_some_iff {type : FolderType} {folder : String} :
    FolderType.ofFolder? folder = some type ↔ type.name = Text.beforeFirst '-' folder := by
  rw [FolderType.ofFolder?]
  constructor
  · intro found
    simpa using List.find?_some found
  · intro name
    rw [← name]
    cases type <;> decide

/-- A file is of a type if its folder has the name of the type, with any
qualifiers. -/
theorem folderType?_eq_some_iff {type : FolderType} :
    folderType? file = some type ↔ ∃ qs, LiesIn file type.name qs := by
  rw [folderType?, FolderType.ofFolder?_eq_some_iff]
  constructor
  · intro name
    rw [name]
    exact exists_liesIn file
  · rintro ⟨qs, lies⟩
    exact lies.beforeFirst.symm

theorem LiesIn.qualifiers (lies : LiesIn file type qs) : Resource.qualifiers file = qs := by
  rw [Resource.qualifiers, liesIn_iff.mp lies]
  rfl

theorem versionOf?_eq_some_iff {q : String} {v : Nat} :
    versionOf? q = some v ↔ IsVersion q v := by
  simp only [versionOf?, Option.bind_eq_some_iff, Text.afterStart?_eq_some_iff, IsVersion]

theorem LiesIn.platformVersion?_eq_some_iff (lies : LiesIn file type qs) {v : Nat} :
    platformVersion? file = some v ↔ FirstVersion qs v := by
  simp only [platformVersion?, lies.qualifiers, List.findSome?_eq_some_iff, FirstVersion,
    versionOf?_eq_some_iff, Option.eq_none_iff_forall_ne_some, Ne]

/-- Whether a folder is for later platforms only is settled by the first
qualifier that gives a level. -/
theorem LiesIn.isLollipopOnly_eq_false_iff (lies : LiesIn file type qs) :
    isLollipopOnly file = false ↔ ∀ v, FirstVersion qs v → v < lollipop := by
  simp only [← lies.platformVersion?_eq_some_iff]
  delta isLollipopOnly
  cases platformVersion? file with
  | none => simp
  | some v => simp

end Names

end Resource

/-! ## Parents -/

namespace FilePath

/-- The pieces of a path that ends in a name do not all count for nothing. -/
theorem trimEnd_body_ne_nil {p : FilePath} {name : String} (named : p.fileName? = some name) :
    trimEnd p.division.body ≠ [] := by
  intro empty
  rw [trimEnd, List.reverse_eq_nil_iff, List.dropWhile_eq_nil_iff] at empty
  have idle : p.division.body.filterMap component? = [] :=
    List.filterMap_eq_nil_iff.mpr fun piece mem =>
      Option.isNone_iff_eq_none.mp (empty piece (List.mem_reverse.mpr mem))
  rw [fileName?, components, idle, List.append_nil] at named
  have lead := p.lead_division
  split at named
  case h_1 last =>
    cases hlead : p.division.lead with
    | none => cases hlead ▸ last
    | some c =>
        rw [hlead] at last
        exact lead _ (hlead.trans last)
  case h_2 => cases named

/-- A path that ends in a name has a parent. -/
theorem exists_parent? {p : FilePath} {name : String} (named : p.fileName? = some name) :
    ∃ q, p.parent? = some q := by
  rw [parent?]
  split
  case h_1 => exact ⟨_, rfl⟩
  case h_2 empty _ => exact absurd empty (trimEnd_body_ne_nil named)
  case h_3 => exact ⟨_, rfl⟩

end FilePath

namespace Resource

/-! ## Files beside a file -/

/-- `IsBeside file folder name p`: in the folder that stands beside the file's
own, a file with the name lies at `p`. -/
def IsBeside (file : FilePath) (folder name : String) (p : FilePath) : Prop :=
  ∃ own res, file.parent? = some own ∧ own.parent? = some res ∧ p = (res.join folder).join name

/-- `IsMissing presence file folder name`: there is no such file. -/
def IsMissing (presence : Presence) (file : FilePath) (folder name : String) : Prop :=
  ∃ p, IsBeside file folder name p ∧ presence p = false

section Beside

variable {file : FilePath} {type : String} {qs : List String} {presence : Presence}

/-- A folder with a type has a place, and stands somewhere. -/
theorem LiesIn.exists_parents (lies : LiesIn file type qs) (typed : type ≠ "") :
    ∃ own res, file.parent? = some own ∧ own.fileName? = some (folderName file) ∧
      own.parent? = some res := by
  have named : folderName file ≠ "" := by
    intro empty
    exact typed (lies.beforeFirst.symm.trans (by rw [empty]; rfl))
  rw [folderName] at named ⊢
  cases hown : file.parent? with
  | none => exact absurd (by rw [hown]; rfl) named
  | some own =>
      rw [hown, Option.bind_some] at named
      rw [Option.bind_some]
      cases hname : own.fileName? with
      | none => exact absurd (by rw [hname]; rfl) named
      | some name =>
          obtain ⟨res, hres⟩ := FilePath.exists_parent? hname
          exact ⟨own, res, rfl, hname, hres⟩

theorem isMissing_iff {own res : FilePath} (hown : file.parent? = some own)
    (hres : own.parent? = some res) {folder name : String} :
    IsMissing presence file folder name ↔ presence ((res.join folder).join name) = false := by
  constructor
  · rintro ⟨p, ⟨own', res', hown', hres', rfl⟩, missing⟩
    obtain rfl : own = own' := Option.some.inj (hown.symm.trans hown')
    obtain rfl : res = res' := Option.some.inj (hres.symm.trans hres')
    exact missing
  · exact fun missing => ⟨_, ⟨own, res, hown, hres, rfl⟩, missing⟩

/-- A color has no selector exactly if the file for it is missing. -/
theorem LiesIn.isColorSelector_eq_false_iff (lies : LiesIn file type qs) (typed : type ≠ "")
    {color : String} :
    isColorSelector file presence color = false ↔
      IsMissing presence file "color" (color ++ ".xml") := by
  obtain ⟨own, res, hown, -, hres⟩ := lies.exists_parents typed
  rw [isMissing_iff hown hres]
  delta isColorSelector
  rw [colorSelector?, hown, Option.bind_some, hres]
  rfl

theorem LiesIn.folderName_eq_type_iff (lies : LiesIn file type qs) :
    folderName file = type ↔ qs = [] := by
  constructor
  · intro name
    have bare : LiesIn file type [] :=
      ⟨by rw [name, String.intercalate_singleton], fun part mem =>
        lies.apart part (List.mem_singleton.mp mem ▸ List.mem_cons_self)⟩
    rw [← lies.qualifiers, bare.qualifiers]
  · rintro rfl
    rw [lies.name, String.intercalate_singleton]

/-- Of a file that is there, a copy for Android 5.0 is missing exactly if its
folder has no qualifiers and no such file lies beside it. -/
theorem LiesIn.hasLollipopVariant_eq_false_iff {type : FolderType} {name : String}
    (lies : LiesIn file type.name qs) (named : file.fileName? = some name)
    (present : presence file = true) :
    hasLollipopVariant file presence = false ↔
      qs = [] ∧ IsMissing presence file (type.name ++ "-v21") name := by
  obtain ⟨own, res, hown, hname, hres⟩ := lies.exists_parents (by cases type <;> decide)
  rw [isMissing_iff hown hres]
  -- not by its equation: to make that, the table of folder types is evaluated
  delta hasLollipopVariant
  rw [folderType?_eq_some_iff.mpr ⟨qs, lies⟩]
  simp only [qualifiedVariant, hown, Option.bind_some, hname, hres, named, beq_iff_eq,
    lies.folderName_eq_type_iff]
  split
  case isTrue bare => simp [bare]
  case isFalse qualified => simp [qualified, present]

end Beside

end Resource

end AndroidLint
