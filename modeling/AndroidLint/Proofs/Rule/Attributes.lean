/-
Attributes — which attributes of resource files are reported.

Whether a color should have come from the theme depends on where the file
lies, on what stands around the attribute and on which files there are beside
the file.  The rule asks for these one after the other and stops as soon as it
can; written out it is a table of four rows (`Misplaced`).

A value is taken for a size if it ends in a unit of length, whatever stands in
front of that.  So a reference is reported if the name of what it refers to
happens to end in the letters of a unit.
-/
import AndroidLint.Proofs.Markup.Ancestry
import AndroidLint.Proofs.Resource.Folder
import AndroidLint.Rule.Resources
import AndroidLint.Symbol.Index

namespace AndroidLint

namespace Rule

open Markup (Document Attribute)
open Resource (FolderType LiesIn IsMissing FirstVersion)

theorem reportIf_eq_finding_iff {info : Info} {fires : Bool} {location : Location}
    {message : String} {fix : Option Fix} :
    info.reportIf fires location message fix = .ok (some (info.finding location message fix)) ↔
      fires = true := by
  cases fires with
  | true => exact ⟨fun _ => rfl, fun _ => rfl⟩
  | false => exact ⟨nofun, nofun⟩

theorem reportIf_eq_pass_iff {info : Info} {fires : Bool} {location : Location}
    {message : String} {fix : Option Fix} :
    info.reportIf fires location message fix = pass ↔ ¬ fires = true := by
  cases fires with
  | true => exact ⟨nofun, fun h => absurd rfl h⟩
  | false => exact ⟨fun _ => nofun, fun _ => rfl⟩

section Folders

variable {x : Context} {d : Document} {type : FolderType}

theorem isIn_iff (around : x.surroundings = .resource d) :
    x.isIn type = true ↔ ∃ qs, LiesIn d.path type.name qs := by
  rw [Context.isIn, Context.resource?, around]
  simp only [beq_iff_eq, Resource.folderType?_eq_some_iff]

end Folders

/-! ## Colors -/

/-- Whether an element stands in a vector, or is one. -/
def InVector (d : Document) (index : Nat) : Prop :=
  ∃ j e, d.Within index j ∧ d.element? j = some e ∧ e.tag = "vector"

/-- `Misplaced x d index value`: what the value refers to is out of place in
the element. -/
inductive Misplaced (x : Context) (d : Document) (index : Nat) : String → Prop where
  /-- A color without a selector, in a layout. -/
  | layout {color : String} {qs : List String} (folder : LiesIn d.path "layout" qs)
      (unselected : IsMissing x.presence d.path "color" (color ++ ".xml")) :
      Misplaced x d index ("@color/" ++ color)
  /-- Any color, in a vector. -/
  | vector {color type : String} {qs : List String} (folder : LiesIn d.path type qs)
      (drawn : type ∈ ["layout", "drawable"]) (inside : InVector d index) :
      Misplaced x d index ("@color/" ++ color)
  /-- A color without a selector, in a drawable for all platforms of which
  there is no copy for Android 5.0. -/
  | drawable {color name : String} (folder : LiesIn d.path "drawable" [])
      (named : d.path.fileName? = some name)
      (uncopied : IsMissing x.presence d.path "drawable-v21" name)
      (unselected : IsMissing x.presence d.path "color" (color ++ ".xml")) :
      Misplaced x d index ("@color/" ++ color)
  /-- An attribute of the theme, in a drawable that is no vector and may be
  drawn before Android 5.0. -/
  | theme {item : String} {qs : List String} (folder : LiesIn d.path "drawable" qs)
      (outside : ¬ InVector d index) (early : ∀ v, FirstVersion qs v → v < 21)
      (sdk : x.settings.minSdk < 21) : Misplaced x d index ("?" ++ item)

section Colors

variable {x : Context} {d : Document} {index : Nat} {name : String}

theorem isInVector_iff : isInVector d index = true ↔ InVector d index := by
  rw [isInVector, List.any_eq_true, InVector]
  simp only [Document.ancestorsOrSelf, List.mem_filterMap, Document.mem_outward, beq_iff_eq]
  constructor
  · rintro ⟨e, ⟨j, within, found⟩, tag⟩
    exact ⟨j, e, within, found, tag⟩
  · rintro ⟨j, e, within, found, tag⟩
    exact ⟨e, ⟨j, within, found⟩, tag⟩

/-- A reference to a color and one to the theme begin differently. -/
theorem color_ne_theme {color item : String} : "@color/" ++ color ≠ "?" ++ item := by
  intro same
  have first := congrArg (·.toList.head?) same
  simp at first

theorem Misplaced.folder {value : String} (misplaced : Misplaced x d index value) :
    ∃ type ∈ ["layout", "drawable"], ∃ qs, LiesIn d.path type qs := by
  cases misplaced with
  | layout folder => exact ⟨_, by decide, _, folder⟩
  | vector folder drawn => exact ⟨_, drawn, _, folder⟩
  | drawable folder => exact ⟨_, by decide, _, folder⟩
  | theme folder => exact ⟨_, by decide, _, folder⟩

variable (around : x.surroundings = .resource d) (named : d.path.fileName? = some name)
  (present : x.presence d.path = true)

include around in
theorem isIn_layout_or_drawable_iff :
    (x.isIn .layout || x.isIn .drawable) = true ↔
      ∃ type ∈ ["layout", "drawable"], ∃ qs, LiesIn d.path type qs := by
  rw [Bool.or_eq_true, isIn_iff around, isIn_iff around]
  simp [FolderType.name]

include around named present in
theorem colorReferenceFires_iff {color : String}
    (folder : ∃ type ∈ ["layout", "drawable"], ∃ qs, LiesIn d.path type qs) :
    colorReferenceFires x d.path d index color = true ↔
      Misplaced x d index ("@color/" ++ color) := by
  simp only [colorReferenceFires, Bool.or_eq_true, Bool.and_eq_true, Bool.not_eq_true',
    isIn_iff around, isInVector_iff]
  constructor
  · rintro ((⟨⟨qs, lies⟩, selector⟩ | inside) | ⟨⟨⟨qs, lies⟩, variant⟩, selector⟩)
    · exact .layout lies ((lies.isColorSelector_eq_false_iff (by decide)).mp selector)
    · obtain ⟨type, drawn, qs, lies⟩ := folder
      exact .vector lies drawn inside
    · obtain ⟨rfl, uncopied⟩ := (lies.hasLollipopVariant_eq_false_iff named present).mp variant
      exact .drawable lies named uncopied
        ((lies.isColorSelector_eq_false_iff (by decide)).mp selector)
  · intro misplaced
    -- the rows fix the form of the value, so it has to be general in them
    generalize hvalue : "@color/" ++ color = value at misplaced
    cases misplaced with
    | layout lies unselected =>
        obtain rfl := String.append_right_inj _ |>.mp hvalue
        exact .inl (.inl ⟨⟨_, lies⟩, (lies.isColorSelector_eq_false_iff (by decide)).mpr unselected⟩)
    | vector _ _ inside => exact .inl (.inr inside)
    | drawable lies named' uncopied unselected =>
        obtain rfl := String.append_right_inj _ |>.mp hvalue
        have drawn : LiesIn d.path FolderType.drawable.name [] := lies
        exact .inr ⟨⟨⟨_, lies⟩,
          (drawn.hasLollipopVariant_eq_false_iff named' present).mpr ⟨rfl, uncopied⟩⟩,
          (lies.isColorSelector_eq_false_iff (by decide)).mpr unselected⟩
    | theme => exact absurd hvalue color_ne_theme

include around in
theorem themeReferenceFires_iff {item : String} :
    themeReferenceFires x d.path d index = true ↔ Misplaced x d index ("?" ++ item) := by
  simp only [themeReferenceFires, Bool.and_eq_true, Bool.not_eq_true', ← Bool.not_eq_true,
    isIn_iff around, isInVector_iff, decide_eq_true_eq]
  constructor
  · rintro ⟨⟨⟨⟨qs, lies⟩, outside⟩, early⟩, sdk⟩
    rw [Bool.not_eq_true, lies.isLollipopOnly_eq_false_iff] at early
    exact .theme lies outside early sdk
  · intro misplaced
    generalize hvalue : "?" ++ item = value at misplaced
    cases misplaced with
    | layout | vector | drawable => exact absurd hvalue.symm color_ne_theme
    | theme lies outside early sdk =>
        rw [Bool.not_eq_true, lies.isLollipopOnly_eq_false_iff]
        exact ⟨⟨⟨⟨_, lies⟩, outside⟩, early⟩, sdk⟩

include around named present in
theorem colorFires_iff {a : Attribute} :
    colorFires x d.path d index a = true ↔
      a.name ∈ colorAttributes ∧ Misplaced x d index a.value := by
  rw [colorFires, Bool.and_eq_true, Bool.and_eq_true, isIn_layout_or_drawable_iff around,
    List.contains_iff_mem]
  constructor
  · rintro ⟨⟨folder, listed⟩, fires⟩
    refine ⟨listed, ?_⟩
    split at fires
    case h_1 color begins =>
      rw [Text.afterStart?_eq_some_iff.mp begins]
      exact (colorReferenceFires_iff around named present folder).mp fires
    case h_2 =>
      obtain ⟨begins, fires⟩ := Bool.and_eq_true_iff.mp fires
      obtain ⟨item, begins⟩ := Text.startsWith_iff.mp begins
      rw [begins]
      exact (themeReferenceFires_iff around).mp fires
  · rintro ⟨listed, misplaced⟩
    refine ⟨⟨misplaced.folder, listed⟩, ?_⟩
    split
    case h_1 color begins =>
      rw [Text.afterStart?_eq_some_iff.mp begins] at misplaced
      exact (colorReferenceFires_iff around named present misplaced.folder).mpr misplaced
    case h_2 other =>
      have theme : ∃ item, a.value = "?" ++ item := by
        generalize hvalue : a.value = value at misplaced
        cases misplaced with
        | layout | vector | drawable =>
            rw [Text.afterStart?_eq_some_iff.mpr hvalue] at other
            cases other
        | theme => exact ⟨_, rfl⟩
      obtain ⟨item, begins⟩ := theme
      rw [begins] at misplaced ⊢
      rw [Bool.and_eq_true, Text.startsWith_iff, themeReferenceFires_iff around]
      exact ⟨⟨item, rfl⟩, misplaced⟩

end Colors

/-- **Colors are judged by a table.**  In a resource file that has a name and is
there, an attribute is reported exactly if it is one for a color and what it
refers to is out of place.  The finding is at the attribute, and if there is
none, there is no failure either. -/
theorem judge_color_iff {x : Context} {d : Document} {name : String}
    (around : x.surroundings = .resource d) (named : d.path.fileName? = some name)
    (present : x.presence d.path = true) (index : Nat) (a : Attribute) :
    let found := colorInfo.finding a.location (Text.oneLine colorExplanation) none
    (colorResourceUsage.judge x (.attribute d index a) = .ok (some found) ↔
        a.name ∈ colorAttributes ∧ Misplaced x d index a.value) ∧
      (colorResourceUsage.judge x (.attribute d index a) = pass ↔
        ¬ (a.name ∈ colorAttributes ∧ Misplaced x d index a.value)) := by
  have judged : colorResourceUsage.judge x (.attribute d index a) =
      colorInfo.reportIf (colorFires x d.path d index a) a.location
        (Text.oneLine colorExplanation) none := by
    simp only [colorResourceUsage, Context.resource?, around]
  rw [judged, ← colorFires_iff around named present]
  exact ⟨reportIf_eq_finding_iff, reportIf_eq_pass_iff⟩

/-- A resource file of one element with one attribute. -/
def singleDocument (path : FilePath) (tag name value : String) : Document :=
  (Document.empty path).push ⟨tag, [⟨name, value, .top path⟩], none, [], .top path⟩ none

/-- What rules may consult about a resource file that is all there is of its
project. -/
def contextAround (d : Document) : Context :=
  ⟨.default, (Symbol.Index.build []).resolver, (· == d.path), .resource d⟩

/-- A color in a drawable for all platforms, with neither a selector nor a
copy. -/
theorem judge_color_shape :
    let d := singleDocument ⟨"res/drawable/shape.xml"⟩ "shape" "android:color" "@color/red"
    let a : Attribute := ⟨"android:color", "@color/red", .top d.path⟩
    d.path.fileName? = some "shape.xml" ∧ (contextAround d).presence d.path = true ∧
      colorResourceUsage.judge (contextAround d) (.attribute d 0 a) =
        .ok (some (colorInfo.finding a.location (Text.oneLine colorExplanation) none)) := by
  intro d a
  have named : d.path.fileName? = some "shape.xml" := by decide +kernel
  have present : (contextAround d).presence d.path = true := beq_self_eq_true _
  have missing {folder name : String} {p : FilePath}
      (lies : ((⟨"res"⟩ : FilePath).join folder).join name = p) (other : (p == d.path) = false) :
      IsMissing (contextAround d).presence d.path folder name :=
    ⟨p, ⟨⟨"res/drawable"⟩, ⟨"res"⟩, by decide +kernel, by decide +kernel, lies.symm⟩, other⟩
  have misplaced : Misplaced (contextAround d) d 0 ("@color/" ++ "red") :=
    .drawable ⟨by decide +kernel, by decide⟩ named (missing rfl (by decide +kernel))
      (missing rfl (by decide +kernel))
  exact ⟨named, present,
    (judge_color_iff rfl named present 0 a).1.mpr ⟨by decide, misplaced⟩⟩

/-! ## Sizes -/

/-- `TakenForSize d value`: the value is one line whose last part, behind any
slash, ends in a unit of length, in a file in which sizes are looked for. -/
structure TakenForSize (d : Document) (value : String) : Prop where
  folder : ∃ type ∈ ["anim", "drawable", "layout"], ∃ qs, LiesIn d.path type qs
  drawn : ∀ tag, d.rootTag? = some tag → tag ≠ "vector" ∧ tag ≠ "animated-vector"
  oneLine : '\n' ∉ value.toList
  ending : ∃ name, Text.IsLastSegment '/' value name ∧
    ∃ unit ∈ ["dp", "sp", "px", "dip"], ∃ front, name = front ++ unit

section Sizes

variable {x : Context} {d : Document} {value : String}

theorem isVectorDocument_eq_false_iff : isVectorDocument d = false ↔
    ∀ tag, d.rootTag? = some tag → tag ≠ "vector" ∧ tag ≠ "animated-vector" := by
  rw [isVectorDocument]
  cases d.rootTag? with
  | none => simp
  | some tag => simp

theorem isDimension_iff : isDimension value = true ↔
    '\n' ∉ value.toList ∧ ∃ name, Text.IsLastSegment '/' value name ∧
      ∃ unit ∈ ["dp", "sp", "px", "dip"], ∃ front, name = front ++ unit := by
  rw [isDimension, Bool.and_eq_true, Bool.not_eq_true', ← Bool.not_eq_true, List.contains_iff_mem,
    List.any_eq_true]
  have apart : ∀ unit ∈ ["dp", "sp", "px", "dip"], '/' ∉ unit.toList := by decide
  refine and_congr_right fun _ => ⟨?_, ?_⟩
  · rintro ⟨unit, mem, ends⟩
    have last := Text.isLastSegment_afterLast '/' value
    exact ⟨_, last, unit, mem, (last.endsWith_iff (apart unit mem)).mp ends⟩
  · rintro ⟨name, last, unit, mem, ends⟩
    exact ⟨unit, mem, (last.endsWith_iff (apart unit mem)).mpr ends⟩

/-- A reference is no color that is written out, and it is not the size
zero. -/
theorem isHardcoded_reference {rest : String}
    (reference : value = "@" ++ rest ∨ value = "?" ++ rest) :
    isHardcoded d value = (!isVectorDocument d && isDimension value) := by
  have first : value.toList.head? = some '@' ∨ value.toList.head? = some '?' := by
    obtain rfl | rfl := reference
    · exact .inl (by simp)
    · exact .inr (by simp)
  have notColor : Text.startsWith value "#" = false := by
    rw [← Bool.not_eq_true, Text.startsWith_iff]
    rintro ⟨rest, rfl⟩
    simp at first
  have notZero : (value != "0dp") = true := by
    rw [bne_iff_ne]
    rintro rfl
    revert first
    decide
  rw [isHardcoded, notColor, notZero, Bool.false_or, Bool.and_true]

theorem isIn_sized_iff (around : x.surroundings = .resource d) :
    (x.isIn .anim || x.isIn .drawable || x.isIn .layout) = true ↔
      ∃ type ∈ ["anim", "drawable", "layout"], ∃ qs, LiesIn d.path type qs := by
  rw [Bool.or_eq_true, Bool.or_eq_true, isIn_iff around, isIn_iff around, isIn_iff around]
  simp [FolderType.name, or_assoc]

end Sizes

/-- **Which references are taken for sizes.**  An attribute that refers to a
resource or to the theme is reported as written out exactly if it is taken for
a size: for all that the reference says, the name of what it refers to ends in
the letters of a unit. -/
theorem judge_reference_iff {x : Context} {d : Document} {a : Attribute} {rest : String}
    (around : x.surroundings = .resource d)
    (reference : a.value = "@" ++ rest ∨ a.value = "?" ++ rest) (index : Nat) :
    let found := hardcodedInfo.finding a.location (Text.oneLine hardcodedExplanation) none
    (hardcodedValue.judge x (.attribute d index a) = .ok (some found) ↔ TakenForSize d a.value) ∧
      (hardcodedValue.judge x (.attribute d index a) = pass ↔ ¬ TakenForSize d a.value) := by
  have fires : ((x.isIn .anim || x.isIn .drawable || x.isIn .layout) && isHardcoded d a.value) = true
      ↔ TakenForSize d a.value := by
    rw [Bool.and_eq_true, isIn_sized_iff around, isHardcoded_reference reference, Bool.and_eq_true,
      Bool.not_eq_true', isVectorDocument_eq_false_iff, isDimension_iff]
    constructor
    · rintro ⟨folder, drawn, oneLine, ending⟩
      exact ⟨folder, drawn, oneLine, ending⟩
    · rintro ⟨folder, drawn, oneLine, ending⟩
      exact ⟨folder, drawn, oneLine, ending⟩
  rw [← fires]
  exact ⟨reportIf_eq_finding_iff, reportIf_eq_pass_iff⟩

/-- A reference to a padding whose name ends like a size, and one to a padding
whose name does not. -/
theorem judge_reference_padding :
    let sized := singleDocument ⟨"res/layout/a.xml"⟩ "View" "android:padding" "@dimen/pad_8dp"
    let plain := singleDocument ⟨"res/layout/a.xml"⟩ "View" "android:padding" "@dimen/pad"
    let a : Attribute := ⟨"android:padding", "@dimen/pad_8dp", .top sized.path⟩
    let b : Attribute := ⟨"android:padding", "@dimen/pad", .top plain.path⟩
    hardcodedValue.judge (contextAround sized) (.attribute sized 0 a) =
        .ok (some (hardcodedInfo.finding a.location (Text.oneLine hardcodedExplanation) none)) ∧
      hardcodedValue.judge (contextAround plain) (.attribute plain 0 b) = pass := by
  intro sized plain a b
  have taken : TakenForSize sized a.value :=
    { folder := ⟨"layout", by decide, [], by decide +kernel, by decide⟩
      drawn := by
        intro tag found
        obtain rfl : "View" = tag := Option.some.inj found
        decide
      oneLine := by decide
      ending := ⟨"pad_8dp", ⟨by decide, .inr ⟨"@dimen".toList, by decide⟩⟩, "dp", by decide,
        "pad_8", by decide⟩ }
  have notTaken : ¬ TakenForSize plain b.value := by
    rintro ⟨-, -, -, name, last, unit, mem, ends⟩
    have other : ∀ unit ∈ ["dp", "sp", "px", "dip"],
        '/' ∉ unit.toList ∧ Text.endsWith b.value unit = false := by
      decide
    obtain ⟨apart, no⟩ := other unit mem
    rw [(last.endsWith_iff apart).mpr ends] at no
    cases no
  have sizedReference : a.value = "@" ++ "dimen/pad_8dp" := by decide
  have plainReference : b.value = "@" ++ "dimen/pad" := by decide
  exact ⟨(judge_reference_iff rfl (.inl sizedReference) 0).1.mpr taken,
    (judge_reference_iff rfl (.inl plainReference) 0).2.mpr notTaken⟩

/-- A layout with a padding that is a reference. -/
def paddingText : String :=
  "<View android:padding=\"@dimen/space_16dp\"/>"

/-- The reference is reported as a value that is written out. -/
theorem reports_paddingText :
    (Markup.read ⟨"res/layout/a.xml"⟩ paddingText).toOption.map (fun d =>
        d.elements.toList.flatMap fun e => e.attributes.map fun a =>
          (a.value, ((hardcodedValue.judge (contextAround d) (.attribute d 0 a)).toOption.join).map
            (·.ruleId))) =
      some [("@dimen/space_16dp", some "HardcodedValueInXML")] := by
  decide +kernel

end Rule

end AndroidLint
