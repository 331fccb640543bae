/-
Ancestry — the elements of a document are a forest.

A document says twice how its elements hang together: each element names its
parent, and each lists its children.  `Built es d` says that `d` was made from
nothing by adding the elements `es`, each under none or under one that was there;
`IsForest` is what adding an element keeps (`IsForest.push`), so it holds of all
that is built.  The two ways then agree, and a parent stands before its
children.

`Climbs` follows parents wherever they point to.  In a forest the indexes
become smaller on the way, so the way ends, and it is the one that the
document's own walk outwards takes (`climbs_iff`).
-/
import AndroidLint.Proofs.Except
import AndroidLint.Proofs.Markup.Opening

namespace AndroidLint

namespace Markup

namespace Document

/-! ## Ways outwards -/

/-- `d.Within i j`: going outwards from the element `i`, from one to its parent
before it, leads to the element `j`. -/
inductive Within (d : Document) : Nat → Nat → Prop where
  | self {i : Nat} : Within d i i
  | parent {i p j : Nat} {e : Element} (found : d.element? i = some e) (parent : e.parent = some p)
      (before : p < i) (outer : Within d p j) : Within d i j

/-- `d.Climbs i is`: going from the element `i` to its parent, and on from there
until there is none, leads through the elements `is`. -/
inductive Climbs (d : Document) : Nat → List Nat → Prop where
  | top {i : Nat} {e : Element} (found : d.element? i = some e) (alone : e.parent = none) :
      Climbs d i [i]
  | up {i p : Nat} {e : Element} {is : List Nat} (found : d.element? i = some e)
      (parent : e.parent = some p) (outer : Climbs d p is) : Climbs d i (i :: is)

theorem parentBefore?_eq_some_iff {d : Document} {i : Nat} {q : { p : Nat // p < i }} :
    d.parentBefore? i = some q ↔ ∃ e, d.element? i = some e ∧ e.parent = some q.1 := by
  rw [parentBefore?]
  cases hparent : (d.element? i).bind (·.parent) with
  | none =>
      refine ⟨nofun, fun ⟨e, found, parent⟩ => ?_⟩
      rw [found, Option.bind_some, parent] at hparent
      cases hparent
  | some p =>
      rw [← Option.bind_eq_some_iff, hparent]
      by_cases before : p < i
      · simp [before, Subtype.ext_iff]
      · have := q.2
        simp only [before, dif_neg, not_false_eq_true]
        refine ⟨nofun, fun same => ?_⟩
        have := Option.some.inj same
        omega

theorem mem_outward {d : Document} {i j : Nat} : j ∈ d.outward i ↔ d.Within i j := by
  constructor
  · intro mem
    fun_induction Document.outward d i with
    | case1 i p before found ih =>
        obtain ⟨e, found, parent⟩ := parentBefore?_eq_some_iff.mp found
        obtain rfl | mem := List.mem_cons.mp mem
        · exact .self
        · exact .parent found parent before (ih mem)
    | case2 i =>
        obtain rfl := List.mem_singleton.mp mem
        exact .self
  · intro within
    induction within with
    | @self i =>
        rw [outward]
        split <;> exact List.mem_cons_self
    | @parent i p j e found parent before _ ih =>
        rw [outward, parentBefore?_eq_some_iff (q := ⟨p, before⟩) |>.mpr ⟨e, found, parent⟩]
        exact List.mem_cons_of_mem i ih

section Climbing

variable {d : Document} {i : Nat} {is js : List Nat}

theorem Climbs.unique (first : d.Climbs i is) (second : d.Climbs i js) : is = js := by
  induction first generalizing js with
  | top found alone =>
      cases second with
      | top => rfl
      | up found' parent =>
          obtain rfl := Option.some.inj (found.symm.trans found')
          rw [alone] at parent
          cases parent
  | up found parent _ ih =>
      cases second with
      | top found' alone =>
          obtain rfl := Option.some.inj (found.symm.trans found')
          rw [alone] at parent
          cases parent
      | up found' parent' outer =>
          obtain rfl := Option.some.inj (found.symm.trans found')
          obtain rfl := Option.some.inj (parent.symm.trans parent')
          rw [ih outer]

/-- A way ends at an element without a parent. -/
theorem Climbs.exists_top (climbs : d.Climbs i is) :
    ∃ last e, is.getLast? = some last ∧ d.element? last = some e ∧ e.parent = none := by
  induction climbs with
  | top found alone => exact ⟨_, _, rfl, found, alone⟩
  | up found parent outer ih =>
      obtain ⟨last, e, hlast, top⟩ := ih
      exact ⟨last, e, by rw [List.getLast?_cons, hlast, Option.getD_some], top⟩

end Climbing

/-! ## Forests -/

/-- The element `i` has the element `p` for its parent. -/
def IsUnder (d : Document) (i p : Nat) : Prop :=
  ∃ e, d.element? i = some e ∧ e.parent = some p

/-- `Built es d`: `d` was made by adding the elements `es` one after the other,
each under none or under one that was there. -/
inductive Built : List Element → Document → Prop where
  | empty {path : FilePath} : Built [] (.empty path)
  | push {es : List Element} {d : Document} {parent : Option Nat} (built : Built es d)
      (e : Element) (known : ∀ p ∈ parent, p < d.elements.size) : Built (es ++ [e]) (d.push e parent)

/-- In the document of the elements `es`, the element `e` at `i` lists the
children it came with, and behind them in order the elements that have it for
their parent. -/
def ListsChildren (es : List Element) (d : Document) (i : Nat) (e : Element) : Prop :=
  ∃ own under, es[i]? = some own ∧ e.children = own.children ++ under ∧
    under.Pairwise (· < ·) ∧ ∀ j, j ∈ under ↔ d.IsUnder j i

/-- `IsForest es d`: the document of the elements `es` says the same in both
ways, and a parent stands before its children. -/
structure IsForest (es : List Element) (d : Document) : Prop where
  size : d.elements.size = es.length
  before : ∀ {i p : Nat}, d.IsUnder i p → p < i
  children : ∀ {i : Nat} {e : Element}, d.element? i = some e → ListsChildren es d i e

section Forests

variable {d : Document} {es : List Element} {i : Nat}

theorem element?_eq_some_lt {e : Element} (found : d.element? i = some e) : i < d.elements.size :=
  (Array.getElem?_eq_some_iff.mp found).1

theorem IsUnder.lt {p : Nat} (under : d.IsUnder i p) : i < d.elements.size :=
  let ⟨_, found, _⟩ := under
  element?_eq_some_lt found

@[simp]
theorem size_push (d : Document) (e : Element) (parent : Option Nat) :
    (d.push e parent).elements.size = d.elements.size + 1 := by
  cases parent <;> simp [push]

theorem element?_push_size (d : Document) (e : Element) (parent : Option Nat) :
    (d.push e parent).element? d.elements.size = some { e with parent } := by
  cases parent with
  | none => rw [push, element?, Array.getElem?_push, if_pos rfl]
  | some p => rw [push, element?, Array.getElem?_push, Array.size_modify, if_pos rfl]

/-- Of the elements that are there, adding one changes only its parent, which gets
one more child. -/
theorem element?_push_of_lt (e : Element) (parent : Option Nat) (there : i < d.elements.size) :
    (d.push e parent).element? i =
      (d.element? i).map fun f => if parent = some i then adopt d.elements.size f else f := by
  cases parent with
  | none =>
      rw [push, element?, Array.getElem?_push, if_neg there.ne]
      simp [element?]
  | some p =>
      rw [push, element?, Array.getElem?_push, Array.size_modify, if_neg there.ne,
        Array.getElem?_modify, element?]
      by_cases hp : p = i <;> simp [hp]

theorem isUnder_push_iff {e : Element} {parent : Option Nat} {j p : Nat} :
    (d.push e parent).IsUnder j p ↔
      d.IsUnder j p ∨ j = d.elements.size ∧ parent = some p := by
  by_cases there : j < d.elements.size
  · have hparent : ∀ f : Element,
        (if parent = some j then adopt d.elements.size f else f).parent = f.parent := by
      intro f
      split <;> rfl
    simp only [IsUnder, element?_push_of_lt e parent there, Option.map_eq_some_iff]
    constructor
    · rintro ⟨-, ⟨f, found, rfl⟩, under⟩
      exact .inl ⟨f, found, (hparent f).symm.trans under⟩
    · rintro (⟨f, found, under⟩ | ⟨rfl, -⟩)
      · exact ⟨_, ⟨f, found, rfl⟩, (hparent f).trans under⟩
      · exact absurd there (Nat.lt_irrefl _)
  · rw [or_iff_right (mt IsUnder.lt there)]
    constructor
    · intro under
      obtain rfl : j = d.elements.size := by
        have := under.lt
        rw [size_push] at this
        omega
      obtain ⟨f, found, parent⟩ := under
      rw [element?_push_size] at found
      obtain rfl := Option.some.inj found
      exact ⟨rfl, parent⟩
    · rintro ⟨rfl, rfl⟩
      exact ⟨_, element?_push_size d e (some p), rfl⟩

theorem isForest_empty (path : FilePath) : IsForest [] (.empty path) where
  size := rfl
  before := fun ⟨_, found, _⟩ => by cases found
  children := fun found => by cases found

/-- The one that is added goes to the end of its parent's list. -/
theorem ListsChildren.push {f : Element} (lists : ListsChildren es d i f)
    (size : d.elements.size = es.length) (there : i < d.elements.size) (e : Element)
    (parent : Option Nat) :
    ListsChildren (es ++ [e]) (d.push e parent) i
      (if parent = some i then adopt d.elements.size f else f) := by
  obtain ⟨own, under, hown, hchildren, sorted, members⟩ := lists
  have hown : (es ++ [e])[i]? = some own := by
    rw [List.getElem?_append_left (size ▸ there), hown]
  by_cases hparent : parent = some i
  · refine ⟨own, under ++ [d.elements.size], hown, ?_, ?_, fun j => ?_⟩
    · rw [if_pos hparent, adopt, hchildren, List.append_assoc]
    · refine List.pairwise_append.mpr ⟨sorted, List.pairwise_singleton _ _, fun j mem k last => ?_⟩
      rw [List.mem_singleton.mp last]
      exact ((members j).mp mem).lt
    · rw [List.mem_append, members, List.mem_singleton, isUnder_push_iff, and_iff_left hparent]
  · refine ⟨own, under, hown, by rw [if_neg hparent, hchildren], sorted, fun j => ?_⟩
    rw [members, isUnder_push_iff, or_iff_left fun new => hparent new.2]

/-- Nothing is under the one that is added. -/
theorem IsForest.listsChildren_push_size (forest : IsForest es d) (e : Element)
    {parent : Option Nat} (known : ∀ p ∈ parent, p < d.elements.size) :
    ListsChildren (es ++ [e]) (d.push e parent) d.elements.size { e with parent } := by
  refine ⟨e, [], by rw [forest.size, List.getElem?_concat_length], by simp, .nil, fun j => ?_⟩
  refine ⟨nofun, fun under => ?_⟩
  obtain under | ⟨rfl, hparent⟩ := isUnder_push_iff.mp under
  · exact absurd (forest.before under) under.lt.not_gt
  · exact absurd (known _ hparent) (Nat.lt_irrefl _)

/-- Adding an element under none or under one that is there leaves a forest. -/
theorem IsForest.push (forest : IsForest es d) (e : Element) {parent : Option Nat}
    (known : ∀ p ∈ parent, p < d.elements.size) : IsForest (es ++ [e]) (d.push e parent) where
  size := by rw [size_push, forest.size, List.length_append, List.length_singleton]
  before under := by
    obtain under | ⟨rfl, hparent⟩ := isUnder_push_iff.mp under
    · exact forest.before under
    · exact known _ hparent
  children {i f} found := by
    have hi := element?_eq_some_lt found
    rw [size_push, Nat.lt_succ_iff_lt_or_eq] at hi
    obtain there | rfl := hi
    · rw [element?_push_of_lt e parent there] at found
      obtain ⟨g, held, rfl⟩ := Option.map_eq_some_iff.mp found
      exact (forest.children held).push forest.size there e parent
    · rw [element?_push_size] at found
      obtain rfl := Option.some.inj found
      exact forest.listsChildren_push_size e known

theorem Built.isForest (built : Built es d) : IsForest es d := by
  induction built with
  | empty => exact isForest_empty _
  | push _ e known ih => exact ih.push e known

/-! ## Ways outwards in a forest -/

theorem IsForest.climbs_outward (forest : IsForest es d) (there : i < d.elements.size) :
    d.Climbs i (d.outward i) := by
  fun_induction Document.outward d i with
  | case1 i p before found ih =>
      obtain ⟨e, found, parent⟩ := parentBefore?_eq_some_iff.mp found
      exact .up found parent (ih (before.trans there))
  | case2 i none =>
      refine .top (e := d.elements[i]) (Array.getElem?_eq_getElem there) ?_
      cases hparent : d.elements[i].parent with
      | none => rfl
      | some p =>
          have under : d.IsUnder i p := ⟨_, Array.getElem?_eq_getElem there, hparent⟩
          rw [parentBefore?_eq_some_iff (q := ⟨p, forest.before under⟩) |>.mpr under] at none
          cases none

/-- The indexes become smaller on the way. -/
theorem IsForest.pairwise_of_climbs {is : List Nat} (forest : IsForest es d)
    (climbs : d.Climbs i is) : (∀ j ∈ is, j ≤ i) ∧ is.Pairwise (· > ·) := by
  induction climbs with
  | top => exact ⟨by simp, List.pairwise_singleton _ _⟩
  | up found parent _ ih =>
      have before := forest.before ⟨_, found, parent⟩
      refine ⟨?_, .cons (fun j mem => (ih.1 j mem).trans_lt before) ih.2⟩
      exact List.forall_mem_cons.mpr ⟨le_rfl, fun j mem => (ih.1 j mem).trans before.le⟩

theorem IsForest.climbs_iff {is : List Nat} (forest : IsForest es d)
    (there : i < d.elements.size) : d.Climbs i is ↔ is = d.outward i :=
  ⟨fun climbs => climbs.unique (forest.climbs_outward there),
    fun same => same ▸ forest.climbs_outward there⟩

end Forests

end Document

/-! ## Documents that are read -/

section Reading

open Document (Built)

variable {s : Source} {p q : Progress}

/-- What has been read is built of elements that came without children, and
those that are open are among them. -/
structure Progress.Founded (p : Progress) : Prop where
  built : ∃ es, Built es p.document ∧ ∀ e ∈ es, e.children = []
  opened : ∀ o ∈ p.opened, o.1 < p.document.elements.size

theorem Progress.Founded.add {raw content : List Char} {opens : Bool} (founded : p.Founded)
    (h : p.add s raw content opens = .ok q) : q.Founded := by
  obtain ⟨e, made, rest⟩ := bind_eq_ok h
  obtain rfl := Except.ok.inj rest
  obtain ⟨es, built, bare⟩ := founded.built
  have known : ∀ i ∈ p.opened.head?.map (·.1), i < p.document.elements.size := by
    intro i mem
    obtain ⟨o, first, rfl⟩ := Option.map_eq_some_iff.mp mem
    exact founded.opened o (List.mem_of_head? first)
  constructor
  · refine ⟨es ++ [e], built.push e known, ?_⟩
    rw [List.forall_mem_append, List.forall_mem_singleton]
    exact ⟨bare, by rw [← alone_of_element made]; rfl⟩
  · have outer : ∀ o ∈ p.opened, o.1 < p.document.elements.size + 1 :=
      fun o mem => Nat.lt_succ_of_lt (founded.opened o mem)
    rw [Document.size_push]
    cases opens with
    | false => exact outer
    | true => exact List.forall_mem_cons.mpr ⟨Nat.lt_succ_self _, outer⟩

theorem Progress.Founded.next {l : Lexeme} (founded : p.Founded) (h : p.next s l = .ok q) :
    q.Founded := by
  have taken := taken_of_next h
  obtain ⟨kind, raw⟩ := l
  cases kind with
  | passage =>
      obtain ⟨document, opened⟩ := taken
      exact ⟨document ▸ founded.built, by rw [document, opened]; exact founded.opened⟩
  | start content => exact founded.add h
  | empty content => exact founded.add h
  | close name =>
      obtain ⟨document, i, opened⟩ := taken
      refine ⟨document ▸ founded.built, fun o mem => ?_⟩
      rw [document]
      exact founded.opened o (opened ▸ List.mem_cons_of_mem _ mem)

theorem Progress.Founded.run {ls : List Lexeme} (founded : p.Founded)
    (h : ls.foldlM (Progress.next s) p = .ok q) : q.Founded := by
  induction ls generalizing p with
  | nil => exact Except.ok.inj h ▸ founded
  | cons l ls ih =>
      obtain ⟨m, next, run⟩ := foldlM_cons_eq_ok h
      exact ih (founded.next next) run

/-- A document that is read is built of elements that came without children. -/
theorem exists_built_of_read {path : FilePath} {text : String} {d : Document}
    (h : Markup.read path text = .ok d) :
    ∃ es, Built es d ∧ ∀ e ∈ es, e.children = [] := by
  obtain ⟨p, progress, rfl⟩ := read_eq_ok_iff.mp h
  have founded : (Source.begun ⟨path, text.toList⟩).Founded :=
    ⟨⟨[], .empty, fun _ mem => absurd mem List.not_mem_nil⟩,
      fun _ mem => absurd mem List.not_mem_nil⟩
  exact (founded.run (progress_eq_ok_iff.mp progress).2).built

end Reading

/-! ## Both together -/

namespace Document

variable {d : Document} {es : List Element}

/-- **The elements of a document are a forest.**  However a document is built,
its elements name their parents and list their children in agreement; one that
came without children lists exactly those that name it, in order and each once.
Adding an element changes none that is there but its parent, and that by one more
child.  From each element, following parents leads through ever smaller indexes
to an element without one, and the walk outwards goes that way. -/
theorem forest_of_built (built : Built es d) :
    IsForest es d ∧
      (∀ i e own, d.element? i = some e → es[i]? = some own → own.children = [] →
        e.children.Pairwise (· < ·) ∧ e.children.Nodup ∧ ∀ j, j ∈ e.children ↔ d.IsUnder j i) ∧
      (∀ (e : Element) (parent : Option Nat),
        (d.push e parent).element? d.elements.size = some { e with parent } ∧
          ∀ i < d.elements.size, (d.push e parent).element? i =
            (d.element? i).map fun f => if parent = some i then adopt d.elements.size f else f) ∧
      ∀ i < d.elements.size, (∀ is, d.Climbs i is ↔ is = d.outward i) ∧
        (d.outward i).head? = some i ∧ (d.outward i).Pairwise (· > ·) ∧ (d.outward i).Nodup ∧
        ∃ last e, (d.outward i).getLast? = some last ∧ d.element? last = some e ∧
          e.parent = none := by
  have forest := built.isForest
  refine ⟨forest, fun i e own found came bare => ?_, fun e parent => ⟨element?_push_size d e parent,
    fun i there => element?_push_of_lt e parent there⟩, fun i there => ?_⟩
  · obtain ⟨own', under, came', hchildren, sorted, members⟩ := forest.children found
    obtain rfl := Option.some.inj (came.symm.trans came')
    rw [bare, List.nil_append] at hchildren
    rw [hchildren]
    exact ⟨sorted, sorted.imp Nat.ne_of_lt, members⟩
  · have climbs := forest.climbs_outward there
    have smaller := (forest.pairwise_of_climbs climbs).2
    refine ⟨fun is => forest.climbs_iff there, ?_, smaller, smaller.imp Nat.ne_of_gt,
      climbs.exists_top⟩
    rw [outward]
    split <;> rfl

/-- An element of a layout outside any tree. -/
def widget (tag : String) : Element :=
  ⟨tag, [], none, [], .top ⟨"res/layout/a.xml"⟩⟩

/-- A container with two elements, the first of which holds a third. -/
def container : Document :=
  (((empty ⟨"res/layout/a.xml"⟩).push (widget "ScrollView") none).push (widget "FrameLayout")
    (some 0)).push (widget "WebView") (some 1) |>.push (widget "TextView") (some 0)

theorem forest_of_built_container :
    Built [widget "ScrollView", widget "FrameLayout", widget "WebView", widget "TextView"] container ∧
      (container.element? 0).map (·.children) = some [1, 3] ∧
      (∀ j, j ∈ [1, 3] ↔ container.IsUnder j 0) ∧ container.outward 2 = [2, 1, 0] := by
  have built : Built ([] ++ [widget "ScrollView"] ++ [widget "FrameLayout"] ++ [widget "WebView"] ++
      [widget "TextView"]) container :=
    .push (.push (.push (.push .empty _ (by decide)) _ (by decide)) _ (by decide)) _ (by decide)
  have children : (container.element? 0).map (·.children) = some [1, 3] := by decide
  obtain ⟨root, found, hroot⟩ := Option.map_eq_some_iff.mp children
  obtain ⟨-, lists, -, ways⟩ := forest_of_built built
  refine ⟨built, children, ?_, ?_⟩
  · rw [← hroot]
    exact (lists 0 root _ found rfl rfl).2.2
  · have climbs : container.Climbs 2 [2, 1, 0] := .up rfl rfl (.up rfl rfl (.top rfl rfl))
    exact (((ways 2 (by decide)).1 _).mp climbs).symm

end Document

end Markup

end AndroidLint
