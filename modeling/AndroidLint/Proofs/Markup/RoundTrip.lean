/-
RoundTrip — a tree is read back from every text that writes it.

The elements read so far are looked at as entries, without their places.
A new element goes to the end of the list and of its parent's children
(`entries_push`).  `Grown p q trees` says that between two points of
reading some trees have gone under the innermost open element; an element
is grown from its own entry and what is grown while it is open
(`Grown.element`), and the induction follows the ways of writing
(`passes_content`).
-/
import AndroidLint.Proofs.Markup.Resume

namespace AndroidLint

namespace Markup

open Text (byteCount)

/-! ## Documents as lists of entries -/

/-- What a document says of an element, apart from its place in the text. -/
def Element.entry (e : Element) : Entry :=
  ⟨e.tag, e.attributes.map fun a => (a.name, a.value), e.parent, e.children⟩

/-- The elements of a document in order, without their places. -/
def Document.entries (d : Document) : List Entry :=
  d.elements.toList.map Element.entry

/-- The entry with some more children. -/
def Entry.adopting (indexes : List Nat) (e : Entry) : Entry :=
  { e with children := e.children ++ indexes }

/-- The entries with some more children for the one at `parent`. -/
def adopted (parent : Option Nat) (indexes : List Nat) (es : List Entry) : List Entry :=
  match parent with
  | some p => es.modify p (.adopting indexes)
  | none => es

@[simp]
theorem length_documentEntries (d : Document) : d.entries.length = d.elements.size := by
  rw [Document.entries, List.length_map, Array.length_toList]

@[simp]
theorem length_adopted (parent : Option Nat) (indexes : List Nat) (es : List Entry) :
    (adopted parent indexes es).length = es.length := by
  cases parent with
  | none => rfl
  | some p => exact List.length_modify _ _ _

theorem adopted_nil (parent : Option Nat) (es : List Entry) : adopted parent [] es = es := by
  cases parent with
  | none => rfl
  | some p =>
      have hid : Entry.adopting [] = id := by
        funext e
        simp [Entry.adopting]
      rw [adopted, hid, List.modify_id]

theorem adopted_adopted (parent : Option Nat) (is js : List Nat) (es : List Entry) :
    adopted parent js (adopted parent is es) = adopted parent (is ++ js) es := by
  cases parent with
  | none => rfl
  | some p =>
      have hcomp : Entry.adopting js ∘ Entry.adopting is = Entry.adopting (is ++ js) := by
        funext e
        simp [Entry.adopting]
      rw [adopted, adopted, adopted, List.modify_modify_eq, hcomp]

/-- A parent that stands among the first entries is found there. -/
theorem adopted_append {parent : Option Nat} {es : List Entry} (known : ∀ i ∈ parent, i < es.length)
    (indexes : List Nat) (fs : List Entry) :
    adopted parent indexes (es ++ fs) = adopted parent indexes es ++ fs := by
  cases parent with
  | none => rfl
  | some p =>
      have hp : p < es.length := known p rfl
      have hp' : p < (es ++ fs).length := by simp; omega
      rw [adopted, adopted, List.modify_eq_take_cons_drop hp', List.modify_eq_take_cons_drop hp,
        List.take_append_of_le_length (by omega), List.drop_append_of_le_length (by omega),
        List.getElem_append_left hp]
      simp

/-- The parent is the last entry. -/
theorem adopted_last (es : List Entry) (e : Entry) (indexes : List Nat) :
    adopted (some es.length) indexes (es ++ [e]) = es ++ [e.adopting indexes] := by
  rw [adopted, List.modify_eq_take_drop, List.take_left, List.drop_left]
  rfl

theorem entries_push (d : Document) (e : Element) (parent : Option Nat) :
    (d.push e parent).entries =
      adopted parent [d.elements.size] d.entries ++ [{ e with parent }.entry] := by
  cases parent with
  | none => simp [Document.push, Document.entries, adopted]
  | some p =>
      have hmap : (d.elements.toList.modify p (Document.adopt d.elements.size)).map Element.entry =
          d.entries.modify p (.adopting [d.elements.size]) := by
        refine List.ext_getElem? fun i => ?_
        rw [Document.entries, List.getElem?_map, List.getElem?_modify, List.getElem?_modify,
          List.getElem?_map]
        cases d.elements.toList[i]? with
        | none => rfl
        | some e => by_cases h : p = i <;> simp [h, Document.adopt, Element.entry, Entry.adopting]
      simp only [Document.push, Document.entries, adopted, Array.toList_push, List.map_append,
        Array.toList_modify, hmap]
      rfl

/-! ## Growing -/

/-- The index of the innermost open element. -/
def Progress.parent? (p : Progress) : Option Nat :=
  p.opened.head?.map (·.1)

/-- The innermost open element is one of those read. -/
def Progress.Known (p : Progress) : Prop :=
  ∀ i ∈ p.parent?, i < p.document.elements.size

/-- From `p` to `q`, one element has been added. -/
structure Gained (p q : Progress) (tag : String) (pairs : List (String × String)) : Prop where
  path : q.document.path = p.document.path
  entries : q.document.entries =
    adopted p.parent? [p.document.elements.size] p.document.entries ++ [⟨tag, pairs, p.parent?, []⟩]

/-- From `p` to `q`, trees have been added and closed. -/
structure Grown (p q : Progress) (trees : List Tree) : Prop where
  opened : q.opened = p.opened
  path : q.document.path = p.document.path
  entries : q.document.entries =
    adopted p.parent? (roots p.document.elements.size trees) p.document.entries ++
      treesEntries p.parent? p.document.elements.size trees

section Growing

variable {p q m : Progress} {tag : String} {pairs : List (String × String)}

theorem Gained.size (h : Gained p m tag pairs) :
    m.document.elements.size = p.document.elements.size + 1 := by
  have hlength := congrArg List.length h.entries
  simpa using hlength

theorem Grown.size {trees : List Tree} (h : Grown p q trees) :
    q.document.elements.size = p.document.elements.size + treesSize trees := by
  have hlength := congrArg List.length h.entries
  simpa [length_treesEntries] using hlength

theorem Grown.parent? {trees : List Tree} (h : Grown p q trees) : q.parent? = p.parent? := by
  rw [Progress.parent?, Progress.parent?, h.opened]

theorem Grown.known {trees : List Tree} (h : Grown p q trees) (known : p.Known) : q.Known := by
  intro i mem
  rw [h.parent?] at mem
  have hi := known i mem
  have hsize := h.size
  omega

/-- Where nothing has been added, nothing has grown. -/
theorem Grown.nil (document : q.document = p.document) (opened : q.opened = p.opened) :
    Grown p q [] where
  opened := opened
  path := by rw [document]
  entries := by rw [document, roots, treesEntries, adopted_nil, List.append_nil]

theorem Grown.append {ts us : List Tree} (known : p.Known) (first : Grown p m ts)
    (second : Grown m q us) : Grown p q (ts ++ us) where
  opened := second.opened.trans first.opened
  path := second.path.trans first.path
  entries := by
    have hknown : ∀ i ∈ p.parent?, i < (adopted p.parent?
        (roots p.document.elements.size ts) p.document.entries).length := by
      rw [length_adopted, length_documentEntries]
      exact known
    rw [second.entries, first.parent?, first.size, first.entries, adopted_append hknown,
      adopted_adopted, roots_append, treesEntries_append, List.append_assoc]

theorem Grown.empty (opened : q.opened = p.opened) (gained : Gained p q tag pairs) :
    Grown p q [.element tag pairs []] where
  opened := opened
  path := gained.path
  entries := gained.entries

/-- What grows while an element is open goes under it. -/
theorem Grown.element {r : Progress} {children : List Tree} (gained : Gained p m tag pairs)
    (innermost : m.parent? = some p.document.elements.size) (inside : Grown m q children)
    (document : r.document = q.document) (closed : r.opened = p.opened) :
    Grown p r [.element tag pairs children] where
  opened := closed
  path := by rw [document, inside.path, gained.path]
  entries := by
    have hlast := adopted_last
      (adopted p.parent? [p.document.elements.size] p.document.entries)
      ⟨tag, pairs, p.parent?, []⟩ (roots (p.document.elements.size + 1) children)
    rw [length_adopted, length_documentEntries] at hlast
    rw [document, inside.entries, innermost, gained.size, gained.entries, hlast]
    simp [treesEntries, Tree.entries, roots, Entry.adopting]

end Growing

/-! ## Passing tags -/

theorem placed_pairs (s : Source) (start : Nat) (markup : List Char) (search : Nat)
    (pairs : List (String × String)) :
    (placed s start markup search pairs).map (fun a => (a.name, a.value)) = pairs := by
  induction pairs generalizing search with
  | nil => rfl
  | cons pair pairs ih => rw [placed, List.map_cons, ih]

theorem exists_add {content : List Char} {pairs : List (String × String)}
    (readable : attributes content = .ok pairs) (s : Source) (p : Progress) (raw : List Char)
    (opens : Bool) :
    ∃ q, p.add s raw content opens = .ok q ∧
      q.opened = (if opens then [(p.document.elements.size, tagName content)] else []) ++ p.opened ∧
      Gained p q (String.ofList (tagName content)) pairs := by
  rw [Progress.add, Source.element, readable]
  refine ⟨_, rfl, ?_, rfl, ?_⟩
  · cases opens <;> rfl
  · rw [entries_push, Element.entry, placed_pairs]
    rfl

section Tags

variable {s : Source} {tag : String} {pairs : List (String × String)} {content : List Char}

theorem passes_start (t : TagContent tag pairs content) (p : Progress) :
    ∃ q, Passes s ('<' :: content ++ ['>']) p q ∧
      q.opened = (p.document.elements.size, tag.toList) :: p.opened ∧ Gained p q tag pairs := by
  have hscan : ∀ rest, scan '<' (content ++ ['>'] ++ rest) =
      .ok (.start content, (content ++ ['>']).length) := by
    intro rest
    obtain ⟨c, r, hcontent, first⟩ := t.exists_cons
    have hopening := scan_opening first (hcontent ▸ t.inert) rest
    rwa [← hcontent, t.tagKind_eq] at hopening
  obtain ⟨q, hadd, hopened, gained⟩ := exists_add t.attributes_eq s p
    ('<' :: (content ++ ['>'])) true
  rw [t.tagName_eq] at hopened gained
  rw [String.ofList_toList] at gained
  exact ⟨q, .piece hscan hadd, hopened, gained⟩

theorem passes_empty (t : TagContent tag pairs content) (p : Progress) :
    ∃ q, Passes s ('<' :: content ++ ['/', '>']) p q ∧ q.opened = p.opened ∧
      Gained p q tag pairs := by
  have hslash : Inert ['/'] := .single (by decide) (by decide) (by decide)
  have hscan : ∀ rest, scan '<' (content ++ ['/', '>'] ++ rest) =
      .ok (.empty content, (content ++ ['/', '>']).length) := by
    intro rest
    obtain ⟨c, r, hcontent, first⟩ := t.exists_cons
    have hinert : Inert (c :: (r ++ ['/'])) := by
      have h := t.inert.append hslash
      rwa [hcontent] at h
    have hopening := scan_opening first hinert rest
    rw [← List.cons_append, ← hcontent, tagKind_empty] at hopening
    simpa using hopening
  obtain ⟨q, hadd, hopened, gained⟩ := exists_add t.attributes_eq s p
    ('<' :: (content ++ ['/', '>'])) false
  rw [t.tagName_eq, String.ofList_toList] at gained
  exact ⟨q, .piece hscan hadd, hopened, gained⟩

theorem passes_close (tagIsName : IsName tag) {gap : List Char} (gapBlank : Blanks gap)
    {p : Progress} {i : Nat} {opened : List (Nat × List Char)}
    (innermost : p.opened = (i, tag.toList) :: opened) :
    ∃ q, Passes s ('<' :: '/' :: tag.toList ++ gap ++ ['>']) p q ∧
      q.document = p.document ∧ q.opened = opened := by
  have hstep : p.next s ⟨.close tag.toList, '<' :: ('/' :: tag.toList ++ gap ++ ['>'])⟩ =
      .ok ⟨p.offset + byteCount ('<' :: ('/' :: tag.toList ++ gap ++ ['>'])), p.document,
        opened⟩ := by
    simp only [Progress.next, innermost, if_true]
  exact ⟨_, .piece (scan_closing tagIsName gapBlank) hstep, rfl, rfl⟩

end Tags

/-! ## Whole texts -/

/-- Some trees, however they are written, are read where they stand. -/
theorem passes_content {s : Source} {trees : List Tree} {cs : List Char}
    (h : Content trees cs) (wellFormed : ∀ t ∈ trees, t.WellFormed) (p : Progress)
    (known : p.Known) : ∃ q, Passes s cs p q ∧ Grown p q trees := by
  -- what is open differs from level to level, so the progress is general
  induction h generalizing p with
  | nil => exact ⟨p, .nil s p, .nil rfl rfl⟩
  | @text c trees rest noTag noReference _ ih =>
      have grown : Grown p { p with offset := p.offset + c.utf8Size } [] := .nil rfl rfl
      obtain ⟨q, passes, others⟩ := ih wellFormed _ (grown.known known)
      exact ⟨q, (Passes.text noTag noReference p).append passes, grown.append known others⟩
  | comment isText _ ih =>
      obtain ⟨m, passes, document, opened⟩ := Passes.comment (s := s) isText p
      have grown := Grown.nil document opened
      obtain ⟨q, passes', others⟩ := ih wellFormed m (grown.known known)
      refine ⟨q, ?_, grown.append known others⟩
      simpa using passes.append passes'
  | @empty tag pairs trees written gap rest attributes gapBlank _ ih =>
      obtain ⟨first, otherTrees⟩ := List.forall_mem_cons.mp wellFormed
      obtain ⟨tagIsName, keysAreNames, keysDiffer, -⟩ := first
      have content : TagContent tag pairs (tag.toList ++ written ++ gap) :=
        ⟨tagIsName, keysAreNames, keysDiffer, written, gap, attributes, gapBlank, rfl⟩
      obtain ⟨m, passes, opened, gained⟩ := passes_empty (s := s) content p
      have grown := Grown.empty opened gained
      obtain ⟨q, passes', others⟩ := ih otherTrees m (grown.known known)
      refine ⟨q, ?_, grown.append known others⟩
      simpa using passes.append passes'
  | @element tag pairs children trees written gap inner close rest attributes gapBlank _
      closeBlank _ ihInside ihOthers =>
      obtain ⟨first, otherTrees⟩ := List.forall_mem_cons.mp wellFormed
      obtain ⟨tagIsName, keysAreNames, keysDiffer, insideTrees⟩ := first
      have content : TagContent tag pairs (tag.toList ++ written ++ gap) :=
        ⟨tagIsName, keysAreNames, keysDiffer, written, gap, attributes, gapBlank, rfl⟩
      obtain ⟨m, passesStart, opened, gained⟩ := passes_start (s := s) content p
      -- while the children are read, the new element is the innermost open one
      have innermost : m.parent? = some p.document.elements.size := by
        rw [Progress.parent?, opened]
        rfl
      have mKnown : m.Known := by
        intro i mem
        rw [innermost] at mem
        obtain rfl := Option.some.inj mem
        rw [gained.size]
        exact Nat.lt_succ_self _
      obtain ⟨n, passesInside, inside⟩ := ihInside insideTrees m mKnown
      obtain ⟨r, passesClose, document, closed⟩ :=
        passes_close (s := s) tagIsName closeBlank (inside.opened.trans opened)
      have grown := Grown.element gained innermost inside document closed
      obtain ⟨q, passesOthers, others⟩ := ihOthers otherTrees r (grown.known known)
      refine ⟨q, ?_, grown.append known others⟩
      simpa using ((passesStart.append passesInside).append passesClose).append passesOthers

/-- A mark of byte order at the start counts as text. -/
theorem content_unmarked {trees : List Tree} {cs : List Char} (h : Content trees cs) :
    Content trees (unmarked cs) := by
  unfold unmarked
  split
  case h_1 r => cases h with | text _ _ others => exact others
  case h_2 => exact h

end Markup

open Markup

/-- From every text that writes a tree, its elements are read in document
order: each with its tag, its attributes in order with the values as they
were before they were quoted, its parent and its children. -/
theorem read_writtenAs {root : Tree} (wellFormed : root.WellFormed) {text : String}
    (written : root.WrittenAs text) (path : FilePath) :
    ∃ d, Markup.read path text = .ok d ∧ d.path = path ∧ d.entries = root.entries none 0 := by
  obtain ⟨q, passes, grown⟩ := passes_content (s := ⟨path, text.toList⟩)
    (content_unmarked written) (by simpa using wellFormed) ⟨0, .empty path, []⟩
    (fun i mem => by cases mem)
  refine ⟨q.document, ?_, grown.path, ?_⟩
  · rw [Markup.read, progress_eq_resume, resume_of_passes passes]
    rfl
  · rw [grown.entries]
    simp [adopted, Progress.parent?, Document.entries, Document.empty, treesEntries]

/-- A label with an element in it. -/
def labelTree : Tree :=
  .element "TextView" [("text", "a<b")] [.element "View" [] []]

/-- The label with a reference in its value and a comment. -/
def labelText : String :=
  "<TextView text='a&lt;b'><!-- empty --><View/></TextView>"

theorem wellFormed_labelTree : labelTree.WellFormed := by
  have hname : ∀ name ∈ ["TextView", "text", "View"], IsName name := by
    intro name mem
    simp only [List.mem_cons, List.not_mem_nil, or_false] at mem
    obtain rfl | rfl | rfl := mem <;>
      exact ⟨_, _, rfl, by decide, List.forall_iff_forall_mem.mp (by decide)⟩
  refine .element (hname _ (by simp)) (by simp [hname]) (by simp) ?_
  intro t mem
  obtain rfl := List.mem_singleton.mp mem
  exact .element (hname _ (by simp)) (by simp) (by simp) (by simp)

theorem labelTree_writtenAs : labelTree.WrittenAs labelText := by
  have hnone : Blanks [] := by simp [Blanks]
  have hgap : Blanks [' '] := by simp [Blanks, isSpace]
  have hvalue : "a<b".toList = ['a', '<', 'b'] := by decide +kernel
  have hquoted : Quotable '\'' "a<b".toList
      (['a'] ++ ('&' :: "lt".toList ++ [';'] ++ (['b'] ++ []))) := by
    rw [hvalue]
    exact .cons (.itself (by decide) (by decide) (by decide))
      (.cons (.entity (by simp [predefined]))
        (.cons (.itself (by decide) (by decide) (by decide)) .nil))
  have hcomment : IsCommentText " empty ".toList := by
    unfold IsCommentText
    decide +kernel
  have hattributes : Attributes [("text", "a<b")] _ :=
    .cons (List.cons_ne_nil _ _) hgap hnone hnone (.inr rfl) hquoted .nil
  have hcontent : Content [labelTree] _ :=
    .element hattributes hnone (.comment hcomment (.empty .nil hnone .nil)) hnone .nil
  refine Eq.mp (congrArg (Content _) ?_) hcontent
  decide +kernel

theorem read_writtenAs_label :
    labelTree.WellFormed ∧ labelTree.WrittenAs labelText ∧
      ∃ d, Markup.read ⟨"label.xml"⟩ labelText = .ok d ∧ d.path = ⟨"label.xml"⟩ ∧
        d.entries = [⟨"TextView", [("text", "a<b")], none, [1]⟩, ⟨"View", [], some 0, []⟩] :=
  ⟨wellFormed_labelTree, labelTree_writtenAs,
    read_writtenAs wellFormed_labelTree labelTree_writtenAs ⟨"label.xml"⟩⟩

end AndroidLint
