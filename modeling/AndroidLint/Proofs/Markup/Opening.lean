/-
Opening — the tags that open elements, and where they stand.

The pieces of a text, put together, are the text, so each piece stands
behind those before it.  `openings` lists the opening and empty tags with
the byte at which they begin; an element is made of each, in this order
(`drawn_of_run`), and takes its range from it.

A mark of byte order is no part of any piece.  Ranges count bytes of the
text behind it, so in a text that begins with one they do not fit the text
itself: every tag stands where its range says in the unmarked text only
(`elements_cover_tags`).
-/
import Mathlib.Data.List.Forall2
import AndroidLint.Proofs.Markup.Nesting
import AndroidLint.Proofs.Text.Bytes

namespace AndroidLint

open Text (byteCount)

/-- `l.Covers text part`: the bytes of the text in the range of `l` are
those of `part`. -/
def Location.Covers (l : Location) (text part : List Char) : Prop :=
  ∃ front back, text = front ++ part ++ back ∧ l.startByte = byteCount front ∧
    l.endByte = l.startByte + byteCount part

namespace Markup

/-! ## Tags among the pieces -/

/-- The content of an opening or an empty tag. -/
def Lexeme.content? (l : Lexeme) : Option (List Char) :=
  match l.kind with
  | .start content | .empty content => some content
  | .passage | .close _ => none

/-- A tag that opens an element, and the byte at which it begins. -/
structure Opening where
  start : Nat
  content : List Char
  raw : List Char

/-- The byte behind a tag. -/
def Opening.stop (o : Opening) : Nat :=
  o.start + byteCount o.raw

/-- The opening tags among pieces of which the first begins at a byte. -/
def openings (offset : Nat) : List Lexeme → List Opening
  | [] => []
  | l :: ls =>
      (l.content?.map fun content => ⟨offset, content, l.raw⟩).toList
        ++ openings (offset + byteCount l.raw) ls

/-- `IsOpening content raw`: `raw` is the opening or the empty tag with a
content.  Its last bracket is the first that closes outside quotes. -/
structure IsOpening (content raw : List Char) : Prop where
  brackets : ∃ inside, raw = '<' :: inside ++ ['>'] ∧
    (inside = content ∨ inside = content ++ ['/']) ∧
    (∀ c ∈ inside.head?, c ∉ ['!', '?', '/']) ∧
    ∀ rest, tagLength none (inside ++ '>' :: rest) = some inside.length

theorem tagLength_eq_some {quote : Option Char} {cs : List Char} {n : Nat}
    (h : tagLength quote cs = some n) :
    ∃ inside rest, cs = inside ++ '>' :: rest ∧ inside.length = n ∧
      ∀ other, tagLength quote (inside ++ '>' :: other) = some n := by
  induction cs generalizing quote n with
  | nil =>
      rw [tagLength] at h
      cases h
  | cons c cs ih =>
      cases quote with
      | none =>
          rw [tagLength] at h
          split at h
          case isTrue bracket =>
            obtain rfl : c = '>' := eq_of_beq bracket
            obtain rfl := Option.some.inj h
            exact ⟨[], cs, rfl, rfl, fun other => by simp [tagLength]⟩
          case isFalse other =>
            obtain ⟨m, hm, rfl⟩ := Option.map_eq_some_iff.mp h
            obtain ⟨inside, rest, rfl, hlength, hinside⟩ := ih hm
            refine ⟨c :: inside, rest, rfl, by rw [List.length_cons, hlength], fun more => ?_⟩
            rw [List.cons_append, tagLength, if_neg other, hinside, Option.map_some]
      | some q =>
          rw [tagLength] at h
          obtain ⟨m, hm, rfl⟩ := Option.map_eq_some_iff.mp h
          obtain ⟨inside, rest, rfl, hlength, hinside⟩ := ih hm
          refine ⟨c :: inside, rest, rfl, by rw [List.length_cons, hlength], fun more => ?_⟩
          rw [List.cons_append, tagLength, hinside, Option.map_some]

theorem tagKind_eq_or (inside : List Char) :
    (tagKind inside = .start inside) ∨ ∃ content, inside = content ++ ['/'] ∧
      tagKind inside = .empty content := by
  rw [tagKind]
  split
  case h_1 slash =>
    have nonempty : inside ≠ [] := by
      rintro rfl
      cases slash
    refine .inr ⟨inside.dropLast, ?_, rfl⟩
    rw [List.getLast?_eq_some_getLast nonempty, Option.some.injEq] at slash
    rw [← slash, List.dropLast_append_getLast]
  case h_2 => exact .inl rfl

theorem kind_of_passage {well : Bool} {fault : Fault} {extra n : Nat} {rest : List Char}
    {length : Option Nat} {kind : Kind}
    (h : passage well fault extra rest length = .ok (kind, n)) : kind = .passage := by
  rw [passage.eq_def] at h
  split at h
  case h_1 => cases h
  case h_2 =>
    split at h
    case isTrue =>
      cases h
      rfl
    case isFalse => cases h

theorem kind_of_scanDeclaration {r : List Char} {kind : Kind} {n : Nat}
    (h : scanDeclaration r = .ok (kind, n)) : kind = .passage := by
  rw [scanDeclaration.eq_def] at h
  split at h
  case h_1 => exact kind_of_passage h
  case h_2 => exact kind_of_passage h
  case h_5 => cases h
  all_goals
    simp only at h
    split at h
    case isTrue => cases h
    case isFalse => exact kind_of_passage h

theorem isOpening_of_scanMarkup {r : List Char} {kind : Kind} {n : Nat} {content : List Char}
    (h : scanMarkup r = .ok (kind, n))
    (opens : Lexeme.content? ⟨kind, '<' :: r.take n⟩ = some content) :
    IsOpening content ('<' :: r.take n) := by
  rw [scanMarkup.eq_def] at h
  split at h
  case h_1 =>
    obtain rfl := kind_of_scanDeclaration h
    cases opens
  case h_2 =>
    obtain rfl := kind_of_passage h
    cases opens
  case h_3 =>
    split at h
    case h_1 => cases h
    case h_2 =>
      cases h
      cases opens
  case h_4 noBang noQuestion noSlash =>
    split at h
    case h_1 => cases h
    case h_2 m hlength =>
      cases h
      obtain ⟨inside, rest, rfl, hm, hinside⟩ := tagLength_eq_some hlength
      have htake : (inside ++ '>' :: rest).take (m + 1) = inside ++ ['>'] := by
        rw [← hm, List.take_append, List.take_of_length_le (Nat.le_succ _)]
        simp
      have hcontent : (inside ++ '>' :: rest).take m = inside := by rw [← hm, List.take_left]
      rw [hcontent] at opens
      rw [htake]
      refine ⟨inside, rfl, ?_, ?_, fun other => (hinside other).trans (congrArg some hm.symm)⟩
      · obtain hkind | ⟨shorter, hslash, hkind⟩ := tagKind_eq_or inside
        · rw [hkind] at opens
          exact .inl (Option.some.inj opens)
        · rw [hkind] at opens
          exact .inr (Option.some.inj opens ▸ hslash)
      · cases inside with
        | nil => exact fun c mem => by cases mem
        | cons d inside =>
            intro c mem
            obtain rfl := Option.some.inj mem
            simp only [List.mem_cons, List.not_mem_nil, or_false, not_or]
            exact ⟨fun e => noBang _ (by rw [e]; rfl), fun e => noQuestion _ (by rw [e]; rfl),
              fun e => noSlash _ (by rw [e]; rfl)⟩

theorem isOpening_of_scan {c : Char} {r : List Char} {kind : Kind} {n : Nat} {content : List Char}
    (h : scan c r = .ok (kind, n)) (opens : Lexeme.content? ⟨kind, c :: r.take n⟩ = some content) :
    IsOpening content (c :: r.take n) := by
  rw [scan] at h
  split at h
  case isTrue bracket =>
    obtain rfl := eq_of_beq bracket
    exact isOpening_of_scanMarkup h opens
  case isFalse =>
    split at h
    case isTrue =>
      rw [scanReference] at h
      split at h
      case h_1 =>
        cases h
        cases opens
      case h_2 => cases h
    case isFalse =>
      cases h
      cases opens

/-- The pieces of a text, put together, are the text. -/
theorem flatMap_raw_lexemes {cs : List Char} (whole : (lexemes cs).2 = none) :
    (lexemes cs).1.flatMap (·.raw) = cs := by
  induction cs using lexemes.induct with
  | case1 => rw [lexemes, List.flatMap_nil]
  | case2 c r stop hscan =>
      rw [lexemes, hscan] at whole
      cases whole
  | case3 c r kind n hscan _ _ _ ih =>
      rw [lexemes, hscan] at whole ⊢
      rw [List.flatMap_cons, ih whole, List.cons_append, List.take_append_drop]

theorem isOpening_of_mem_lexemes {cs : List Char} {l : Lexeme} (mem : l ∈ (lexemes cs).1)
    {content : List Char} (opens : l.content? = some content) : IsOpening content l.raw := by
  induction cs using lexemes.induct with
  | case1 =>
      rw [lexemes] at mem
      cases mem
  | case2 c r stop hscan =>
      rw [lexemes, hscan] at mem
      cases mem
  | case3 c r kind n hscan _ _ _ ih =>
      rw [lexemes, hscan] at mem
      obtain rfl | mem := List.mem_cons.mp mem
      · exact isOpening_of_scan hscan opens
      · exact ih mem

/-! ## Where the tags stand -/

section Openings

variable {offset : Nat} {ls : List Lexeme} {o : Opening}

theorem mem_openings_cons {l : Lexeme} (mem : o ∈ openings offset (l :: ls)) :
    (l.content? = some o.content ∧ o.raw = l.raw ∧ o.start = offset) ∨
      o ∈ openings (offset + byteCount l.raw) ls := by
  rw [openings, List.mem_append, Option.mem_toList, Option.map_eq_some_iff] at mem
  obtain ⟨content, opens, rfl⟩ | others := mem
  · exact .inl ⟨opens, rfl, rfl⟩
  · exact .inr others

/-- An opening tag is one of the pieces, and stands behind those before. -/
theorem exists_front_of_mem_openings (mem : o ∈ openings offset ls) :
    (∃ l ∈ ls, l.content? = some o.content ∧ o.raw = l.raw) ∧
      ∃ front back, ls.flatMap (·.raw) = front ++ o.raw ++ back ∧
        o.start = offset + byteCount front := by
  induction ls generalizing offset with
  | nil => cases mem
  | cons l ls ih =>
      obtain ⟨opens, hraw, hstart⟩ | others := mem_openings_cons mem
      · refine ⟨⟨l, List.mem_cons_self, opens, hraw⟩, [], ls.flatMap (·.raw), ?_, hstart⟩
        rw [List.flatMap_cons, hraw, List.nil_append]
      · obtain ⟨⟨l', mem', same⟩, front, back, htext, hstart⟩ := ih others
        refine ⟨⟨l', List.mem_cons_of_mem _ mem', same⟩, l.raw ++ front, back, ?_, ?_⟩
        · rw [List.flatMap_cons, htext]
          simp
        · rw [hstart, Text.byteCount_append, Nat.add_assoc]

theorem le_start_of_mem_openings (mem : o ∈ openings offset ls) : offset ≤ o.start := by
  obtain ⟨-, front, back, -, hstart⟩ := exists_front_of_mem_openings mem
  exact hstart ▸ Nat.le_add_right _ _

theorem pairwise_start_openings (nonempty : ∀ l ∈ ls, l.content?.isSome → l.raw ≠ []) :
    (openings offset ls).Pairwise fun o o' => o.start < o'.start := by
  induction ls generalizing offset with
  | nil => exact .nil
  | cons l ls ih =>
      obtain ⟨first, others⟩ := List.forall_mem_cons.mp nonempty
      rw [openings]
      cases opens : l.content? with
      | none => exact ih others
      | some content =>
          refine List.pairwise_cons.mpr ⟨fun o mem => ?_, ih others⟩
          have hpos := Text.byteCount_pos (first (by rw [opens, Option.isSome_some]))
          have hle := le_start_of_mem_openings mem
          show offset < o.start
          omega

end Openings

/-! ## Elements and their tags -/

/-- An element outside the tree. -/
def Element.alone (e : Element) : Element :=
  { e with parent := none, children := [] }

/-- The elements read so far, outside their tree. -/
def Progress.drawn (p : Progress) : List Element :=
  p.document.elements.toList.map Element.alone

/-- `e` is the element that a tag opens. -/
def Opening.Draws (s : Source) (o : Opening) (e : Element) : Prop :=
  s.element o.start o.stop o.content = .ok e

theorem alone_adopt (child : Nat) (e : Element) : (Document.adopt child e).alone = e.alone :=
  rfl

theorem map_alone_push (d : Document) (e : Element) (parent : Option Nat) :
    (d.push e parent).elements.toList.map Element.alone =
      d.elements.toList.map Element.alone ++ [e.alone] := by
  cases parent with
  | none => simp [Document.push, Element.alone]
  | some i =>
      have hmap : (d.elements.toList.modify i (Document.adopt d.elements.size)).map Element.alone =
          d.elements.toList.map Element.alone := by
        refine List.ext_getElem? fun j => ?_
        rw [List.getElem?_map, List.getElem?_modify, List.getElem?_map]
        cases d.elements.toList[j]? with
        | none => rfl
        | some e => by_cases h : i = j <;> simp [h, alone_adopt]
      simp only [Document.push, Array.toList_push, List.map_append, Array.toList_modify, hmap]
      rfl

theorem alone_of_element {s : Source} {start stop : Nat} {content : List Char} {e : Element}
    (h : s.element start stop content = .ok e) : e.alone = e := by
  rw [Source.element] at h
  split at h
  case h_1 => cases h
  case h_2 =>
    cases h
    rfl

section Runs

variable {s : Source} {p q : Progress}

theorem drawn_of_add {raw content : List Char} {opens : Bool}
    (h : p.add s raw content opens = .ok q) :
    q.offset = p.offset + byteCount raw ∧
      ∃ e, q.drawn = p.drawn ++ [e] ∧ Opening.Draws s ⟨p.offset, content, raw⟩ e := by
  rw [Progress.add] at h
  cases made : s.element p.offset (p.offset + byteCount raw) content with
  | error stop =>
      rw [made] at h
      cases h
  | ok e =>
      rw [made] at h
      obtain rfl := Except.ok.inj h
      refine ⟨rfl, e, ?_, made⟩
      rw [Progress.drawn, map_alone_push, alone_of_element made]
      rfl

theorem offset_of_next {l : Lexeme} (h : p.next s l = .ok q) :
    q.offset = p.offset + byteCount l.raw := by
  obtain ⟨kind, raw⟩ := l
  cases kind with
  | passage =>
      obtain rfl := Except.ok.inj h
      rfl
  | start content => exact (drawn_of_add h).1
  | empty content => exact (drawn_of_add h).1
  | close name =>
      simp only [Progress.next] at h
      split at h
      case h_1 => cases h
      case h_2 =>
        split at h
        case isTrue =>
          obtain rfl := Except.ok.inj h
          rfl
        case isFalse => cases h

/-- One piece adds the element that it opens, if it opens one. -/
theorem drawn_of_next {l : Lexeme} (h : p.next s l = .ok q) :
    ∃ new, q.drawn = p.drawn ++ new ∧
      List.Forall₂ (Opening.Draws s)
        (l.content?.map fun content => (⟨p.offset, content, l.raw⟩ : Opening)).toList new := by
  have taken := taken_of_next h
  obtain ⟨kind, raw⟩ := l
  cases kind with
  | passage => exact ⟨[], by rw [Progress.drawn, taken.1, List.append_nil, Progress.drawn], .nil⟩
  | close name => exact ⟨[], by rw [Progress.drawn, taken.1, List.append_nil, Progress.drawn], .nil⟩
  | start content =>
      obtain ⟨-, e, hdrawn, draws⟩ := drawn_of_add h
      exact ⟨[e], hdrawn, .cons draws .nil⟩
  | empty content =>
      obtain ⟨-, e, hdrawn, draws⟩ := drawn_of_add h
      exact ⟨[e], hdrawn, .cons draws .nil⟩

/-- A run adds an element for each opening tag, in order. -/
theorem drawn_of_run {ls : List Lexeme} (h : ls.foldlM (Progress.next s) p = .ok q) :
    ∃ new, q.drawn = p.drawn ++ new ∧
      List.Forall₂ (Opening.Draws s) (openings p.offset ls) new := by
  induction ls generalizing p with
  | nil =>
      obtain rfl := Except.ok.inj h
      exact ⟨[], (List.append_nil _).symm, .nil⟩
  | cons l ls ih =>
      obtain ⟨m, next, run⟩ := foldlM_cons_eq_ok h
      obtain ⟨first, hfirst, drawsFirst⟩ := drawn_of_next next
      obtain ⟨others, hothers, drawsOthers⟩ := ih run
      rw [offset_of_next next] at drawsOthers
      refine ⟨first ++ others, ?_, List.rel_append drawsFirst drawsOthers⟩
      rw [hothers, hfirst, List.append_assoc]

end Runs

theorem exists_left_of_mem {α β : Type} {R : α → β → Prop} {as : List α} {bs : List β}
    (related : List.Forall₂ R as bs) {b : β} (mem : b ∈ bs) : ∃ a ∈ as, R a b := by
  induction related with
  | nil => cases mem
  | @cons a b' as bs first _ ih =>
      obtain rfl | mem := List.mem_cons.mp mem
      · exact ⟨a, List.mem_cons_self, first⟩
      · obtain ⟨a', mem', related⟩ := ih mem
        exact ⟨a', List.mem_cons_of_mem _ mem', related⟩

/-- What a tag makes: its name, its attributes with their places, and its
own range. -/
theorem Opening.Draws.eq {s : Source} {o : Opening} {e : Element} (draws : o.Draws s e) :
    ∃ pairs, attributes o.content = .ok pairs ∧ e =
      { tag := String.ofList (tagName o.content)
        attributes := placed s o.start ((Text.slice? o.start o.stop s.text).getD []) 0 pairs
        parent := none
        children := []
        location := s.location o.start o.stop } := by
  rw [Opening.Draws, Source.element] at draws
  split at draws
  case h_1 => cases draws
  case h_2 pairs readable => exact ⟨pairs, readable, (Except.ok.inj draws).symm⟩

section Texts

variable {s : Source} {p : Progress}

/-- The elements of a text are those that its opening tags draw. -/
theorem drawn_of_progress (progress : s.progress = .ok p) :
    List.Forall₂ (Opening.Draws s) (openings 0 (lexemes (unmarked s.text)).1) p.drawn := by
  obtain ⟨-, run⟩ := progress_eq_ok_iff.mp progress
  obtain ⟨new, hdrawn, draws⟩ := drawn_of_run run
  rw [hdrawn]
  exact draws

/-- Every element is drawn by an opening tag that stands in the text. -/
theorem exists_opening (progress : s.progress = .ok p) {e : Element}
    (mem : e ∈ p.document.elements.toList) :
    ∃ (o : Opening) (front back : List Char),
      unmarked s.text = front ++ o.raw ++ back ∧ o.start = byteCount front ∧
      IsOpening o.content o.raw ∧ o.Draws s e.alone := by
  obtain ⟨whole, -⟩ := progress_eq_ok_iff.mp progress
  obtain ⟨o, hmem, draws⟩ := exists_left_of_mem (drawn_of_progress progress)
    (List.mem_map_of_mem mem)
  obtain ⟨⟨l, hl, opens, hraw⟩, front, back, htext, hstart⟩ := exists_front_of_mem_openings hmem
  rw [flatMap_raw_lexemes whole] at htext
  rw [Nat.zero_add] at hstart
  exact ⟨o, front, back, htext, hstart, hraw ▸ isOpening_of_mem_lexemes hl opens, draws⟩

theorem IsOpening.ne_nil {content raw : List Char} (h : IsOpening content raw) : raw ≠ [] := by
  obtain ⟨inside, rfl, -⟩ := h.brackets
  exact List.cons_ne_nil _ _

/-- Elements begin one behind the other. -/
theorem pairwise_startByte (progress : s.progress = .ok p) :
    (p.document.elements.toList.map (·.location.startByte)).Pairwise (· < ·) := by
  have starts : (openings 0 (lexemes (unmarked s.text)).1).map (·.start) =
      p.document.elements.toList.map (·.location.startByte) := by
    have same := drawn_of_progress progress
    rw [Progress.drawn, List.forall₂_map_right_iff] at same
    refine List.forall₂_eq_eq_eq ▸ List.forall₂_map_left_iff.mpr
      (List.forall₂_map_right_iff.mpr (same.imp fun o e draws => ?_))
    obtain ⟨pairs, -, he⟩ := draws.eq
    exact (congrArg (·.location.startByte) he).symm
  rw [← starts, List.pairwise_map]
  refine pairwise_start_openings fun l mem opens => ?_
  obtain ⟨content, opens⟩ := Option.isSome_iff_exists.mp opens
  exact (isOpening_of_mem_lexemes mem opens).ne_nil

end Texts

theorem read_eq_ok_iff {path : FilePath} {text : String} {d : Document} :
    Markup.read path text = .ok d ↔
      ∃ p, Source.progress ⟨path, text.toList⟩ = .ok p ∧ p.document = d := by
  rw [Markup.read]
  cases Source.progress ⟨path, text.toList⟩ with
  | error stop => simp [Except.map]
  | ok p => simp [Except.map]

/-- `e.IsWrittenBy raw`: `raw` is an opening or an empty tag that gives the
name and the attributes of `e`. -/
def Element.IsWrittenBy (e : Element) (raw : List Char) : Prop :=
  ∃ content, IsOpening content raw ∧ e.tag = String.ofList (tagName content) ∧
    Markup.attributes content = .ok (e.attributes.map fun a => (a.name, a.value))

theorem Opening.Draws.isWrittenBy {s : Source} {o : Opening} {e : Element}
    (draws : o.Draws s e.alone) (isOpening : IsOpening o.content o.raw) : e.IsWrittenBy o.raw := by
  obtain ⟨pairs, readable, he⟩ := draws.eq
  have hattributes : e.attributes = placed s o.start _ 0 pairs := congrArg (·.attributes) he
  refine ⟨o.content, isOpening, congrArg (·.tag) he, ?_⟩
  rw [readable, hattributes, placed_pairs]

/-- A tag begins with its name. -/
theorem Element.IsWrittenBy.exists_name {e : Element} {raw : List Char} (h : e.IsWrittenBy raw) :
    ∃ rest, raw = '<' :: e.tag.toList ++ rest ++ ['>'] := by
  obtain ⟨content, ⟨inside, rfl, hinside, -⟩, htag, -⟩ := h
  have hname : tagName content ++ content.dropWhile (!isSpace ·) = content :=
    List.takeWhile_append_dropWhile
  rw [htag, String.toList_ofList]
  obtain rfl | rfl := hinside
  · refine ⟨inside.dropWhile (!isSpace ·), ?_⟩
    rw [List.cons_append, List.cons_append, hname, List.cons_append]
  · refine ⟨content.dropWhile (!isSpace ·) ++ ['/'], ?_⟩
    rw [List.cons_append, List.cons_append, ← List.append_assoc, hname, List.cons_append]

end Markup

open Markup

/-- **Every element covers its tag.** In every text that is read, the range
of an element holds the tag that opens it, from the bracket before its name
to the bracket that closes it, and no two elements begin at one byte. Ranges
count from behind a mark of byte order, if the text begins with one. -/
theorem elements_cover_tags {path : FilePath} {text : String} {d : Document}
    (h : Markup.read path text = .ok d) :
    (∀ e ∈ d.elements.toList, ∃ raw, e.location.Covers (unmarked text.toList) raw ∧
        e.IsWrittenBy raw ∧ ∃ rest, raw = '<' :: e.tag.toList ++ rest ++ ['>']) ∧
      (d.elements.toList.map (·.location.startByte)).Pairwise (· < ·) := by
  obtain ⟨p, progress, rfl⟩ := read_eq_ok_iff.mp h
  refine ⟨fun e mem => ?_, pairwise_startByte progress⟩
  obtain ⟨o, front, back, htext, hstart, isOpening, draws⟩ := exists_opening progress mem
  obtain ⟨pairs, readable, he⟩ := draws.eq
  have written := draws.isWrittenBy isOpening
  have hlocation : e.location = Source.location ⟨path, text.toList⟩ o.start o.stop :=
    congrArg (·.location) he
  refine ⟨o.raw, ⟨front, back, htext, ?_, ?_⟩, written, written.exists_name⟩
  · rw [hlocation]
    exact hstart
  · rw [hlocation]
    rfl

/-- What is known of the document that a text is read into. -/
theorem exists_read_of_map {α : Type} {path : FilePath} {text : String} {g : Document → α} {a : α}
    (h : (Markup.read path text).toOption.map g = some a) :
    ∃ d, Markup.read path text = .ok d ∧ g d = a := by
  cases hread : Markup.read path text with
  | error stop =>
      rw [hread] at h
      cases h
  | ok d =>
      rw [hread] at h
      exact ⟨d, rfl, Option.some.inj h⟩

/-- A list with a comment before it and a bracket in a value. -/
def listText : String :=
  "<!-- all > --><list><item text='a>b' /></list>"

theorem elements_cover_tags_list :
    ∃ d, Markup.read ⟨"list.xml"⟩ listText = .ok d ∧
      d.elements.toList.map (fun e => (e.location.startByte, e.location.endByte)) =
        [(14, 20), (20, 39)] ∧
      ((∀ e ∈ d.elements.toList, ∃ raw, e.location.Covers (unmarked listText.toList) raw ∧
          e.IsWrittenBy raw ∧ ∃ rest, raw = '<' :: e.tag.toList ++ rest ++ ['>']) ∧
        (d.elements.toList.map (·.location.startByte)).Pairwise (· < ·)) := by
  obtain ⟨d, hread, hranges⟩ := exists_read_of_map
    (show (Markup.read ⟨"list.xml"⟩ listText).toOption.map
        (·.elements.toList.map fun e => (e.location.startByte, e.location.endByte)) =
      some [(14, 20), (20, 39)] by decide +kernel)
  exact ⟨d, hread, hranges, elements_cover_tags hread⟩

/-- A document behind a mark of byte order. -/
def markedText : String :=
  "\uFEFF<a/>"

/-- The range of the element holds the mark and the first bracket, no tag. -/
theorem marked_range_holds_no_tag :
    ∃ d, Markup.read ⟨"res/layout/a.xml"⟩ markedText = .ok d ∧ ∃ e ∈ d.elements.toList,
      ¬ ∃ raw, e.location.Covers markedText.toList raw ∧ raw.head? = some '<' := by
  obtain ⟨d, hread, hranges⟩ := exists_read_of_map
    (show (Markup.read ⟨"res/layout/a.xml"⟩ markedText).toOption.map
        (·.elements.toList.map fun e => (e.location.startByte, e.location.endByte)) =
      some [(0, 4)] by decide +kernel)
  obtain ⟨e, helements, hrange⟩ := List.map_eq_singleton_iff.mp hranges
  obtain ⟨hstart, -⟩ := Prod.mk.inj hrange
  refine ⟨d, hread, e, helements ▸ List.mem_singleton.mpr rfl, ?_⟩
  rintro ⟨raw, ⟨front, back, htext, hfront, -⟩, hraw⟩
  -- nothing stands before the range, so it begins with the mark
  have hnil : front = [] := by
    by_contra nonempty
    have := Text.byteCount_pos nonempty
    omega
  have hmark : markedText.toList.head? = some '\uFEFF' := by decide +kernel
  rw [htext, hnil, List.nil_append, List.head?_append, hraw, Option.some_or] at hmark
  exact absurd hmark (by decide)

end AndroidLint
