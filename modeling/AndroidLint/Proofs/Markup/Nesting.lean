/-
Nesting — which texts are read, and what is not asked of them.

`Forest n pieces` says that the tags among some pieces nest, every opening
tag closed by its own closing tag, with `n` outermost elements.  Reading
keeps the tags that are open; it gets through a forest and leaves them as
they were (`forest_run`).  Backwards, what is read to an empty end pays
what the open tags owe, innermost first (`owing_of_run`).

At the end of a text nobody looks whether tags are open.  So a text is
read if closing tags could still be added that make a forest of it, and
whether it is a whole document shows only in what is left open and in the
number of elements without a parent (`read_iff_completable`).
-/
import AndroidLint.Proofs.Markup.RoundTrip

namespace AndroidLint

namespace Markup

open Text (byteCount)

/-- `Forest n pieces`: the tags nest, with `n` elements outermost. -/
inductive Forest : Nat → List Lexeme → Prop
  | nil : Forest 0 []
  | passage {n : Nat} {raw : List Char} {ls : List Lexeme} (others : Forest n ls) :
      Forest n (⟨.passage, raw⟩ :: ls)
  | empty {n : Nat} {content raw : List Char} {ls : List Lexeme} (others : Forest n ls) :
      Forest (n + 1) (⟨.empty content, raw⟩ :: ls)
  | element {n m : Nat} {content raw raw' : List Char} {inner ls : List Lexeme}
      (inside : Forest m inner) (others : Forest n ls) :
      Forest (n + 1) (⟨.start content, raw⟩ :: inner ++ ⟨.close (tagName content), raw'⟩ :: ls)

/-- The attributes of an opening tag can be read; of other pieces nothing
is asked. -/
def Lexeme.Readable (l : Lexeme) : Prop :=
  match l.kind with
  | .start content | .empty content => ∃ pairs, attributes content = .ok pairs
  | .passage | .close _ => True

/-- The closing tag of a name. -/
def Lexeme.closing (name : List Char) : Lexeme :=
  ⟨.close name, '<' :: '/' :: name ++ ['>']⟩

/-- A text becomes a forest with some closing tags at its end. -/
def Completable (cs : List Char) : Prop :=
  (lexemes cs).2 = none ∧ (∀ l ∈ (lexemes cs).1, l.Readable) ∧
    ∃ (n : Nat) (names : List (List Char)), Forest n ((lexemes cs).1 ++ names.map .closing)

/-- A text is a forest, with one outermost element at most. -/
def Complete (cs : List Char) : Prop :=
  ∃ n ≤ 1, Forest n (lexemes cs).1

/-- The number of elements without a parent. -/
def Document.rootCount (d : Document) : Nat :=
  d.elements.toList.countP (·.parent.isNone)

/-! ## One piece -/

/-- What taking a piece does to the open tags and to the document. -/
def Taken (p q : Progress) : Kind → Prop
  | .passage => q.document = p.document ∧ q.opened = p.opened
  | .start content => ∃ pairs, attributes content = .ok pairs ∧
      q.opened = (p.document.elements.size, tagName content) :: p.opened ∧
      Gained p q (String.ofList (tagName content)) pairs
  | .empty content => ∃ pairs, attributes content = .ok pairs ∧ q.opened = p.opened ∧
      Gained p q (String.ofList (tagName content)) pairs
  | .close name => q.document = p.document ∧ ∃ i, p.opened = (i, name) :: q.opened

section Steps

variable {s : Source} {p q m : Progress} {l : Lexeme}

theorem add_eq_ok {raw content : List Char} {opens : Bool} (h : p.add s raw content opens = .ok q) :
    ∃ pairs, attributes content = .ok pairs ∧
      q.opened = (if opens then [(p.document.elements.size, tagName content)] else []) ++ p.opened ∧
      Gained p q (String.ofList (tagName content)) pairs := by
  cases hread : attributes content with
  | error fault =>
      rw [Progress.add, Source.element, hread] at h
      cases h
  | ok pairs =>
      obtain ⟨m, hadd, opened, gained⟩ := exists_add hread s p raw opens
      obtain rfl := Except.ok.inj (h.symm.trans hadd)
      exact ⟨pairs, rfl, opened, gained⟩

theorem taken_of_next (h : p.next s l = .ok q) : Taken p q l.kind := by
  obtain ⟨kind, raw⟩ := l
  cases kind with
  | passage =>
      obtain rfl := Except.ok.inj h
      exact ⟨rfl, rfl⟩
  | start content => exact add_eq_ok h
  | empty content => exact add_eq_ok h
  | close name =>
      simp only [Progress.next] at h
      split at h
      case h_1 => cases h
      case h_2 i expected opened hopened =>
        split at h
        case isTrue same =>
          obtain rfl := Except.ok.inj h
          exact ⟨rfl, i, by rw [hopened, same]⟩
        case isFalse => cases h

/-- Only an unreadable tag and a closing tag that is not due are refused. -/
theorem exists_next (readable : l.Readable)
    (due : ∀ name, l.kind = .close name → ∃ i opened, p.opened = (i, name) :: opened) :
    ∃ q, p.next s l = .ok q := by
  obtain ⟨kind, raw⟩ := l
  cases kind with
  | passage => exact ⟨_, rfl⟩
  | start content =>
      obtain ⟨pairs, hread⟩ := readable
      obtain ⟨q, hadd, -⟩ := exists_add hread s p raw true
      exact ⟨q, hadd⟩
  | empty content =>
      obtain ⟨pairs, hread⟩ := readable
      obtain ⟨q, hadd, -⟩ := exists_add hread s p raw false
      exact ⟨q, hadd⟩
  | close name =>
      obtain ⟨i, opened, hopened⟩ := due name rfl
      refine ⟨⟨p.offset + byteCount raw, p.document, opened⟩, ?_⟩
      simp only [Progress.next, hopened, if_true]

theorem Taken.readable (h : Taken p q l.kind) : l.Readable := by
  obtain ⟨kind, raw⟩ := l
  cases kind with
  | passage => exact trivial
  | start content =>
      obtain ⟨pairs, hread, -⟩ := h
      exact ⟨pairs, hread⟩
  | empty content =>
      obtain ⟨pairs, hread, -⟩ := h
      exact ⟨pairs, hread⟩
  | close name => exact trivial

theorem rootCount_eq (d : Document) : d.rootCount = d.entries.countP (·.parent.isNone) := by
  rw [Document.rootCount, Document.entries, List.countP_map]
  rfl

theorem countP_adopted (parent : Option Nat) (indexes : List Nat) (es : List Entry) :
    (adopted parent indexes es).countP (·.parent.isNone) = es.countP (·.parent.isNone) := by
  cases parent with
  | none => rfl
  | some i =>
      by_cases hi : i < es.length
      · obtain ⟨front, e, back, rfl, -, hmodify⟩ :=
          List.exists_of_modify (Entry.adopting indexes) hi
        rw [adopted, hmodify, List.countP_append, List.countP_append, List.countP_cons,
          List.countP_cons]
        rfl
      · rw [adopted, List.modify_eq_self (by omega)]

/-- A new element has no parent exactly if no tag is open. -/
theorem Gained.rootCount {tag : String} {pairs : List (String × String)}
    (gained : Gained p q tag pairs) :
    q.document.rootCount = p.document.rootCount + if p.opened = [] then 1 else 0 := by
  rw [rootCount_eq, rootCount_eq, gained.entries, List.countP_append, countP_adopted,
    List.countP_singleton, Progress.parent?]
  cases p.opened <;> rfl

end Steps

/-! ## Many pieces -/

section Runs

variable {s : Source} {p q : Progress} {ls : List Lexeme}

theorem foldlM_cons_eq_ok {l : Lexeme} (h : (l :: ls).foldlM (Progress.next s) p = .ok q) :
    ∃ m, p.next s l = .ok m ∧ ls.foldlM (Progress.next s) m = .ok q := by
  rw [List.foldlM_cons] at h
  cases hnext : p.next s l with
  | error stop =>
      rw [hnext] at h
      cases h
  | ok m =>
      rw [hnext] at h
      exact ⟨m, rfl, h⟩

theorem foldlM_cons_of_next {l : Lexeme} {m : Progress} (next : p.next s l = .ok m) :
    (l :: ls).foldlM (Progress.next s) p = ls.foldlM (Progress.next s) m := by
  rw [List.foldlM_cons, next]
  rfl

theorem readable_of_run (h : ls.foldlM (Progress.next s) p = .ok q) : ∀ l ∈ ls, l.Readable := by
  induction ls generalizing p with
  | nil => exact fun l mem => absurd mem List.not_mem_nil
  | cons l ls ih =>
      obtain ⟨m, next, run⟩ := foldlM_cons_eq_ok h
      exact List.forall_mem_cons.mpr ⟨(taken_of_next next).readable, ih run⟩

/-- Reading gets through a forest: what was open is open, and the outermost
elements are without a parent if nothing was. -/
theorem forest_run {n : Nat} (forest : Forest n ls) (readable : ∀ l ∈ ls, l.Readable)
    (p : Progress) :
    ∃ q, ls.foldlM (Progress.next s) p = .ok q ∧ q.opened = p.opened ∧
      q.document.rootCount = p.document.rootCount + if p.opened = [] then n else 0 := by
  induction forest generalizing p with
  | nil => exact ⟨p, rfl, rfl, by simp⟩
  | @passage n raw ls _ ih =>
      obtain ⟨first, others⟩ := List.forall_mem_cons.mp readable
      obtain ⟨m, next⟩ := exists_next (s := s) (p := p) first (fun name h => by cases h)
      obtain ⟨document, opened⟩ := taken_of_next next
      obtain ⟨q, run, hopened, count⟩ := ih others m
      refine ⟨q, (foldlM_cons_of_next next).trans run, hopened.trans opened, ?_⟩
      rw [count, document, opened]
  | @empty n content raw ls _ ih =>
      obtain ⟨first, others⟩ := List.forall_mem_cons.mp readable
      obtain ⟨m, next⟩ := exists_next (s := s) (p := p) first (fun name h => by cases h)
      obtain ⟨pairs, -, opened, gained⟩ := taken_of_next next
      obtain ⟨q, run, hopened, count⟩ := ih others m
      refine ⟨q, (foldlM_cons_of_next next).trans run, hopened.trans opened, ?_⟩
      rw [count, gained.rootCount, opened]
      split <;> omega
  | @element n k content raw raw' inner ls _ _ ihInside ihOthers =>
      obtain ⟨first, others⟩ := List.forall_mem_cons.mp readable
      obtain ⟨inside, closeAndOthers⟩ := List.forall_mem_append.mp others
      obtain ⟨close, others⟩ := List.forall_mem_cons.mp closeAndOthers
      obtain ⟨m, next⟩ := exists_next (s := s) (p := p) first (fun name h => by cases h)
      obtain ⟨pairs, -, opened, gained⟩ := taken_of_next next
      obtain ⟨r, run, hopened, count⟩ := ihInside inside m
      -- the innermost open tag is again the one that was opened
      rw [opened] at hopened
      obtain ⟨t, nextClose⟩ := exists_next (s := s) (p := r) close fun name h => by
        obtain rfl := Kind.close.inj h
        exact ⟨_, _, hopened⟩
      obtain ⟨document, i, hclosed⟩ := taken_of_next nextClose
      have closed : t.opened = p.opened := (List.cons.inj (hclosed.symm.trans hopened)).2
      obtain ⟨q, runOthers, hq, countOthers⟩ := ihOthers others t
      refine ⟨q, ?_, hq.trans closed, ?_⟩
      · rw [List.cons_append, foldlM_cons_of_next next, List.foldlM_append, run]
        exact (foldlM_cons_of_next nextClose).trans runOthers
      · rw [countOthers, document, count, closed, gained.rootCount, opened,
          if_neg (List.cons_ne_nil _ _)]
        split <;> omega

/-- What is left of some pieces for open tags, innermost first: a forest
and the closing tag for each of them, and a forest after the last. -/
def Owing : List (List Char) → List Lexeme → Prop
  | [], ls => ∃ n, Forest n ls
  | name :: names, ls => ∃ n inner raw rest, Forest n inner ∧ Owing names rest ∧
      ls = inner ++ ⟨.close name, raw⟩ :: rest

/-- What can stand before a forest can stand before what is owed. -/
theorem Owing.prepend {names : List (List Char)} (front : List Lexeme)
    (grow : ∀ n ls, Forest n ls → ∃ k, Forest k (front ++ ls)) (owing : Owing names ls) :
    Owing names (front ++ ls) := by
  cases names with
  | nil =>
      obtain ⟨n, forest⟩ := owing
      exact grow n ls forest
  | cons name names =>
      obtain ⟨n, inner, raw, rest, forest, others, rfl⟩ := owing
      obtain ⟨k, grown⟩ := grow n inner forest
      exact ⟨k, front ++ inner, raw, rest, grown, others, (List.append_assoc _ _ _).symm⟩

/-- What is read until no tag is open is what the open tags owed. -/
theorem owing_of_run (h : ls.foldlM (Progress.next s) p = .ok q) (closed : q.opened = []) :
    Owing (p.opened.map Prod.snd) ls := by
  induction ls generalizing p with
  | nil =>
      obtain rfl := Except.ok.inj h
      rw [closed]
      exact ⟨0, .nil⟩
  | cons l ls ih =>
      obtain ⟨m, next, run⟩ := foldlM_cons_eq_ok h
      have owing := ih run
      have taken := taken_of_next next
      obtain ⟨kind, raw⟩ := l
      cases kind with
      | passage =>
          obtain ⟨-, opened⟩ := taken
          rw [opened] at owing
          exact owing.prepend [_] fun n _ forest => ⟨n, forest.passage⟩
      | empty content =>
          obtain ⟨pairs, -, opened, -⟩ := taken
          rw [opened] at owing
          exact owing.prepend [_] fun n _ forest => ⟨n + 1, forest.empty⟩
      | start content =>
          obtain ⟨pairs, -, opened, -⟩ := taken
          rw [opened, List.map_cons] at owing
          obtain ⟨n, inner, raw', rest, inside, others, rfl⟩ := owing
          have hls : (⟨.start content, raw⟩ :: (inner ++ ⟨.close (tagName content), raw'⟩ :: rest) :
              List Lexeme) =
            (⟨.start content, raw⟩ :: inner ++ [⟨.close (tagName content), raw'⟩]) ++ rest := by
            simp
          rw [hls]
          refine others.prepend _ fun k _ forest => ⟨k + 1, ?_⟩
          simpa using Forest.element inside forest
      | close name =>
          obtain ⟨-, i, opened⟩ := taken
          rw [opened]
          exact ⟨0, [], raw, ls, .nil, owing, rfl⟩

/-- The tags that are open can be closed. -/
theorem exists_closed (s : Source) (p : Progress) :
    ∃ q, (p.opened.map fun o => Lexeme.closing o.2).foldlM (Progress.next s) p = .ok q ∧
      q.opened = [] := by
  induction hopened : p.opened generalizing p with
  | nil => exact ⟨p, rfl, hopened⟩
  | cons o opened ih =>
      obtain ⟨m, next⟩ := exists_next (s := s) (p := p) (l := .closing o.2) trivial
        fun name h => by
          obtain rfl := Kind.close.inj h
          exact ⟨_, _, hopened⟩
      obtain ⟨-, i, hclosed⟩ := taken_of_next next
      have closed : m.opened = opened := (List.cons.inj (hclosed.symm.trans hopened)).2
      obtain ⟨q, run, hq⟩ := ih m closed
      exact ⟨q, (foldlM_cons_of_next next).trans run, hq⟩

end Runs

/-! ## Whole texts -/

/-- A text of which nothing has been read. -/
def Source.begun (s : Source) : Progress :=
  ⟨0, .empty s.path, []⟩

section Texts

variable {s : Source} {p : Progress}

theorem progress_eq_ok_iff :
    s.progress = .ok p ↔ (lexemes (unmarked s.text)).2 = none ∧
      (lexemes (unmarked s.text)).1.foldlM (Progress.next s) s.begun = .ok p := by
  rw [Source.progress, Source.begun]
  obtain ⟨ls, stop?⟩ := lexemes (unmarked s.text)
  simp only
  cases ls.foldlM (Progress.next s) ⟨0, .empty s.path, []⟩ with
  | error stop => cases stop? <;> simp [bind, Except.bind]
  | ok q => cases stop? <;> simp [bind, Except.bind]

theorem isOk_progress_iff :
    (∃ p, s.progress = .ok p) ↔ Completable (unmarked s.text) := by
  constructor
  · rintro ⟨p, progress⟩
    obtain ⟨last, run⟩ := progress_eq_ok_iff.mp progress
    obtain ⟨q, closing, closed⟩ := exists_closed s p
    have whole : ((lexemes (unmarked s.text)).1 ++ p.opened.map fun o => Lexeme.closing o.2).foldlM
        (Progress.next s) s.begun = .ok q := by
      rw [List.foldlM_append, run]
      exact closing
    obtain ⟨n, forest⟩ := owing_of_run whole closed
    refine ⟨last, readable_of_run run, n, p.opened.map Prod.snd, ?_⟩
    rw [List.map_map]
    exact forest
  · rintro ⟨last, readable, n, names, forest⟩
    have all : ∀ l ∈ (lexemes (unmarked s.text)).1 ++ names.map .closing, l.Readable := by
      refine List.forall_mem_append.mpr ⟨readable, fun l mem => ?_⟩
      obtain ⟨name, -, rfl⟩ := List.mem_map.mp mem
      exact trivial
    obtain ⟨q, run, -⟩ := forest_run (s := s) forest all s.begun
    rw [List.foldlM_append] at run
    cases front : (lexemes (unmarked s.text)).1.foldlM (Progress.next s) s.begun with
    | error stop =>
        rw [front] at run
        cases run
    | ok p => exact ⟨p, progress_eq_ok_iff.mpr ⟨last, front⟩⟩

theorem closed_iff_complete (progress : s.progress = .ok p) :
    p.opened = [] ∧ p.document.rootCount ≤ 1 ↔ Complete (unmarked s.text) := by
  obtain ⟨-, run⟩ := progress_eq_ok_iff.mp progress
  -- a forest has as many outermost elements as there are without a parent
  have counted : ∀ n, Forest n (lexemes (unmarked s.text)).1 →
      p.opened = [] ∧ p.document.rootCount = n := by
    intro n forest
    obtain ⟨q, run', closed, count⟩ := forest_run forest (readable_of_run run) s.begun
    obtain rfl := Except.ok.inj (run.symm.trans run')
    refine ⟨closed, count.trans ?_⟩
    simp [Source.begun, Document.empty, Document.rootCount]
  constructor
  · rintro ⟨closed, few⟩
    obtain ⟨n, forest⟩ := owing_of_run run closed
    exact ⟨n, (counted n forest).2 ▸ few, forest⟩
  · rintro ⟨n, few, forest⟩
    obtain ⟨closed, count⟩ := counted n forest
    exact ⟨closed, count ▸ few⟩

end Texts

theorem isOk_read_iff {path : FilePath} {text : String} :
    (∃ d, Markup.read path text = .ok d) ↔ ∃ p, Source.progress ⟨path, text.toList⟩ = .ok p := by
  rw [Markup.read]
  cases Source.progress ⟨path, text.toList⟩ with
  | error stop => simp [Except.map]
  | ok p => simp [Except.map]

end Markup

open Markup

/-- **A text is read if it can be completed.** Nothing else is asked than
that its tags are readable and that closing tags could be added for those
left open; a text that is read is a complete document exactly if none is
left open and at most one element is without a parent. -/
theorem read_iff_completable (path : FilePath) (text : String) :
    ((∃ d, Markup.read path text = .ok d) ↔ Completable (unmarked text.toList)) ∧
      ∀ p, Source.progress ⟨path, text.toList⟩ = .ok p →
        (p.opened = [] ∧ p.document.rootCount ≤ 1 ↔ Complete (unmarked text.toList)) :=
  ⟨isOk_read_iff.trans isOk_progress_iff, fun _ progress => closed_iff_complete progress⟩

/-- A layout cut off after its second start tag. -/
def cutOff : String :=
  "<LinearLayout><View>"

/-- The layout is read, and two elements are left open. -/
theorem read_cutOff :
    (∃ d, Markup.read ⟨"res/layout/a.xml"⟩ cutOff = .ok d) ∧
      ∃ p, Source.progress ⟨⟨"res/layout/a.xml"⟩, cutOff.toList⟩ = .ok p ∧
        p.opened.length = 2 := by
  have hopened : (Source.progress ⟨⟨"res/layout/a.xml"⟩, cutOff.toList⟩).toOption.map
      (·.opened.length) = some 2 := by
    decide +kernel
  cases hprogress : Source.progress ⟨⟨"res/layout/a.xml"⟩, cutOff.toList⟩ with
  | error stop =>
      rw [hprogress] at hopened
      cases hopened
  | ok p =>
      rw [hprogress] at hopened
      exact ⟨isOk_read_iff.mpr ⟨p, hprogress⟩, p, rfl, Option.some.inj hopened⟩

end AndroidLint
