/-
Resume — reading goes on from wherever it stands.

`resume` reads a text from a progress that has been made.  It takes one
piece at a time (`resume_piece`), so what is known about a part of a text
can be said of whatever follows it: `Passes s cs p q` says that reading
gets from `p` to `q` over `cs`, with any text behind.  Parts are then put
together by `Passes.append`.

A piece of running text goes on as far as it can, so where text follows
text the pieces of the whole are not those of its parts.  The progress is
the same nevertheless, and text is passed character by character.
-/
import AndroidLint.Markup.Reader
import AndroidLint.Proofs.Markup.Tag

namespace AndroidLint

namespace Markup

open Text (byteCount)

/-- What has been read after some more text. -/
def Source.resume (s : Source) (p : Progress) (cs : List Char) : Except Malformed Progress := do
  let q ← (lexemes cs).1.foldlM (Progress.next s) p
  match (lexemes cs).2 with
  | none => .ok q
  | some stop => .error { stop with position := q.offset + stop.position }

/-- `Passes s cs p q`: reading gets from `p` to `q` over `cs`. -/
def Passes (s : Source) (cs : List Char) (p q : Progress) : Prop :=
  ∀ rest, s.resume p (cs ++ rest) = s.resume q rest

section Resume

variable {s : Source} {p q : Progress}

theorem progress_eq_resume (s : Source) :
    s.progress = s.resume ⟨0, .empty s.path, []⟩ (unmarked s.text) :=
  rfl

theorem resume_nil (s : Source) (p : Progress) : s.resume p [] = .ok p := by
  rw [Source.resume, lexemes]
  rfl

/-- One piece is taken, then the rest is read. -/
theorem resume_piece {c : Char} {r : List Char} {kind : Kind} {n : Nat}
    (h : scan c r = .ok (kind, n)) (p : Progress) :
    s.resume p (c :: r) =
      p.next s ⟨kind, c :: r.take n⟩ >>= fun q => s.resume q (r.drop n) := by
  rw [Source.resume, lexemes, h]
  simp only [List.foldlM_cons, bind_assoc]
  rfl

/-- A piece of which the extent is known is taken, then what follows it is
read. -/
theorem resume_append {c : Char} {inner rest : List Char} {kind : Kind}
    (h : scan c (inner ++ rest) = .ok (kind, inner.length)) (p : Progress) :
    s.resume p (c :: inner ++ rest) =
      p.next s ⟨kind, c :: inner⟩ >>= fun q => s.resume q rest := by
  rw [List.cons_append, resume_piece h, List.take_left, List.drop_left]

theorem Passes.nil (s : Source) (p : Progress) : Passes s [] p p :=
  fun _ => rfl

theorem Passes.append {cs ds : List Char} {m : Progress} (first : Passes s cs p m)
    (second : Passes s ds m q) : Passes s (cs ++ ds) p q := by
  intro rest
  rw [List.append_assoc, first, second]

theorem Passes.piece {c : Char} {inner : List Char} {kind : Kind}
    (h : ∀ rest, scan c (inner ++ rest) = .ok (kind, inner.length))
    (step : p.next s ⟨kind, c :: inner⟩ = .ok q) : Passes s (c :: inner) p q := by
  intro rest
  rw [resume_append (h rest), step]
  rfl

theorem resume_of_passes {cs : List Char} (passes : Passes s cs p q) :
    s.resume p cs = .ok q := by
  have h := passes []
  rwa [List.append_nil, resume_nil] at h

/-! ## Text and comments -/

theorem scan_text {c : Char} (noTag : c ≠ '<') (noReference : c ≠ '&') (r : List Char) :
    scan c r = .ok (.passage, (r.takeWhile isText).length) := by
  rw [scan, if_neg (by simpa using noTag), if_neg (by simpa using noReference)]

theorem Passes.text {c : Char} (noTag : c ≠ '<') (noReference : c ≠ '&') (p : Progress) :
    Passes s [c] p { p with offset := p.offset + c.utf8Size } := by
  intro rest
  rw [List.singleton_append, resume_piece (scan_text noTag noReference rest)]
  simp only [Progress.next, bind, Except.bind]
  cases rest with
  | nil => simp [byteCount]
  | cons d r =>
      by_cases hd : isText d = true
      · -- the next character belongs to the same piece
        have hmarks : d ≠ '<' ∧ d ≠ '&' := by simpa [isText] using hd
        rw [resume_piece (scan_text hmarks.1 hmarks.2 r), List.takeWhile_cons_of_pos hd]
        simp only [Progress.next, bind, Except.bind, List.length_cons, List.take_succ_cons,
          List.drop_succ_cons]
        congr 2
        simp only [byteCount, List.foldr_cons]
        omega
      · rw [List.takeWhile_cons_of_neg hd]
        simp [byteCount]

/-- A piece that ends at a bracket ends at the first one before which it
may. -/
theorem lengthUntil_eq {ends : List Char → Bool} {cs : List Char} (rest : List Char) :
    ∀ before, ends (cs.reverse ++ before) = true →
      (∀ a b, cs = a ++ '>' :: b → ends (a.reverse ++ before) = false) →
        lengthUntil ends before (cs ++ '>' :: rest) = some (before.length + cs.length) := by
  induction cs with
  | nil =>
      intro before last _
      have hends : ends before = true := last
      rw [List.nil_append, lengthUntil, hends]
      rfl
  | cons c cs ih =>
      intro before last early
      have hgo : (c == '>' && ends before) = false := by
        rw [Bool.and_eq_false_iff, beq_eq_false_iff_ne]
        by_cases hc : c = '>'
        · exact .inr (early [] cs (by rw [hc, List.nil_append]))
        · exact .inl hc
      have hcs : (c :: cs).reverse ++ before = cs.reverse ++ c :: before := by simp
      rw [hcs] at last
      rw [List.cons_append, lengthUntil, if_neg (by simp [hgo]), ih (c :: before) last]
      · simp only [List.length_cons]
        congr 1
        omega
      · intro a b split
        have h := early (c :: a) b (by rw [split, List.cons_append])
        simpa using h

theorem endsComment_eq_true_iff {before : List Char} :
    endsComment before = true ↔ ∃ r, before = '-' :: '-' :: r ∧ 2 ≤ r.length := by
  rw [endsComment, Bool.and_eq_true, decide_eq_true_iff, List.isPrefixOf_iff_prefix]
  constructor
  · rintro ⟨long, r, rfl⟩
    exact ⟨r, rfl, by simpa using long⟩
  · rintro ⟨r, rfl, long⟩
    exact ⟨by simpa using long, ⟨r, rfl⟩⟩

/-- No bracket in a comment ends it: with the two hyphens before it, it
would be a mark in the comment's text. -/
theorem endsComment_early {inner a b : List Char} (isText : IsCommentText inner)
    (split : '-' :: '-' :: inner ++ ['-', '-'] = a ++ '>' :: b) :
    endsComment a.reverse = false := by
  by_contra ends
  rw [Bool.not_eq_false, endsComment_eq_true_iff] at ends
  obtain ⟨r, hr, long⟩ := ends
  have ha : a = r.reverse ++ ['-', '-'] := by
    rw [← List.reverse_reverse a, hr]
    simp
  -- the two hyphens that open the comment are not those before the bracket
  obtain ⟨x, y, front, hfront⟩ : ∃ x y front, r.reverse = x :: y :: front := by
    rw [← List.length_reverse] at long
    match r.reverse, long with
    | x :: y :: front, _ => exact ⟨x, y, front, rfl⟩
  have hinner : inner ++ ['-', '-'] = front ++ ['-', '-', '>'] ++ b := by
    rw [ha, hfront] at split
    simpa using (List.cons.inj (List.cons.inj split).2).2
  -- nor is the bracket one of the two hyphens that close it
  obtain ⟨closing, hmark, hclosing⟩ | ⟨back, hback, -⟩ := List.append_eq_append_iff.mp hinner
  · obtain rfl | nonempty := eq_or_ne closing []
    · exact isText ⟨front, [], by simpa using hmark⟩
    · have last : closing.getLast? = some '>' := by
        rw [← List.getLast?_append_of_ne_nil inner nonempty, ← hmark]
        simp
      have mem : '>' ∈ ['-', '-'] := by
        rw [hclosing]
        exact List.mem_append_left b (List.mem_of_getLast? last)
      exact absurd mem (by decide)
  · exact isText ⟨front, back, hback.symm⟩

theorem scan_comment {inner : List Char} (isText : IsCommentText inner) (rest : List Char) :
    scan '<' ('!' :: '-' :: '-' :: inner ++ ['-', '-', '>'] ++ rest) =
      .ok (.passage, ('!' :: '-' :: '-' :: inner ++ ['-', '-', '>']).length) := by
  have hends : endsComment (('-' :: '-' :: inner ++ ['-', '-']).reverse ++ []) = true :=
    endsComment_eq_true_iff.mpr ⟨inner.reverse ++ ['-', '-'], by simp, by simp⟩
  have hlength : lengthUntil endsComment [] ('-' :: '-' :: inner ++ ['-', '-'] ++ '>' :: rest) =
      some (inner.length + 4) := by
    rw [lengthUntil_eq rest [] hends fun a b split => by
      rw [List.append_nil]
      exact endsComment_early isText split]
    simp
  have hcs : '!' :: '-' :: '-' :: inner ++ ['-', '-', '>'] ++ rest =
      '!' :: ('-' :: '-' :: inner ++ ['-', '-'] ++ '>' :: rest) := by
    simp
  rw [hcs]
  show passage true .unclosedComment 1 _ (lengthUntil endsComment [] _) = _
  rw [hlength, passage, if_pos rfl]
  simp only [List.length_append, List.length_cons, List.length_nil]
  congr 2
  omega

theorem Passes.comment {inner : List Char} (isText : IsCommentText inner) (p : Progress) :
    ∃ q, Passes s ('<' :: '!' :: '-' :: '-' :: inner ++ ['-', '-', '>']) p q ∧
      q.document = p.document ∧ q.opened = p.opened :=
  ⟨_, .piece (scan_comment isText) rfl, rfl, rfl⟩

/-! ## Tags -/

/-- What begins with a character of names is an opening tag, up to the
bracket after what is inert. -/
theorem scan_opening {c : Char} {r : List Char} (part : isNamePart c = true)
    (inert : Inert (c :: r)) (rest : List Char) :
    scan '<' (c :: r ++ ['>'] ++ rest) = .ok (tagKind (c :: r), (c :: r ++ ['>']).length) := by
  have hlength : tagLength none (c :: (r ++ '>' :: rest)) = some (c :: r).length :=
    tagLength_inert inert rest
  have htake : (c :: (r ++ '>' :: rest)).take (c :: r).length = c :: r := List.take_left
  have hmarks := not_mem_marks part
  simp only [List.mem_cons, not_or] at hmarks
  obtain ⟨-, -, -, -, -, noSlash, noBang, noQuestion, -⟩ := hmarks
  rw [List.append_assoc]
  show scanMarkup (c :: (r ++ '>' :: rest)) = _
  rw [scanMarkup, hlength]
  · simp only [htake, List.length_append, List.length_singleton]
  · exact fun _ h => noBang (List.cons.inj h).1
  · exact fun _ h => noQuestion (List.cons.inj h).1
  · exact fun _ h => noSlash (List.cons.inj h).1

theorem scan_slash {cs : List Char} {n : Nat} (length : tagLength none cs = some n) :
    scan '<' ('/' :: cs) = .ok (.close (closingName (cs.take n)), n + 2) := by
  show scanMarkup ('/' :: cs) = _
  rw [scanMarkup, length]

theorem scan_closing {name : String} (isName : IsName name) {gap : List Char}
    (gapBlank : Blanks gap) (rest : List Char) :
    scan '<' ('/' :: name.toList ++ gap ++ ['>'] ++ rest) =
      .ok (.close name.toList, ('/' :: name.toList ++ gap ++ ['>']).length) := by
  have hlength := tagLength_inert ((Inert.name isName).append (.blanks gapBlank)) rest
  have hcs : '/' :: name.toList ++ gap ++ ['>'] ++ rest =
      '/' :: (name.toList ++ gap ++ '>' :: rest) := by
    simp
  rw [hcs, scan_slash hlength, List.take_left, closingName_written isName gapBlank]
  simp only [List.length_append, List.length_cons, List.length_nil]
  congr 2
  omega

end Resume

end Markup

end AndroidLint
