/-
Layout — how a text is made of blanks, comments and tokens.

Cut after cut lays out the whole text (`layout_lexWithin`), and each token and
comment is at the bytes that its characters take.  What is known of a single
cut (`IsCut`) thereby becomes a statement about the text: small letters in a row
are in one token or comment, wherever they stand (`Layout.exists_span`).

A layout is one of the text with the backquote that a name at its end may lack.
-/
import AndroidLint.Proofs.Syntax.Cut

namespace AndroidLint

namespace Syntax

open Text (byteCount byteCount_append)

/-! ## Layouts -/

/-- The lexer goes on behind what a cut takes. -/
theorem lexWithin_cons (s : Spelling) (fuel : Nat) (modes : List Mode) (start : Nat) (gap : Gap)
    (c : Char) (r : List Char) :
    lexWithin s (fuel + 1) modes start gap (c :: r) =
      match cut s modes c r with
      | (.blank, taken) =>
          lexWithin s fuel modes (start + byteCount taken) (gap.widen taken)
            ((c :: r).drop taken.length)
      | (.comment, taken) =>
          let l := lexWithin s fuel modes (start + byteCount taken) .blank
            ((c :: r).drop taken.length)
          ⟨l.tokens, ⟨start, start + byteCount taken⟩ :: l.comments⟩
      | (.token cls, taken) =>
          let text := String.ofList taken
          let l := lexWithin s fuel (Mode.after modes cls text) (start + byteCount taken) .none
            ((c :: r).drop taken.length)
          ⟨⟨cls, text, ⟨start, start + byteCount taken⟩, gap, modes.head? == some .brackets⟩
            :: l.tokens, l.comments⟩ := by
  refine (lexWithin.eq_def s (fuel + 1) modes start gap (c :: r)).trans ?_
  obtain _ | ⟨_ | _ | isRaw, modes⟩ := modes
  case cons.string =>
    dsimp only [cut]
    obtain ⟨_ | _ | _, _⟩ := cutString isRaw (c :: r) <;> rfl
  all_goals
    dsimp only [cut]
    obtain ⟨_ | _ | _, _⟩ := cutCode s c r <;> rfl

/-- `Layout start cs l`: from byte `start` on, the text is blanks and the tokens
and comments of `l`, each apart from what follows it. -/
inductive Layout : Nat → List Char → Lexed → Prop where
  | nil {start : Nat} : Layout start [] ⟨[], []⟩
  | blank {start : Nat} {b rest : List Char} {l : Lexed} (apart : Apart b rest)
      (blanks : ∀ c ∈ b, Text.isBlank c = true) (others : Layout (start + byteCount b) rest l) :
      Layout start (b ++ rest) l
  | comment {start : Nat} {b rest : List Char} {l : Lexed} (some : b ≠ []) (apart : Apart b rest)
      (others : Layout (start + byteCount b) rest l) :
      Layout start (b ++ rest) ⟨l.tokens, ⟨start, start + byteCount b⟩ :: l.comments⟩
  | token {start : Nat} {b rest : List Char} {l : Lexed} {t : Token} (some : b ≠ [])
      (apart : Apart b rest) (place : t.span = ⟨start, start + byteCount b⟩)
      (word : t.cls = .word → ∀ c ∈ b, Text.isBlank c = false)
      (others : Layout (start + byteCount b) rest l) :
      Layout start (b ++ rest) ⟨t :: l.tokens, l.comments⟩

/-- What is cut apart from a text is apart from what goes on behind it. -/
theorem Apart.append {front back extra : List Char} (apart : Apart front back)
    (ends : back = [] → extra = []) : Apart front (back ++ extra) := by
  cases back with
  | nil => rwa [ends rfl]
  | cons d back => exact apart

/-- What one cut takes, and what is left of the text with what may have been
taken beyond it. -/
theorem IsCut.split {cs : List Char} {piece : Piece} {taken : List Char}
    (cut : IsCut cs piece taken) {extra : List Char}
    (ends : cs.drop taken.length = [] → extra = []) :
    ∃ more, cs ++ more = taken ++ (cs.drop taken.length ++ extra) ∧
      Apart taken (cs.drop taken.length ++ extra) := by
  obtain ⟨rest, rfl, apart⟩ | ⟨more, rfl⟩ := cut.stops
  · rw [List.drop_left] at ends ⊢
    exact ⟨extra, List.append_assoc _ _ _, apart.append ends⟩
  · have none : cs.drop (cs ++ more).length = [] := List.drop_eq_nil_of_le (by simp)
    rw [none, ends none]
    exact ⟨more, by simp, .inl nofun⟩

/-- **The lexer lays out a text.**  Its tokens and comments, with blanks between
them, are the whole text in order, unless the last of them has more characters
than the text. -/
theorem layout_lexWithin {s : Spelling} (symbolic : s.IsSymbolic) {fuel : Nat} (modes : List Mode)
    (start : Nat) (gap : Gap) {cs : List Char} (enough : cs.length ≤ fuel) :
    ∃ extra, Layout start (cs ++ extra) (lexWithin s fuel modes start gap cs) ∧
      (cs = [] → extra = []) := by
  induction fuel generalizing modes start gap cs with
  | zero =>
      obtain rfl := List.eq_nil_of_length_eq_zero (Nat.le_zero.mp enough)
      exact ⟨[], .nil, fun _ => rfl⟩
  | succ fuel ih =>
      cases cs with
      | nil => exact ⟨[], .nil, fun _ => rfl⟩
      | cons c r =>
          rw [lexWithin_cons]
          have taking := isCut_cut symbolic modes c r
          generalize cut s modes c r = taken at taking ⊢
          obtain ⟨piece, taken⟩ := taken
          have less : ((c :: r).drop taken.length).length ≤ fuel := by
            have some : 0 < taken.length := List.length_pos_iff.mpr taking.some
            rw [List.length_drop]
            omega
          cases piece with
          | blank =>
              obtain ⟨extra, others, ends⟩ :=
                ih modes (start + byteCount taken) (gap.widen taken) less
              obtain ⟨more, whole, apart⟩ := taking.split ends
              exact ⟨more, whole ▸ .blank apart (taking.blank rfl) others, nofun⟩
          | comment =>
              obtain ⟨extra, others, ends⟩ := ih modes (start + byteCount taken) .blank less
              obtain ⟨more, whole, apart⟩ := taking.split ends
              exact ⟨more, whole ▸ .comment taking.some apart others, nofun⟩
          | token cls =>
              obtain ⟨extra, others, ends⟩ := ih (Mode.after modes cls (String.ofList taken))
                (start + byteCount taken) .none less
              obtain ⟨more, whole, apart⟩ := taking.split ends
              refine ⟨more, whole ▸ .token taking.some apart rfl (fun word => ?_) others, nofun⟩
              exact taking.word (congrArg Piece.token word)

/-- A cut takes no more than there is, or leaves nothing. -/
theorem IsCut.bytes {cs : List Char} {piece : Piece} {taken : List Char}
    (cut : IsCut cs piece taken) (goes : cs.drop taken.length ≠ []) :
    byteCount taken + byteCount (cs.drop taken.length) = byteCount cs := by
  obtain ⟨rest, rfl, -⟩ | ⟨more, rfl⟩ := cut.stops
  · rw [List.drop_left, byteCount_append]
  · exact absurd (List.drop_eq_nil_of_le (by simp)) goes

theorem lexWithin_nil (s : Spelling) (fuel : Nat) (modes : List Mode) (start : Nat) (gap : Gap) :
    (lexWithin s fuel modes start gap []).tokens = [] := by
  cases fuel <;> rfl

/-- Only a name between backquotes may have more characters than the text. -/
theorem stop_le_of_mem_lexWithin {s : Spelling} (symbolic : s.IsSymbolic) {fuel : Nat}
    (modes : List Mode) (start : Nat) (gap : Gap) (cs : List Char) :
    ∀ t ∈ (lexWithin s fuel modes start gap cs).tokens, t.cls ≠ .quotedName →
      t.span.stop ≤ start + byteCount cs := by
  induction fuel generalizing modes start gap cs with
  | zero => exact fun _ mem => by cases mem
  | succ fuel ih =>
      cases cs with
      | nil => exact fun _ mem => by cases mem
      | cons c r =>
          rw [lexWithin_cons]
          have taking := isCut_cut symbolic modes c r
          generalize cut s modes c r = taken at taking ⊢
          obtain ⟨piece, taken⟩ := taken
          -- what is left is cut in the same way, if something is
          have others (modes : List Mode) (gap : Gap) :
              ∀ t ∈ (lexWithin s fuel modes (start + byteCount taken) gap
                ((c :: r).drop taken.length)).tokens, t.cls ≠ .quotedName →
                t.span.stop ≤ start + byteCount (c :: r) := by
            intro t mem other
            have goes : (c :: r).drop taken.length ≠ [] := by
              intro none
              rw [none, lexWithin_nil] at mem
              cases mem
            have whole : byteCount taken + byteCount ((c :: r).drop taken.length) =
                byteCount (c :: r) := taking.bytes goes
            rw [← whole, ← Nat.add_assoc]
            exact ih modes (start + byteCount taken) gap _ t mem other
          cases piece with
          | blank => exact others modes (gap.widen taken)
          | comment => exact others modes .blank
          | token cls =>
              refine List.forall_mem_cons.mpr ⟨fun other => ?_, others _ .none⟩
              obtain ⟨rest, whole⟩ := taking.within fun same => other (Piece.token.inj same)
              rw [← whole, byteCount_append]
              exact Nat.add_le_add_left (Nat.le_add_right _ _) start

theorem interpreterLine_prefix (s : Spelling) (text : List Char) :
    interpreterLine s text <+: text := by
  rw [interpreterLine.eq_def]
  split
  case h_1 =>
    split
    · rw [List.cons_prefix_cons, List.cons_prefix_cons]
      exact ⟨rfl, rfl, List.takeWhile_prefix _⟩
    · exact List.nil_prefix
  case h_2 => exact List.nil_prefix

theorem opening_prefix (s : Spelling) (text : List Char) : opening s text <+: text := by
  rw [opening.eq_def]
  split
  case h_1 r =>
    have behind := interpreterLine_prefix s r
    exact (List.prefix_cons_inj _).mpr behind
  case h_2 => exact interpreterLine_prefix s _

/-- The lexer lays out a text behind what opens it. -/
theorem layout_lex {s : Spelling} (symbolic : s.IsSymbolic) (text : List Char) :
    ∃ front rest extra,
      text ++ extra = front ++ rest ∧ Layout (byteCount front) rest (lex s text) := by
  obtain ⟨rest, whole⟩ := opening_prefix s text
  have less : (text.drop (opening s text).length).length ≤ text.length + 1 := by
    rw [List.length_drop]
    omega
  obtain ⟨extra, layout, -⟩ := layout_lexWithin symbolic []
    (byteCount (opening s text)) .none less
  refine ⟨_, _, extra, ?_, layout⟩
  rw [← List.append_assoc, List.prefix_iff_eq_append.mp ⟨rest, whole⟩]

theorem stop_le_of_mem_lex {s : Spelling} (symbolic : s.IsSymbolic) (text : List Char) :
    ∀ t ∈ (lex s text).tokens, t.cls ≠ .quotedName → t.span.stop ≤ byteCount text := by
  intro t mem other
  have front := opening_prefix s text
  have whole := congrArg byteCount (List.prefix_iff_eq_append.mp front)
  rw [← whole, byteCount_append]
  exact stop_le_of_mem_lexWithin symbolic [] (byteCount (opening s text)) .none
    (text.drop (opening s text).length) t mem other

/-! ## Places -/

/-- Where the tokens and comments are. -/
def Lexed.spans (l : Lexed) : List Span :=
  l.tokens.map Token.span ++ l.comments

/-- One range ends before another begins. -/
def Span.Before (p q : Span) : Prop :=
  p.stop ≤ q.start

/-- Of two ranges, one ends before the other begins. -/
def Span.Disjoint (p q : Span) : Prop :=
  p.Before q ∨ q.Before p

section Places

variable {start : Nat} {cs : List Char} {l : Lexed}

theorem Layout.start_le (layout : Layout start cs l) :
    ∀ p ∈ l.spans, start ≤ p.start ∧ p.start < p.stop := by
  induction layout with
  | nil => exact fun _ mem => by cases mem
  | blank _ _ _ ih =>
      exact fun p mem => ⟨Nat.le_trans (Nat.le_add_right _ _) (ih p mem).1, (ih p mem).2⟩
  | comment some _ _ ih =>
      intro p mem
      obtain rfl | mem := List.mem_cons.mp (List.perm_middle.mem_iff.mp mem)
      · exact ⟨Nat.le_refl _, Nat.lt_add_of_pos_right (Text.byteCount_pos some)⟩
      · exact ⟨Nat.le_trans (Nat.le_add_right _ _) (ih p mem).1, (ih p mem).2⟩
  | token some _ place _ _ ih =>
      intro p mem
      obtain rfl | mem := List.mem_cons.mp mem
      · rw [place]
        exact ⟨Nat.le_refl _, Nat.lt_add_of_pos_right (Text.byteCount_pos some)⟩
      · exact ⟨Nat.le_trans (Nat.le_add_right _ _) (ih p mem).1, (ih p mem).2⟩

theorem Layout.tokens_sorted (layout : Layout start cs l) :
    (l.tokens.map Token.span).Pairwise Span.Before := by
  induction layout with
  | nil => exact .nil
  | blank _ _ _ ih | comment _ _ _ ih => exact ih
  | token _ _ place _ others ih =>
      refine List.pairwise_cons.mpr ⟨fun p mem => ?_, ih⟩
      rw [place]
      exact (others.start_le p (List.mem_append_left _ mem)).1

/-- No two tokens or comments share a byte. -/
theorem Layout.disjoint (layout : Layout start cs l) : l.spans.Pairwise Span.Disjoint := by
  induction layout with
  | nil => exact .nil
  | blank _ _ _ ih => exact ih
  | comment _ _ others ih =>
      refine (List.perm_middle.pairwise_iff fun sides => sides.symm).mpr ?_
      exact List.pairwise_cons.mpr ⟨fun p mem => .inl (others.start_le p mem).1, ih⟩
  | token _ _ place _ others ih =>
      refine List.pairwise_cons.mpr ⟨fun p mem => .inl ?_, ih⟩
      rw [place]
      exact (others.start_le p mem).1

/-- A token or comment is a part of the text. -/
theorem Layout.exists_piece (layout : Layout start cs l) : ∀ p ∈ l.spans, ∃ front b back,
    cs = front ++ (b ++ back) ∧ p.start = start + byteCount front ∧
      p.stop = start + byteCount front + byteCount b := by
  induction layout with
  | nil => exact fun _ mem => by cases mem
  | @blank start b rest l _ _ _ ih =>
      intro p mem
      obtain ⟨front, u, back, rfl, low, high⟩ := ih p mem
      exact ⟨b ++ front, u, back, by simp, by simp [low, Nat.add_assoc],
        by simp [high, Nat.add_assoc]⟩
  | @comment start b rest l _ _ _ ih =>
      intro p mem
      obtain rfl | mem := List.mem_cons.mp (List.perm_middle.mem_iff.mp mem)
      · exact ⟨[], b, rest, rfl, rfl, rfl⟩
      · obtain ⟨front, u, back, rfl, low, high⟩ := ih p mem
        exact ⟨b ++ front, u, back, by simp, by simp [low, Nat.add_assoc],
          by simp [high, Nat.add_assoc]⟩
  | @token start b rest l t _ _ place _ _ ih =>
      intro p mem
      obtain rfl | mem := List.mem_cons.mp mem
      · exact ⟨[], b, rest, rfl, by rw [place]; rfl, by rw [place]; rfl⟩
      · obtain ⟨front, u, back, rfl, low, high⟩ := ih p mem
        exact ⟨b ++ front, u, back, by simp, by simp [low, Nat.add_assoc],
          by simp [high, Nat.add_assoc]⟩

/-- A token that is a word stands in the text without blanks. -/
theorem Layout.exists_word (layout : Layout start cs l) :
    ∀ t ∈ l.tokens, t.cls = .word → ∃ front b back, cs = front ++ b ++ back ∧
      t.span = ⟨start + byteCount front, start + byteCount front + byteCount b⟩ ∧
      ∀ c ∈ b, Text.isBlank c = false := by
  induction layout with
  | nil => exact fun _ mem => by cases mem
  | @blank start b rest l _ _ _ ih | @comment start b rest l _ _ _ ih =>
      intro t mem word
      obtain ⟨front, u, back, rfl, place, plain⟩ := ih t mem word
      exact ⟨b ++ front, u, back, by simp, by simp [place, Nat.add_assoc], plain⟩
  | @token start b rest l t' _ _ place isWord _ ih =>
      intro t mem word
      obtain rfl | mem := List.mem_cons.mp mem
      · exact ⟨[], b, rest, rfl, place, isWord word⟩
      · obtain ⟨front, u, back, rfl, place, plain⟩ := ih t mem word
        exact ⟨b ++ front, u, back, by simp, by simp [place, Nat.add_assoc], plain⟩

/-- Small letters in a row are in what is cut apart, or in what follows. -/
theorem Apart.letters {b rest front w back : List Char} (apart : Apart b rest) (some : w ≠ [])
    (lower : ∀ c ∈ w, c.isLower = true) (whole : b ++ rest = front ++ (w ++ back)) :
    front ++ w <+: b ∨ ∃ front', front = b ++ front' ∧ rest = front' ++ (w ++ back) := by
  obtain ⟨front', rfl, rfl⟩ | ⟨w', rfl, cut⟩ := List.append_eq_append_iff.mp whole
  · exact .inr ⟨front', rfl, rfl⟩
  obtain ⟨more, rfl, -⟩ | ⟨more, rfl, rfl⟩ := List.append_eq_append_iff.mp cut
  · exact .inl ⟨more, by simp⟩
  -- the row would begin in what is cut off and end in what follows
  cases w' with
  | nil => exact .inr ⟨[], by simp, rfl⟩
  | cons c w' =>
      cases more with
      | nil => exact .inl ⟨[], by simp⟩
      | cons d more =>
          obtain next | ⟨e, last, plain⟩ := apart
          · have small := lower d (List.mem_append_right _ List.mem_cons_self)
            rw [next d rfl] at small
            cases small
          · rw [List.getLast?_append_cons] at last
            have small := lower e (List.mem_append_left _ (List.mem_of_getLast? last))
            rw [plain] at small
            cases small

/-- **Small letters in a row are in one token or comment.**  So a word is not
put together of the end of one and the beginning of another. -/
theorem Layout.exists_span (layout : Layout start cs l) {front w back : List Char}
    (whole : cs = front ++ (w ++ back)) (some : w ≠ []) (lower : ∀ c ∈ w, c.isLower = true) :
    ∃ p ∈ l.spans, p.start ≤ start + byteCount front ∧
      start + byteCount front + byteCount w ≤ p.stop := by
  induction layout generalizing front with
  | nil =>
      obtain ⟨rfl, -⟩ := List.append_eq_nil_iff.mp (List.append_eq_nil_iff.mp whole.symm).2
      exact absurd rfl some
  | blank apart blanks _ ih =>
      obtain ⟨more, rfl⟩ | ⟨front, rfl, rest⟩ := apart.letters some lower whole
      · obtain ⟨c, mem⟩ := List.exists_mem_of_ne_nil w some
        have plain := isLower_eq_false_of_isBlank (blanks c (by simp [mem]))
        rw [lower c mem] at plain
        cases plain
      · obtain ⟨p, mem, low, high⟩ := ih rest
        exact ⟨p, mem, by rw [byteCount_append]; omega, by rw [byteCount_append]; omega⟩
  | comment _ apart _ ih =>
      obtain ⟨more, rfl⟩ | ⟨front, rfl, rest⟩ := apart.letters some lower whole
      · refine ⟨_, List.mem_append_right _ List.mem_cons_self, Nat.le_add_right _ _, ?_⟩
        simp only [byteCount_append]
        omega
      · obtain ⟨p, mem, low, high⟩ := ih rest
        refine ⟨p, List.perm_middle.mem_iff.mpr (List.mem_cons_of_mem _ mem), ?_, ?_⟩
        · rw [byteCount_append]; omega
        · rw [byteCount_append]; omega
  | token _ apart place _ _ ih =>
      obtain ⟨more, rfl⟩ | ⟨front, rfl, rest⟩ := apart.letters some lower whole
      · refine ⟨_, List.mem_append_left _ List.mem_cons_self, ?_, ?_⟩
        · rw [place]
          exact Nat.le_add_right _ _
        · simp only [place, byteCount_append]
          omega
      · obtain ⟨p, mem, low, high⟩ := ih rest
        refine ⟨p, List.mem_cons_of_mem _ mem, ?_, ?_⟩
        · rw [byteCount_append]; omega
        · rw [byteCount_append]; omega

end Places

end Syntax

end AndroidLint
