/-
Quotes — what is left of a string literal without its quotes.

Quotes are taken off a literal in three goes, and none of them asks whether a quote
is one of the delimiters.  Together they take off all quotes at either end
(`unquote_eq_strip`), so quotes at the ends of the content go as well.  Between
three quotes a content may begin and end with quotes; between single ones it
cannot begin with one, and the one it may end with is escaped
(`IsText.getLast?_eq_quote_iff`).
-/
import AndroidLint.Code.Origin
import AndroidLint.Proofs.Text.Parts

namespace AndroidLint

namespace Code

open Text (strip Trimmed)

/-! ## What a string may hold -/

/-- A text that may stand between double quotes: what a backslash guards is part of
it whatever it is, as is the code of a template, and there is no other quote or
backslash. -/
inductive IsText : List Char → Prop where
  | nil : IsText []
  | plain {c : Char} {r : List Char} (noQuote : c ≠ '"') (noEscape : c ≠ '\\')
      (rest : IsText r) : IsText (c :: r)
  | escape {r : List Char} (c : Char) (rest : IsText r) : IsText ('\\' :: c :: r)
  | template {r : List Char} (code : List Char) (rest : IsText r) :
      IsText ('$' :: '\x7b' :: (code ++ '\x7d' :: r))

/-- A content between `n` quotes on each side. -/
def delimited (n : Nat) (content : List Char) : String :=
  String.ofList (List.replicate n '"' ++ content ++ List.replicate n '"')

section Texts

variable {cs : List Char}

theorem IsText.head?_ne_quote (isText : IsText cs) : cs.head? ≠ some '"' := by
  cases isText with
  | nil => nofun
  | plain noQuote => exact fun first => noQuote (Option.some.inj first)
  | escape => nofun
  | template => nofun

/-- A text ends with a quote only if that is escaped. -/
theorem IsText.getLast?_eq_quote_iff (isText : IsText cs) :
    cs.getLast? = some '"' ↔ ['\\', '"'] <:+ cs := by
  constructor
  · intro last
    induction isText with
    | nil => cases last
    | @plain c r noQuote _ _ ih =>
        cases r with
        | nil => exact absurd (Option.some.inj last) noQuote
        | cons d r => exact (ih last).trans (List.suffix_cons c _)
    | @escape r c _ ih =>
        cases r with
        | nil =>
            obtain rfl : c = '"' := Option.some.inj last
            exact List.suffix_rfl
        | cons d r => exact (ih last).trans (List.suffix_append ['\\', c] _)
    | @template r code _ ih =>
        cases r with
        | nil => simp [List.getLast?_cons] at last
        | cons d r =>
            have hwhole : '$' :: '\x7b' :: (code ++ '\x7d' :: d :: r) =
                ('$' :: '\x7b' :: (code ++ ['\x7d'])) ++ d :: r := by simp
            rw [hwhole, List.getLast?_append, List.getLast?_cons, Option.some_or] at last
            rw [hwhole]
            exact (ih (List.getLast?_cons.trans last)).trans (List.suffix_append _ _)
  · rintro ⟨front, rfl⟩
    simp

end Texts

/-! ## What the quotes take with them -/

/-- The groups of three that are dropped are quotes. -/
theorem exists_dropTripleQuotes (cs : List Char) :
    ∃ front, cs = front ++ dropTripleQuotes cs ∧ ∀ c ∈ front, (c == '"') = true := by
  fun_induction dropTripleQuotes cs with
  | case1 r ih =>
      obtain ⟨front, hr, quotes⟩ := ih
      refine ⟨'"' :: '"' :: '"' :: front, ?_, by simpa using quotes⟩
      rw [List.cons_append, List.cons_append, List.cons_append, ← hr]
  | case2 cs => exact ⟨[], rfl, nofun⟩

/-- All quotes are taken off both ends of a literal. -/
theorem unquote_eq_strip (literal : String) :
    unquote literal = String.ofList (strip (· == '"') literal.toList) := by
  obtain ⟨front, hfront, quotes⟩ := exists_dropTripleQuotes literal.toList
  obtain ⟨back, hback, quotes'⟩ := exists_dropTripleQuotes (dropTripleQuotes literal.toList).reverse
  have hinner : dropTripleQuotes literal.toList =
      (dropTripleQuotes (dropTripleQuotes literal.toList).reverse).reverse ++ back.reverse := by
    rw [← List.reverse_append, ← hback, List.reverse_reverse]
  rw [unquote]
  generalize (dropTripleQuotes (dropTripleQuotes literal.toList).reverse).reverse = inner at hinner
  have trimmed := (Text.trimmed_strip (· == '"') inner).append quotes
    fun c mem => quotes' c (List.mem_reverse.mp mem)
  rw [List.append_assoc, ← hinner, ← hfront] at trimmed
  rw [trimmed.strip_eq]

/-- However many quotes are put around a content, those at its own ends are taken
off with them. -/
theorem unquote_delimited (n : Nat) (content : List Char) :
    unquote (delimited n content) = String.ofList (strip (· == '"') content) := by
  have quotes : ∀ c ∈ List.replicate n '"', (c == '"') = true := by
    intro c mem
    rw [List.eq_of_mem_replicate mem]
    rfl
  have trimmed := (Text.trimmed_strip (· == '"') content).append quotes quotes
  rw [unquote_eq_strip, delimited, String.toList_ofList, trimmed.strip_eq]

theorem unquote_delimited_eq_iff (n : Nat) (content : List Char) :
    unquote (delimited n content) = String.ofList content ↔
      content.head? ≠ some '"' ∧ content.getLast? ≠ some '"' := by
  have apart {c? : Option Char} : (∀ c ∈ c?, (c == '"') = false) ↔ c? ≠ some '"' := by
    cases c? <;> simp
  rw [unquote_delimited, String.ofList_inj, Text.strip_eq_iff, Text.trimmed_self_iff, apart, apart]

/-- **A content is kept unless it begins or ends with a quote.**  Between any number
of quotes a content comes back without the quotes at its ends, so it is kept
exactly if there are none.  A text that may stand between double quotes is kept
unless it ends with an escaped quote. -/
theorem unquote_delimited_iff (n : Nat) (content : List Char) :
    Trimmed (· == '"') content (unquote (delimited n content)).toList ∧
      (unquote (delimited n content) = String.ofList content ↔
        content.head? ≠ some '"' ∧ content.getLast? ≠ some '"') ∧
      (IsText content →
        (unquote (delimited n content) = String.ofList content ↔
          ¬ ['\\', '"'] <:+ content)) := by
  refine ⟨?_, unquote_delimited_eq_iff n content, fun isText => ?_⟩
  · rw [unquote_delimited, String.toList_ofList]
    exact Text.trimmed_strip _ content
  · rw [unquote_delimited_eq_iff, and_iff_right isText.head?_ne_quote, ne_eq,
      isText.getLast?_eq_quote_iff]

/-- A content with an escaped quote inside and a template that holds a string. -/
def greeting : List Char :=
  ['a', '\\', '"', 'b', '$', '\x7b', '"', 'c', '"', '\x7d', 'd']

theorem unquote_delimited_greeting :
    IsText greeting ∧ ¬ ['\\', '"'] <:+ greeting ∧
      unquote (delimited 1 greeting) = String.ofList greeting := by
  have isText : IsText greeting :=
    .plain (by decide) (by decide) (.escape '"' (.plain (by decide) (by decide)
      (.template ['"', 'c', '"'] (.plain (by decide) (by decide) .nil))))
  have inside : ¬ ['\\', '"'] <:+ greeting := by decide
  obtain ⟨-, -, kept⟩ := unquote_delimited_iff 1 greeting
  exact ⟨isText, inside, (kept isText).mpr inside⟩

/-- A text in escaped quotes. -/
def quotation : List Char :=
  ['\\', '"', 'o', 'k', '\\', '"']

/-- Of a text in escaped quotes the last quote is lost and its backslash stays;
between three quotes a text in quotes loses both. -/
theorem unquote_delimited_quotation :
    IsText quotation ∧ unquote (delimited 1 quotation) = String.ofList quotation.dropLast ∧
      unquote (delimited 1 quotation) ≠ String.ofList quotation ∧
      unquote (delimited 3 ['"', 'o', 'k', '"']) = "ok" := by
  exact ⟨.escape '"' (.plain (by decide) (by decide) (.plain (by decide) (by decide)
    (.escape '"' .nil))), by decide, by decide, by decide⟩

end Code

end AndroidLint
