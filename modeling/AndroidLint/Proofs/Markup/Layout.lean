/-
Layout — a tag as the parts that it is written with.

What reading accepts can be taken apart again: a tag is its name, then
attributes one after another, each a key, an equals sign and a quoted value
with blanks where they may stand, and blanks at its end.  `Written` holds
the parts of an attribute and `Written.Gives` says which key and value they
stand for; nothing is said there of how they are read.

The names of attributes are not looked at.  A key is whatever stands before
a blank or the equals sign, so there may be quotes in it, and attributes
need not have a blank between them.
-/
import AndroidLint.Proofs.Except
import AndroidLint.Proofs.Markup.Opening

namespace AndroidLint

namespace Markup

open Text (byteCount)

/-- An attribute as the parts that it is written with. -/
structure Written where
  gap : List Char
  key : List Char
  left : List Char
  right : List Char
  quote : Char
  raw : List Char

namespace Written

/-- What stands behind the key: the sign and the quoted value. -/
def assignment (w : Written) : List Char :=
  w.left ++ '=' :: w.right ++ w.quote :: w.raw ++ [w.quote]

/-- The attribute from its key to its second quote. -/
def markup (w : Written) : List Char :=
  w.key ++ w.assignment

/-- The attribute with the blanks before it. -/
def text (w : Written) : List Char :=
  w.gap ++ w.markup

/-- `w.Gives name value`: the parts are in order, and stand for an attribute
with that name and that value. -/
structure Gives (w : Written) (name value : String) : Prop where
  gapBlank : Blanks w.gap
  key : ∃ c r, w.key = c :: r ∧ isSpace c = false ∧ ∀ d ∈ r, isKeyPart d = true
  leftBlank : Blanks w.left
  rightBlank : Blanks w.right
  quotes : w.quote = '"' ∨ w.quote = '\''
  noEnd : ∀ c ∈ w.raw, c ≠ w.quote
  name : name = String.ofList w.key
  value : unescape w.raw = .ok value.toList

end Written

/-! ## Taking apart what is read -/

theorem exists_run (p : Char → Bool) (cs : List Char) :
    ∃ front, cs = front ++ cs.dropWhile p ∧ front = cs.takeWhile p ∧ ∀ c ∈ front, p c = true :=
  ⟨cs.takeWhile p, List.takeWhile_append_dropWhile.symm, rfl,
    fun _ mem => List.mem_takeWhile_imp mem⟩

theorem takeWhile_ne_append {quote : Char} {r : List Char}
    (closed : (r.takeWhile (· != quote)).length < r.length) :
    r = r.takeWhile (· != quote) ++
      quote :: r.drop ((r.takeWhile (· != quote)).length + 1) := by
  induction r with
  | nil => cases closed
  | cons c r ih =>
      by_cases hc : c = quote
      · subst hc
        simp
      · have hkeep : (c :: r).takeWhile (· != quote) = c :: r.takeWhile (· != quote) := by
          simp [hc]
        rw [hkeep] at closed ⊢
        rw [List.length_cons, List.length_cons] at closed
        rw [List.cons_append, List.length_cons, List.drop_succ_cons,
          ← ih (Nat.lt_of_succ_lt_succ closed)]

theorem quotedValue_eq_ok {total : Nat} {key cs : List Char} {a : RawAttribute}
    (h : quotedValue total key cs = .ok a) :
    ∃ right quote, cs = right ++ quote :: a.raw ++ quote :: a.rest ∧ Blanks right ∧
      (quote = '"' ∨ quote = '\'') ∧ (∀ c ∈ a.raw, c ≠ quote) ∧ a.key = key := by
  obtain ⟨right, hcs, -, blank⟩ := exists_run isSpace cs
  rw [quotedValue] at h
  split at h
  case h_1 => cases h
  case h_2 quote r hdrop =>
    split at h
    case isFalse => cases h
    case isTrue quotes =>
      simp only at h
      split at h
      case isFalse => cases h
      case isTrue closed =>
        obtain rfl := Except.ok.inj h
        refine ⟨right, quote, ?_, blank, quotes, fun c mem => ?_, rfl⟩
        · rw [List.append_assoc, List.cons_append, ← takeWhile_ne_append closed, ← hdrop, ← hcs]
        · simpa using List.mem_takeWhile_imp mem

theorem attributeFrom_eq_ok {total : Nat} {seen : List (List Char × Nat)} {c : Char}
    {r gap : List Char} {a : RawAttribute} {value : List Char}
    (h : attributeFrom total seen c r = .ok a) (nonblank : isSpace c = false)
    (gapBlank : Blanks gap) (read : unescape a.raw = .ok value) :
    ∃ w : Written, gap ++ c :: r = w.text ++ a.rest ∧
      w.Gives (String.ofList a.key) (String.ofList value) := by
  obtain ⟨key, hr, hkey, parts⟩ := exists_run isKeyPart r
  obtain ⟨left, hleft, -, leftBlank⟩ := exists_run isSpace (r.dropWhile isKeyPart)
  rw [attributeFrom] at h
  split at h
  case h_2 => cases h
  case h_1 r' hdrop =>
    obtain ⟨-, -, hvalue⟩ := bind_eq_ok h
    obtain ⟨right, quote, hr', rightBlank, quotes, noEnd, hakey⟩ := quotedValue_eq_ok hvalue
    refine ⟨⟨gap, c :: key, left, right, quote, a.raw⟩, ?_, gapBlank,
      ⟨c, key, rfl, nonblank, parts⟩, leftBlank, rightBlank, quotes, noEnd, ?_, ?_⟩
    · rw [hr, hleft, hdrop, hr']
      simp [Written.text, Written.markup, Written.assignment]
    · rw [hakey, hkey]
    · rw [read, String.toList_ofList]

/-- Attributes that can be read are written one after another, up to blanks
at the end. -/
theorem attributesFrom_eq_ok {total : Nat} {seen : List (List Char × Nat)} {cs : List Char}
    {pairs : List (String × String)} (h : attributesFrom total seen cs = .ok pairs) :
    ∃ ws gap, cs = ws.flatMap Written.text ++ gap ∧ Blanks gap ∧
      List.Forall₂ (fun w pair => Written.Gives w pair.1 pair.2) ws pairs := by
  induction hn : cs.length using Nat.strong_induction_on generalizing seen cs pairs with
  | _ n ih =>
    obtain ⟨gap, hcs, -, blank⟩ := exists_run isSpace cs
    rw [attributesFrom] at h
    split at h
    case h_1 hdrop =>
      obtain rfl := Except.ok.inj h
      rw [hdrop, List.append_nil] at hcs
      exact ⟨[], gap, hcs, blank, .nil⟩
    case h_2 c r hdrop =>
      obtain ⟨a, hone, h⟩ := bind_eq_ok h
      obtain ⟨value, hvalue, h⟩ := bind_eq_ok h
      have nonblank : isSpace c = false := by
        simpa [hdrop] using List.head?_dropWhile_not isSpace cs
      obtain ⟨w, hw, gives⟩ := attributeFrom_eq_ok hone nonblank blank hvalue
      rw [← hdrop, ← hcs] at hw
      -- what is left is shorter, so the others are read from it
      have shorter : a.rest.length < cs.length := by
        rw [hw, List.length_append, Written.text, Written.markup, Written.assignment]
        simp only [List.length_append, List.length_cons]
        omega
      rw [if_pos shorter] at h
      obtain ⟨others, hothers, h⟩ := bind_eq_ok h
      obtain rfl := Except.ok.inj h
      obtain ⟨ws, trail, hrest, trailBlank, givesOthers⟩ := ih _ (hn ▸ shorter) hothers rfl
      refine ⟨w :: ws, trail, ?_, trailBlank, .cons gives givesOthers⟩
      rw [hw, hrest, List.flatMap_cons, List.append_assoc]

/-! ## Whole tags -/

/-- A tag as the parts that it is written with. -/
structure Layout where
  name : List Char
  written : List Written
  gap : List Char
  isEmpty : Bool

namespace Layout

/-- What closes a tag. -/
def ending (t : Layout) : List Char :=
  t.gap ++ if t.isEmpty then ['/', '>'] else ['>']

/-- The text of a tag. -/
def markup (t : Layout) : List Char :=
  '<' :: t.name ++ t.written.flatMap Written.text ++ t.ending

/-- `t.Gives e`: the parts stand for the name and the attributes of `e`. -/
structure Gives (t : Layout) (e : Element) : Prop where
  name : e.tag = String.ofList t.name
  nameUnbroken : ∀ c ∈ t.name, isSpace c = false
  attributes : List.Forall₂ (fun w a => w.Gives a.name a.value) t.written e.attributes
  gapBlank : Blanks t.gap

end Layout

/-- The tag that writes an element can be taken apart. -/
theorem Element.IsWrittenBy.exists_layout {e : Element} {raw : List Char} (h : e.IsWrittenBy raw) :
    ∃ t : Layout, raw = t.markup ∧ t.Gives e := by
  obtain ⟨content, ⟨inside, rfl, hinside, -⟩, htag, readable⟩ := h
  obtain ⟨name, hcontent, hname, unbroken⟩ := exists_run (!isSpace ·) content
  have hdrop : content.drop (tagName content).length = content.dropWhile (!isSpace ·) := by
    have h := congrArg (List.drop name.length) hcontent
    rwa [List.drop_left, hname] at h
  rw [Markup.attributes, hdrop] at readable
  obtain ⟨ws, gap, hws, gapBlank, gives⟩ := attributesFrom_eq_ok readable
  rw [List.forall₂_map_right_iff] at gives
  rw [hws] at hcontent
  have htag' : e.tag = String.ofList name := by rw [htag, tagName, ← hname]
  have unbroken' : ∀ c ∈ name, isSpace c = false := fun c mem => by simpa using unbroken c mem
  obtain rfl | rfl := hinside
  · exact ⟨⟨name, ws, gap, false⟩, by simp [hcontent, Layout.markup, Layout.ending],
      htag', unbroken', gives, gapBlank⟩
  · exact ⟨⟨name, ws, gap, true⟩, by simp [hcontent, Layout.markup, Layout.ending],
      htag', unbroken', gives, gapBlank⟩

end Markup

end AndroidLint
