/-
Tag — tags and attributes are read from every way of writing them.

A tag ends at the first bracket outside quotes.  `Inert` says of a part of
a tag that the search for this bracket passes over it; names, blanks and
quoted values are inert, and so is what they make up.  Attributes are read
one after another, each as the key, the value that its quotes hold and the
rest of the tag (`attributeFrom_written`).
-/
import Mathlib.Data.List.Nodup
import Mathlib.Data.List.TakeWhile
import AndroidLint.Markup.Tag
import AndroidLint.Proofs.Markup.Reference

namespace AndroidLint

namespace Markup

open Text (takeWhile_run dropWhile_run)

/-! ## Characters of names -/

/-- None of the marks that structure a tag is part of a name. -/
theorem not_mem_marks {c : Char} (h : isNamePart c = true) :
    c ∉ ['<', '>', '"', '\'', '=', '/', '!', '?', ' ', '\t', '\n', '\r'] := by
  have hmarks : ['<', '>', '"', '\'', '=', '/', '!', '?', ' ', '\t', '\n', '\r'].Forall
      (isNamePart · = false) := by decide
  intro mem
  rw [List.forall_iff_forall_mem.mp hmarks c mem] at h
  cases h

theorem isSpace_eq_false {c : Char} (h : isNamePart c = true) : isSpace c = false := by
  have hmarks := not_mem_marks h
  simp only [List.mem_cons, not_or] at hmarks
  simp [isSpace, hmarks]

theorem isKeyPart_of_isNamePart {c : Char} (h : isNamePart c = true) : isKeyPart c = true := by
  have hmarks := not_mem_marks h
  simp only [List.mem_cons, not_or] at hmarks
  simp [isKeyPart, isSpace_eq_false h, hmarks]

theorem IsName.exists_cons {name : String} (h : IsName name) :
    ∃ c r, name.toList = c :: r ∧ isNamePart c = true ∧ ∀ d ∈ r, isNamePart d = true := by
  obtain ⟨c, r, hname, letter, parts⟩ := h
  exact ⟨c, r, hname, by simp [isNamePart, letter], parts⟩

theorem IsName.isNamePart {name : String} (h : IsName name) :
    ∀ d ∈ name.toList, isNamePart d = true := by
  obtain ⟨c, r, hname, first, parts⟩ := h.exists_cons
  rw [hname]
  exact List.forall_mem_cons.mpr ⟨first, parts⟩

/-! ## Where a tag ends -/

/-- `Inert cs`: the search for the end of a tag passes over `cs`. -/
def Inert (cs : List Char) : Prop :=
  ∀ rest, tagLength none (cs ++ rest) = (tagLength none rest).map (· + cs.length)

theorem Inert.nil : Inert [] := by
  intro rest
  cases h : tagLength none rest <;> simp [h]

theorem Inert.append {cs ds : List Char} (hcs : Inert cs) (hds : Inert ds) : Inert (cs ++ ds) := by
  intro rest
  rw [List.append_assoc, hcs, hds, Option.map_map, List.length_append]
  congr 1
  funext n
  simp only [Function.comp_apply]
  omega

/-- A character that neither closes a tag nor opens quotes is inert. -/
theorem Inert.single {c : Char} (noEnd : c ≠ '>') (noDouble : c ≠ '"') (noSingle : c ≠ '\'') :
    Inert [c] := by
  intro rest
  rw [List.singleton_append, tagLength]
  simp [noEnd, noDouble, noSingle]

theorem Inert.of_forall {cs : List Char}
    (plain : ∀ c ∈ cs, c ≠ '>' ∧ c ≠ '"' ∧ c ≠ '\'') : Inert cs := by
  induction cs with
  | nil => exact .nil
  | cons c cs ih =>
      obtain ⟨⟨noEnd, noDouble, noSingle⟩, others⟩ := List.forall_mem_cons.mp plain
      exact (Inert.single noEnd noDouble noSingle).append (ih others)

theorem tagLength_quoted {quote : Char} {raw : List Char} (noEnd : ∀ c ∈ raw, c ≠ quote)
    (rest : List Char) :
    tagLength (some quote) (raw ++ quote :: rest) =
      (tagLength none rest).map (· + (raw.length + 1)) := by
  induction raw with
  | nil => simp [tagLength]
  | cons c raw ih =>
      obtain ⟨other, others⟩ := List.forall_mem_cons.mp noEnd
      rw [List.cons_append, tagLength, if_neg (by simpa using other), ih others, Option.map_map]
      congr 1

theorem Inert.quoted {quote : Char} (quotes : quote = '"' ∨ quote = '\'') {raw : List Char}
    (noEnd : ∀ c ∈ raw, c ≠ quote) : Inert (quote :: raw ++ [quote]) := by
  intro rest
  have hopen : ∀ cs, tagLength none (quote :: cs) = (tagLength (some quote) cs).map (· + 1) := by
    intro cs
    rw [tagLength]
    obtain rfl | rfl := quotes <;> rfl
  have hcs : quote :: raw ++ [quote] ++ rest = quote :: (raw ++ quote :: rest) := by simp
  rw [hcs, hopen, tagLength_quoted noEnd, Option.map_map]
  congr 1
  funext n
  simp only [Function.comp_apply, List.length_append, List.length_cons, List.length_nil]
  omega

theorem Inert.blanks {cs : List Char} (blank : Blanks cs) : Inert cs := by
  refine .of_forall fun c mem => ?_
  have h := blank c mem
  refine ⟨?_, ?_, ?_⟩ <;> rintro rfl <;> cases h

theorem Inert.name {name : String} (h : IsName name) : Inert name.toList := by
  refine .of_forall fun c mem => ?_
  have hmarks := not_mem_marks (h.isNamePart c mem)
  simp only [List.mem_cons, not_or] at hmarks
  exact ⟨hmarks.2.1, hmarks.2.2.1, hmarks.2.2.2.1⟩

theorem Inert.attributes {pairs : List (String × String)} {cs : List Char}
    (h : Attributes pairs cs) (names : ∀ a ∈ pairs, IsName a.1) : Inert cs := by
  induction h with
  | nil => exact .nil
  | @cons key value pairs gap left right raw rest quote _ gapBlank leftBlank rightBlank quotes
      quoted _ ih =>
      obtain ⟨first, others⟩ := List.forall_mem_cons.mp names
      have hequals : Inert ['='] := .single (by decide) (by decide) (by decide)
      have hquoted := Inert.quoted quotes (ne_quote_of_quotable quotes quoted)
      have hall := (((((Inert.blanks gapBlank).append (.name first)).append
        (.blanks leftBlank)).append (hequals.append (.blanks rightBlank))).append hquoted).append
        (ih others)
      simpa using hall

theorem tagLength_inert {cs : List Char} (inert : Inert cs) (rest : List Char) :
    tagLength none (cs ++ '>' :: rest) = some cs.length := by
  rw [inert, tagLength]
  simp

/-! ## One attribute -/

theorem takeWhile_run_gap {p : Char → Bool} {cs gap rest : List Char} {b : Char}
    (run : ∀ c ∈ cs, p c = true) (apart : ∀ c ∈ gap, p c = false) (stop : p b = false) :
    (cs ++ (gap ++ b :: rest)).takeWhile p = cs := by
  cases gap with
  | nil => exact takeWhile_run run stop
  | cons c gap => exact takeWhile_run run (apart c List.mem_cons_self)

theorem dropWhile_run_gap {p : Char → Bool} {cs gap rest : List Char} {b : Char}
    (run : ∀ c ∈ cs, p c = true) (apart : ∀ c ∈ gap, p c = false) (stop : p b = false) :
    (cs ++ (gap ++ b :: rest)).dropWhile p = gap ++ b :: rest := by
  cases gap with
  | nil => exact dropWhile_run run stop
  | cons c gap => exact dropWhile_run run (apart c List.mem_cons_self)

theorem quotedValue_written {total : Nat} {key right raw rest : List Char} {quote : Char}
    (rightBlank : Blanks right) (quotes : quote = '"' ∨ quote = '\'')
    (noEnd : ∀ c ∈ raw, c ≠ quote) :
    quotedValue total key (right ++ quote :: (raw ++ quote :: rest)) = .ok ⟨key, raw, rest⟩ := by
  have hspace : isSpace quote = false := by obtain rfl | rfl := quotes <;> rfl
  have hraw : (raw ++ quote :: rest).takeWhile (· != quote) = raw :=
    takeWhile_run (fun c mem => by simpa using noEnd c mem) (by simp)
  have hlength : raw.length < (raw ++ quote :: rest).length := by simp
  have hdrop : (raw ++ quote :: rest).drop (raw.length + 1) = rest := by simp
  rw [quotedValue, dropWhile_run rightBlank hspace]
  simp only
  rw [if_pos quotes, hraw, if_pos hlength, hdrop]

theorem unrepeated_of_fresh {seen : List (List Char × Nat)} {key : List Char} (position : Nat)
    (fresh : ∀ k ∈ seen, k.1 ≠ key) : unrepeated seen key position = .ok () := by
  have hnone : seen.find? (·.1 == key) = none := by
    rw [List.find?_eq_none]
    intro k mem
    simpa using fresh k mem
  rw [unrepeated, hnone]

theorem attributeFrom_written (total : Nat) {seen : List (List Char × Nat)} {c : Char}
    {key left right raw : List Char} (rest : List Char) {quote : Char}
    (parts : ∀ d ∈ key, isNamePart d = true) (leftBlank : Blanks left) (rightBlank : Blanks right) (quotes : quote = '"' ∨ quote = '\'')
    (noEnd : ∀ d ∈ raw, d ≠ quote) (fresh : ∀ k ∈ seen, k.1 ≠ c :: key) :
    attributeFrom total seen c
        (key ++ (left ++ '=' :: (right ++ quote :: (raw ++ quote :: rest)))) =
      .ok ⟨c :: key, raw, rest⟩ := by
  have hparts : ∀ d ∈ key, isKeyPart d = true := fun d mem =>
    isKeyPart_of_isNamePart (parts d mem)
  have hleft : ∀ d ∈ left, isKeyPart d = false := by
    intro d mem
    simp [isKeyPart, leftBlank d mem]
  have hequals : isKeyPart '=' = false ∧ isSpace '=' = false := by decide
  rw [attributeFrom]
  simp only [takeWhile_run_gap hparts hleft hequals.1, dropWhile_run_gap hparts hleft hequals.1,
    dropWhile_run leftBlank hequals.2, unrepeated_of_fresh _ fresh, bind, Except.bind]
  exact quotedValue_written rightBlank quotes noEnd

/-! ## All attributes -/

theorem dropWhile_blanks {cs : List Char} (blank : Blanks cs) : cs.dropWhile isSpace = [] := by
  rw [List.dropWhile_eq_nil_iff]
  exact blank

/-- However attributes are written, they are read: each key with its value,
in order. -/
theorem attributesFrom_written {pairs : List (String × String)} {written gap : List Char}
    {total : Nat} {seen : List (List Char × Nat)} (h : Attributes pairs written)
    (gapBlank : Blanks gap) (names : ∀ a ∈ pairs, IsName a.1)
    (differ : (pairs.map Prod.fst).Nodup)
    (fresh : ∀ a ∈ pairs, ∀ k ∈ seen, k.1 ≠ a.1.toList) :
    attributesFrom total seen (written ++ gap) = .ok pairs := by
  induction h generalizing seen with
  | nil => rw [List.nil_append, attributesFrom, dropWhile_blanks gapBlank]
  | @cons key value pairs before left right raw rest quote _ beforeBlank leftBlank rightBlank
      quotes quoted _ ih =>
      obtain ⟨keyIsName, otherNames⟩ := List.forall_mem_cons.mp names
      obtain ⟨freshKey, freshOthers⟩ := List.forall_mem_cons.mp fresh
      rw [List.map_cons, List.nodup_cons] at differ
      obtain ⟨c, r, hkey, first, parts⟩ := keyIsName.exists_cons
      have hwritten : before ++ key.toList ++ left ++ '=' :: right ++ quote :: raw ++ quote :: rest
            ++ gap =
          before ++ c :: (r ++ (left ++ '=' :: (right ++ quote :: (raw ++ quote ::
            (rest ++ gap))))) := by
        simp [hkey]
      have hone := attributeFrom_written total (rest ++ gap) parts leftBlank rightBlank quotes
        (ne_quote_of_quotable quotes quoted)
        (fun k mem => hkey ▸ freshKey k mem)
      rw [hwritten, attributesFrom, dropWhile_run beforeBlank (isSpace_eq_false first)]
      simp only [hone, unescape_quotable quoted, bind, Except.bind]
      -- the rest is shorter, as the recursion asks
      have hshorter : (rest ++ gap).length <
          (before ++ c :: (r ++ (left ++ '=' :: (right ++ quote :: (raw ++ quote ::
            (rest ++ gap)))))).length := by
        simp only [List.length_append, List.length_cons]
        omega
      have hstring : String.ofList (c :: r) = key := by
        rw [← String.ofList_toList (s := key), hkey]
      rw [if_pos hshorter, ih otherNames differ.2 ?freshNext, hstring, String.ofList_toList]
      case freshNext =>
        intro a mem k hk
        obtain hk | hk := List.mem_append.mp hk
        · exact freshOthers a mem k hk
        · obtain rfl := List.mem_singleton.mp hk
          intro same
          have hsame : key = a.1 := String.toList_injective (hkey.trans same)
          exact differ.1 (List.mem_map.mpr ⟨a, mem, hsame.symm⟩)

/-! ## Whole tags -/

/-- After a tag's name, its attributes begin with a blank, if there are
any. -/
theorem attributes_append_cases {pairs : List (String × String)} {written gap : List Char}
    (h : Attributes pairs written) (gapBlank : Blanks gap) :
    written ++ gap = [] ∨ ∃ b r, written ++ gap = b :: r ∧ isSpace b = true := by
  cases h with
  | nil =>
      cases gap with
      | nil => exact .inl rfl
      | cons b r => exact .inr ⟨b, r, rfl, gapBlank b List.mem_cons_self⟩
  | @cons key value pairs before left right raw rest quote apart beforeBlank =>
      obtain ⟨b, r, rfl⟩ := List.exists_cons_of_ne_nil apart
      simp only [List.cons_append, List.append_assoc]
      exact .inr ⟨b, _, rfl, beforeBlank b List.mem_cons_self⟩

theorem getLast?_append_ne {cs ds : List Char} {c : Char} (hcs : cs.getLast? ≠ some c)
    (hds : ds.getLast? ≠ some c) : (cs ++ ds).getLast? ≠ some c := by
  rw [List.getLast?_append]
  cases h : ds.getLast? with
  | none => rwa [Option.none_or]
  | some d => rwa [Option.some_or, ← h]

theorem getLast?_ne {cs : List Char} {c : Char} (other : ∀ d ∈ cs, d ≠ c) :
    cs.getLast? ≠ some c :=
  fun last => other c (List.mem_of_getLast? last) rfl

/-- Written attributes end with a quote. -/
theorem Attributes.getLast?_ne_slash {pairs : List (String × String)} {cs : List Char}
    (h : Attributes pairs cs) : cs.getLast? ≠ some '/' := by
  induction h with
  | nil => simp
  | @cons key value pairs before left right raw rest quote _ _ _ _ quotes _ _ ih =>
      have hquote : [quote].getLast? ≠ some '/' := by obtain rfl | rfl := quotes <;> decide
      rw [List.getLast?_append_of_ne_nil _ (List.cons_ne_nil _ _)]
      show ([quote] ++ rest).getLast? ≠ some '/'
      exact getLast?_append_ne hquote ih

/-- `TagContent tag pairs content`: the text between the brackets of a start
tag, with keys of which none is repeated. -/
structure TagContent (tag : String) (pairs : List (String × String)) (content : List Char) :
    Prop where
  tagIsName : IsName tag
  keysAreNames : ∀ a ∈ pairs, IsName a.1
  keysDiffer : (pairs.map Prod.fst).Nodup
  written : ∃ written gap, Attributes pairs written ∧ Blanks gap ∧
    content = tag.toList ++ written ++ gap

namespace TagContent

variable {tag : String} {pairs : List (String × String)} {content : List Char}

theorem exists_cons (t : TagContent tag pairs content) :
    ∃ c r, content = c :: r ∧ isNamePart c = true := by
  obtain ⟨written, gap, -, -, rfl⟩ := t.written
  obtain ⟨c, r, hname, first, -⟩ := t.tagIsName.exists_cons
  exact ⟨c, r ++ written ++ gap, by rw [hname]; rfl, first⟩

theorem inert (t : TagContent tag pairs content) : Inert content := by
  obtain ⟨written, gap, h, gapBlank, rfl⟩ := t.written
  exact ((Inert.name t.tagIsName).append (.attributes h t.keysAreNames)).append (.blanks gapBlank)

theorem tagName_eq (t : TagContent tag pairs content) : tagName content = tag.toList := by
  obtain ⟨written, gap, h, gapBlank, rfl⟩ := t.written
  have hname : ∀ c ∈ tag.toList, (!isSpace c) = true := by
    intro c mem
    rw [isSpace_eq_false (t.tagIsName.isNamePart c mem)]
    rfl
  rw [tagName, List.append_assoc]
  obtain hnil | ⟨b, r, hcons, blank⟩ := attributes_append_cases h gapBlank
  · rw [hnil, List.append_nil, List.takeWhile_eq_self_iff]
    exact hname
  · rw [hcons]
    exact takeWhile_run hname (by rw [blank]; rfl)

theorem attributes_eq (t : TagContent tag pairs content) : attributes content = .ok pairs := by
  rw [attributes, t.tagName_eq]
  obtain ⟨written, gap, h, gapBlank, rfl⟩ := t.written
  rw [List.append_assoc, List.drop_left]
  exact attributesFrom_written h gapBlank t.keysAreNames t.keysDiffer
    (fun a _ k mem => absurd mem List.not_mem_nil)

/-- A start tag is not taken for an empty one: there is no slash at its end. -/
theorem getLast?_ne_slash (t : TagContent tag pairs content) : content.getLast? ≠ some '/' := by
  obtain ⟨written, gap, h, gapBlank, rfl⟩ := t.written
  refine getLast?_append_ne (getLast?_append_ne (getLast?_ne ?_) h.getLast?_ne_slash)
    (getLast?_ne ?_)
  · rintro c mem rfl
    exact absurd (t.tagIsName.isNamePart _ mem) (by decide)
  · rintro c mem rfl
    exact absurd (gapBlank _ mem) (by decide)

theorem tagKind_eq (t : TagContent tag pairs content) : tagKind content = .start content := by
  rw [tagKind]
  split
  case h_1 slash => exact absurd slash t.getLast?_ne_slash
  case h_2 => rfl

end TagContent

theorem tagKind_empty (content : List Char) : tagKind (content ++ ['/']) = .empty content := by
  rw [tagKind, List.getLast?_concat]
  simp only [List.dropLast_concat]

theorem closingName_written {tag : String} {gap : List Char} (tagIsName : IsName tag)
    (gapBlank : Blanks gap) : closingName (tag.toList ++ gap) = tag.toList := by
  have hreverse : (tag.toList ++ gap).reverse.dropWhile isSpace = tag.toList.reverse := by
    rw [List.reverse_append, List.dropWhile_append_of_pos]
    · rw [List.dropWhile_eq_self_iff]
      intro nonempty
      have mem := List.mem_reverse.mp (List.getElem_mem nonempty)
      exact ne_true_of_eq_false (isSpace_eq_false (tagIsName.isNamePart _ mem))
    · intro c mem
      exact gapBlank c (List.mem_reverse.mp mem)
  rw [closingName, hreverse, List.reverse_reverse]
  obtain ⟨c, r, hname, -⟩ := tagIsName.exists_cons
  rw [hname]

end Markup

end AndroidLint
