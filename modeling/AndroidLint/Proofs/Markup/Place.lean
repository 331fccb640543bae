/-
Place — where the attributes of a tag are said to stand.

A layout says where each attribute of a tag stands (`Layout.places`).  The
reader does not keep that: it looks for the key again, from the end of the
key before, first with the equals sign behind it and then without, and
takes from there what reaches to the second quote of a kind.  It so finds
an attribute's place exactly if its key holds no quote and turns up nowhere
before the attribute (`Written.IsPlain`).  An earlier value may hold the
key, and so may the name of the tag.

Along the attributes of a tag the search stands at the end of a key, as
long as all places so far were right; the induction carries what stands
between there and the next attribute (`placed_eq_places_iff`).
-/
import AndroidLint.Proofs.Markup.Layout
import AndroidLint.Proofs.Text.Lines

namespace AndroidLint

namespace Markup

open Text (byteCount FirstBehind takeWhile_run dropWhile_run)

/-! ## Places -/

/-- A part of a text and where it stands. -/
structure Place where
  start : Nat
  stop : Nat
  markup : List Char

/-- Where attributes stand that are written from a byte on. -/
def places (offset : Nat) : List Written → List Place
  | [] => []
  | w :: ws =>
      ⟨offset + byteCount w.gap, offset + byteCount w.text, w.markup⟩
        :: places (offset + byteCount w.text) ws

/-- Where the attributes of a tag stand that begins at a byte. -/
def Layout.places (t : Layout) (start : Nat) : List Place :=
  Markup.places (start + byteCount ('<' :: t.name)) t.written

/-- The attribute is said to stand at a place. -/
def Attribute.IsAt (a : Attribute) (p : Place) : Prop :=
  a.location.startByte = p.start ∧ a.location.endByte = p.stop

/-- `w.IsFound before after`: in `before ++ w.markup ++ after`, the key is
first found where the attribute begins, with the sign behind it or, if it
stands nowhere with the sign behind it, by itself. -/
def Written.IsFound (w : Written) (before after : List Char) : Prop :=
  FirstBehind (w.key ++ ['=']) before (w.markup ++ after) ∨
    (¬ w.key ++ ['='] <:+: before ++ (w.markup ++ after) ∧
      FirstBehind w.key before (w.markup ++ after))

/-- `w.IsPlain before after`: the key is found, and there is no quote in
it. -/
def Written.IsPlain (w : Written) (before after : List Char) : Prop :=
  w.IsFound before after ∧ ∀ c ∈ w.key, c ≠ '"' ∧ c ≠ '\''

/-- Attributes are plain, each looked for from the end of the key before it;
`before` is what stands between there and the first of them. -/
def ArePlain (ending : List Char) : List Char → List Written → Prop
  | _, [] => True
  | before, w :: ws =>
      w.IsPlain (before ++ w.gap) (ws.flatMap Written.text ++ ending) ∧
        ArePlain ending w.assignment ws

/-- The attributes of a tag are plain. -/
def Layout.IsPlain (t : Layout) : Prop :=
  ArePlain t.ending ('<' :: t.name) t.written

/-! ## Where a layout has its attributes -/

theorem mem_places {offset : Nat} {ws : List Written} {p : Place} (mem : p ∈ places offset ws) :
    ∃ front back, ws.flatMap Written.text = front ++ p.markup ++ back ∧
      p.start = offset + byteCount front ∧ p.stop = p.start + byteCount p.markup := by
  induction ws generalizing offset with
  | nil => cases mem
  | cons w ws ih =>
      obtain rfl | mem := List.mem_cons.mp mem
      · refine ⟨w.gap, ws.flatMap Written.text, ?_, rfl, ?_⟩
        · rw [List.flatMap_cons, Written.text]
        · simp only [Written.text, Text.byteCount_append]
          omega
      · obtain ⟨front, back, htext, hstart, hstop⟩ := ih mem
        refine ⟨w.text ++ front, back, ?_, ?_, hstop⟩
        · rw [List.flatMap_cons, htext]
          simp
        · rw [hstart, Text.byteCount_append, Nat.add_assoc]

theorem pairwise_places (offset : Nat) (ws : List Written) :
    (places offset ws).Pairwise fun p p' => p.stop ≤ p'.start := by
  induction ws generalizing offset with
  | nil => exact .nil
  | cons w ws ih =>
      refine List.pairwise_cons.mpr ⟨fun p mem => ?_, ih _⟩
      obtain ⟨front, back, -, hstart, -⟩ := mem_places mem
      exact hstart ▸ Nat.le_add_right _ _

/-! ## Looking for one attribute -/

section One

variable {w : Written} {name value : String}

/-- The search gives the place of the attribute exactly if the key is found
there. -/
theorem keyOffset_eq_iff (front before after : List Char) (w : Written)
    (nonempty : front ++ before ≠ []) :
    keyOffset (front ++ (before ++ (w.markup ++ after))) (byteCount front) w.key =
        byteCount (front ++ before) ↔ w.IsFound before after := by
  have hpos := Text.byteCount_pos nonempty
  rw [keyOffset, Text.dropBytes?_append, Option.getD_some, Written.IsFound,
    ← Text.find?_append_eq_iff, ← Text.find?_eq_none_iff, ← Text.find?_append_eq_iff,
    Text.byteCount_append]
  rw [Text.byteCount_append] at hpos
  cases Text.find? (w.key ++ ['=']) (before ++ (w.markup ++ after)) with
  | some found => simp
  | none =>
      cases Text.find? w.key (before ++ (w.markup ++ after)) with
      | some found => simp
      | none =>
          simp
          omega

theorem utf8Size_quote {quote : Char} (quotes : quote = '"' ∨ quote = '\'') :
    quote.utf8Size = 1 := by
  obtain rfl | rfl := quotes <;> rfl

theorem Blanks.noQuote {cs : List Char} (blank : Blanks cs) : ∀ c ∈ cs, c ≠ '"' ∧ c ≠ '\'' := by
  intro c mem
  have h := blank c mem
  constructor <;> rintro rfl <;> cases h

/-- What is taken from a quote on: up to the next one of its kind. -/
theorem writtenLength_append {front r : List Char} {quote : Char}
    (noQuote : ∀ c ∈ front, c ≠ '"' ∧ c ≠ '\'') (quotes : quote = '"' ∨ quote = '\'') :
    writtenLength (front ++ quote :: r) =
      if (r.takeWhile (· != quote)).length < r.length then
        byteCount front + byteCount (r.takeWhile (· != quote)) + 2
      else byteCount (front ++ quote :: r) := by
  have hrun : ∀ c ∈ front, (!(c == '"' || c == '\'')) = true := by
    intro c mem
    simp [noQuote c mem]
  have hstop : (!(quote == '"' || quote == '\'')) = false := by
    obtain rfl | rfl := quotes <;> rfl
  rw [writtenLength]
  simp only [dropWhile_run hrun hstop, takeWhile_run hrun hstop]

/-- An attribute does not end at the second quote if the first is in its
key: the quotes of its value are the last two of their kind. -/
theorem next_quote_ne_last {front back after : List Char} {quote : Char}
    (quotes : quote = '"' ∨ quote = '\'')
    (hmarkup : w.markup = front ++ quote :: (back ++ w.assignment))
    (hafter : w.markup ++ after = front ++ quote :: (back ++ w.assignment ++ after))
    (closed : ((back ++ w.assignment ++ after).takeWhile (· != quote)).length <
      (back ++ w.assignment ++ after).length) :
    byteCount front + byteCount ((back ++ w.assignment ++ after).takeWhile (· != quote)) + 2 ≠
      byteCount w.markup := by
  intro length
  have hnext := takeWhile_ne_append closed
  have unquoted : ∀ c ∈ (back ++ w.assignment ++ after).takeWhile (· != quote), c ≠ quote := by
    intro c mem
    simpa using List.mem_takeWhile_imp mem
  generalize (back ++ w.assignment ++ after).takeWhile (· != quote) = value at *
  have hbytes : byteCount (front ++ quote :: value ++ [quote]) = byteCount w.markup := by
    simp only [Text.byteCount_append, Text.byteCount_cons, Text.byteCount_nil,
      utf8Size_quote quotes]
    omega
  have hwhole : front ++ quote :: value ++ [quote] ++
      (back ++ w.assignment ++ after).drop (value.length + 1) = w.markup ++ after := by
    rw [hafter, hnext]
    simp
  obtain ⟨hsame, -⟩ := Text.append_inj_of_byteCount hwhole hbytes
  have hinner : value ++ [quote] =
      (back ++ w.left ++ '=' :: w.right ++ w.quote :: w.raw) ++ [w.quote] := by
    rw [hmarkup, List.append_assoc, List.cons_append] at hsame
    simpa [Written.assignment] using hsame
  obtain ⟨hvalue, hquote⟩ := List.append_inj' hinner rfl
  obtain rfl := List.singleton_inj.mp hquote
  exact unquoted _ (hvalue ▸ by simp) rfl

/-- From the key on, the second quote of a kind ends the attribute exactly
if the quotes around its value are the first. -/
theorem writtenLength_eq_iff (gives : w.Gives name value) {after : List Char}
    (nonempty : after ≠ []) :
    writtenLength (w.markup ++ after) = byteCount w.markup ↔ ∀ c ∈ w.key, c ≠ '"' ∧ c ≠ '\'' := by
  constructor
  · intro length
    cases hfirst : w.key.find? fun c => c == '"' || c == '\'' with
    | none =>
        intro c mem
        simpa using List.find?_eq_none.mp hfirst c mem
    | some quote =>
        exfalso
        obtain ⟨isQuote, front, back, hkey, noQuote⟩ := List.find?_eq_some_iff_append.mp hfirst
        have quotes : quote = '"' ∨ quote = '\'' := by simpa using isQuote
        have hmarkup : w.markup = front ++ quote :: (back ++ w.assignment) := by
          rw [Written.markup, hkey, List.append_assoc, List.cons_append]
        have hafter : w.markup ++ after = front ++ quote :: (back ++ w.assignment ++ after) := by
          rw [hmarkup, List.append_assoc, List.cons_append]
        rw [hafter, writtenLength_append (fun c mem => by simpa using noQuote c mem) quotes]
          at length
        split at length
        case isTrue closed =>
          -- the range ends at the next quote of this kind, which is not the attribute's last
          exact next_quote_ne_last quotes hmarkup hafter closed length
        case isFalse =>
          rw [← hafter, Text.byteCount_append] at length
          have hpos := Text.byteCount_pos nonempty
          omega
  · intro noQuote
    have hnone : ∀ c ∈ w.key ++ w.left ++ '=' :: w.right, c ≠ '"' ∧ c ≠ '\'' := by
      simp only [List.mem_append, List.mem_cons]
      rintro c ((mem | mem) | rfl | mem)
      · exact noQuote c mem
      · exact gives.leftBlank.noQuote c mem
      · exact ⟨by decide, by decide⟩
      · exact gives.rightBlank.noQuote c mem
    have hraw : (w.raw ++ w.quote :: after).takeWhile (· != w.quote) = w.raw :=
      takeWhile_run (fun c mem => by simpa using gives.noEnd c mem) (by simp)
    have hmarkup : w.markup ++ after =
        w.key ++ w.left ++ '=' :: w.right ++ w.quote :: (w.raw ++ w.quote :: after) := by
      simp [Written.markup, Written.assignment]
    have hclosed : w.raw.length < (w.raw ++ w.quote :: after).length := by simp
    rw [hmarkup, writtenLength_append hnone gives.quotes, hraw, if_pos hclosed]
    simp only [Written.markup, Written.assignment, Text.byteCount_append, Text.byteCount_cons,
      Text.byteCount_nil, utf8Size_quote gives.quotes]
    omega

end One

/-! ## Looking for all attributes -/

/-- The attribute that is made from a place in the tag. -/
theorem isAt_iff (s : Source) (start : Nat) {front before after : List Char} {w : Written}
    {name value : String} (gives : w.Gives name value) (front' : front ++ before ≠ [])
    (nonempty : after ≠ []) :
    let markup := front ++ (before ++ (w.markup ++ after))
    let offset := keyOffset markup (byteCount front) w.key
    let length := writtenLength ((Text.dropBytes? offset markup).getD [])
    Attribute.IsAt ⟨name, value, s.location (start + offset) (start + offset + length)⟩
        ⟨start + byteCount (front ++ before),
          start + byteCount (front ++ before) + byteCount w.markup, w.markup⟩ ↔
      w.IsPlain before after := by
  intro markup offset length
  rw [Written.IsPlain, ← keyOffset_eq_iff front before after w front', Attribute.IsAt]
  show start + offset = _ ∧ start + offset + length = _ ↔ offset = _ ∧ _
  rw [Nat.add_left_cancel_iff]
  refine and_congr_right fun here => ?_
  have hdrop : Text.dropBytes? offset markup = some (w.markup ++ after) := by
    rw [here]
    show Text.dropBytes? _ (front ++ (before ++ (w.markup ++ after))) = _
    rw [← List.append_assoc, Text.dropBytes?_append]
  rw [here, Nat.add_left_cancel_iff, ← writtenLength_eq_iff gives nonempty]
  show writtenLength ((Text.dropBytes? offset markup).getD []) = _ ↔ _
  rw [hdrop, Option.getD_some]

theorem placed_eq_places_iff {s : Source} {start : Nat} {ending : List Char}
    (nonempty : ending ≠ []) {ws : List Written} {pairs : List (String × String)}
    (gives : List.Forall₂ (fun w pair => Written.Gives w pair.1 pair.2) ws pairs)
    (front before : List Char) (behind : front ++ before ≠ []) :
    List.Forall₂ Attribute.IsAt
        (placed s start (front ++ (before ++ (ws.flatMap Written.text ++ ending)))
          (byteCount front) pairs)
        (places (start + byteCount (front ++ before)) ws) ↔
      ArePlain ending before ws := by
  induction gives generalizing front before with
  | nil => simp [placed, places, ArePlain]
  | @cons w pair ws pairs first _ ih =>
      have hmarkup : front ++ (before ++ ((w :: ws).flatMap Written.text ++ ending)) =
          front ++ ((before ++ w.gap) ++ (w.markup ++ (ws.flatMap Written.text ++ ending))) := by
        simp [Written.text]
      have hkey : pair.1.toList = w.key := by rw [first.name, String.toList_ofList]
      have behind' : front ++ (before ++ w.gap) ≠ [] := by
        rw [← List.append_assoc]
        exact List.append_ne_nil_of_left_ne_nil behind _
      have after : ws.flatMap Written.text ++ ending ≠ [] :=
        List.append_ne_nil_of_right_ne_nil _ nonempty
      have hone := isAt_iff s start first behind' after
      have hstart : start + byteCount (front ++ before) + byteCount w.gap =
          start + byteCount (front ++ (before ++ w.gap)) := by
        simp only [Text.byteCount_append]
        omega
      have hstop : start + byteCount (front ++ before) + byteCount w.text =
          start + byteCount (front ++ (before ++ w.gap)) + byteCount w.markup := by
        simp only [Written.text, Text.byteCount_append]
        omega
      rw [placed, places, ArePlain, List.forall₂_cons, hmarkup, hkey, hstart, hstop]
      refine (and_congr_left' hone).trans (and_congr_right fun plain => ?_)
      -- the first place is right, so the next search stands at the end of the first key
      have here := (keyOffset_eq_iff front _ _ w behind').mpr plain.1
      have hsearch : keyOffset (front ++ (before ++ w.gap ++ (w.markup ++
          (ws.flatMap Written.text ++ ending)))) (byteCount front) w.key + pair.1.utf8ByteSize =
          byteCount (front ++ (before ++ w.gap) ++ w.key) := by
        rw [here, first.name, Text.utf8ByteSize_ofList, ← Text.byteCount_append]
      have hrest : front ++ (before ++ w.gap ++ (w.markup ++ (ws.flatMap Written.text ++ ending))) =
          front ++ (before ++ w.gap) ++ w.key ++
            (w.assignment ++ (ws.flatMap Written.text ++ ending)) := by
        simp [Written.markup]
      have hnext : start + byteCount (front ++ (before ++ w.gap)) + byteCount w.markup =
          start + byteCount (front ++ (before ++ w.gap) ++ w.key ++ w.assignment) := by
        simp only [Written.markup, Text.byteCount_append]
        omega
      rw [hsearch, hrest, hnext]
      exact ih _ _ (by simp [Written.assignment])

/-! ## Where the reader has them -/

theorem exists_location_of_mem_placed {s : Source} {start search : Nat} {markup : List Char}
    {pairs : List (String × String)} {a : Attribute}
    (mem : a ∈ placed s start markup search pairs) :
    ∃ first last, a.location = s.location first last := by
  induction pairs generalizing search with
  | nil => cases mem
  | cons pair pairs ih =>
      obtain rfl | mem := List.mem_cons.mp mem
      · exact ⟨_, _, rfl⟩
      · exact ih mem

/-- The places of a tag are between its first and its last bracket. -/
theorem Layout.bounds_of_mem_places {t : Layout} {start : Nat} {p : Place}
    (mem : p ∈ t.places start) :
    ∃ front back, t.markup = front ++ p.markup ++ back ∧ p.start = start + byteCount front ∧
      p.stop = p.start + byteCount p.markup ∧ front ≠ [] ∧ back ≠ [] := by
  obtain ⟨front, back, htext, hstart, hstop⟩ := mem_places mem
  refine ⟨'<' :: t.name ++ front, back ++ t.ending, ?_, ?_, hstop, by simp, ?_⟩
  · rw [Layout.markup, htext]
    simp
  · rw [hstart, Text.byteCount_append, Nat.add_assoc]
  · rw [Layout.ending]
    cases t.isEmpty <;> simp

theorem Layout.inside_of_mem_places {t : Layout} {l : Location} {text : List Char} {p : Place}
    (covers : l.Covers text t.markup) (mem : p ∈ t.places l.startByte) :
    Text.slice? p.start p.stop text = some p.markup ∧
      l.startByte < p.start ∧ p.stop < l.endByte := by
  obtain ⟨front, back, rfl, hfirst, hlast⟩ := covers
  obtain ⟨before, after, hinside, hstart, hstop, nonempty, nonempty'⟩ :=
    Layout.bounds_of_mem_places mem
  have hbytes : byteCount t.markup = byteCount before + byteCount p.markup + byteCount after := by
    rw [hinside, Text.byteCount_append, Text.byteCount_append]
  have := Text.byteCount_pos nonempty
  have := Text.byteCount_pos nonempty'
  have hoffset : p.start = byteCount (front ++ before) := by
    rw [hstart, hfirst, Text.byteCount_append]
  have hwhole : front ++ t.markup ++ back = front ++ before ++ p.markup ++ (after ++ back) := by
    rw [hinside]
    simp
  refine ⟨?_, by omega, by omega⟩
  rw [hstop, hoffset, hwhole]
  exact Text.slice?_append _ _ _

theorem Layout.forall₂_isAt_iff {t : Layout} {e : Element} (gives : t.Gives e) (s : Source)
    (start : Nat) :
    List.Forall₂ Attribute.IsAt
        (placed s start t.markup 0 (e.attributes.map fun a => (a.name, a.value)))
        (t.places start) ↔ t.IsPlain := by
  have nonempty : t.ending ≠ [] := by
    rw [Layout.ending]
    cases t.isEmpty <;> simp
  have hmarkup : t.markup =
      [] ++ ('<' :: t.name ++ (t.written.flatMap Written.text ++ t.ending)) := by
    simp [Layout.markup]
  rw [Layout.places, Layout.IsPlain, hmarkup]
  exact placed_eq_places_iff nonempty (List.forall₂_map_right_iff.mpr gives.attributes) []
    ('<' :: t.name) (by simp)

/-- An element of an unmarked text is read from the tag in its range. -/
theorem exists_layout_of_mem {s : Source} {p : Progress} (progress : s.progress = .ok p)
    (noMark : unmarked s.text = s.text) {e : Element} (mem : e ∈ p.document.elements.toList) :
    ∃ t : Layout, t.Gives e ∧ e.location.Covers s.text t.markup ∧
      e.attributes = placed s e.location.startByte t.markup 0
        (e.attributes.map fun a => (a.name, a.value)) := by
  obtain ⟨o, front, back, htext, hstart, isOpening, draws⟩ := exists_opening progress mem
  obtain ⟨t, hmarkup, gives⟩ := (draws.isWrittenBy isOpening).exists_layout
  obtain ⟨pairs, -, he⟩ := draws.eq
  have hfirst : e.location.startByte = o.start := congrArg (·.location.startByte) he
  have hlast : e.location.endByte = o.stop := congrArg (·.location.endByte) he
  rw [noMark] at htext
  refine ⟨t, gives, ⟨front, back, by rw [htext, hmarkup], hfirst.trans hstart, ?_⟩, ?_⟩
  · rw [hlast, hfirst, ← hmarkup]
    rfl
  · have hslice : Text.slice? o.start o.stop s.text = some t.markup := by
      rw [Opening.stop, hstart, htext, hmarkup]
      exact Text.slice?_append front t.markup back
    have hplaced : e.attributes = placed s o.start _ 0 pairs := congrArg (·.attributes) he
    rw [hslice, Option.getD_some] at hplaced
    have hpairs := congrArg (List.map fun a => (a.name, a.value)) hplaced
    rw [placed_pairs] at hpairs
    rw [hpairs, hfirst]
    exact hplaced

end Markup

open Text (byteCount dropWhile_run)

/-- `l.CountsLines text`: line and column are those of the first byte. -/
def Location.CountsLines (l : Location) (text : List Char) : Prop :=
  ∀ front back, text = front ++ back → l.startByte = byteCount front →
    l.line = front.count '\n' + 1 ∧ l.column = byteCount (front.reverse.takeWhile (· != '\n')) + 1

theorem Markup.Source.location_countsLines (s : Markup.Source) (start stop : Nat) :
    (s.location start stop).CountsLines s.text := by
  intro front back htext hstart
  have hcolumn := LineColumn.ofOffset_append front back
  rw [← htext, ← hstart] at hcolumn
  exact ⟨congrArg LineColumn.line hcolumn, congrArg LineColumn.column hcolumn⟩

open Markup

/-- **Attributes are where they are said to be if each is found there.** In a
text without a mark of byte order, the tag of an element can be taken apart
into attributes that stand inside it one behind the other.  The attributes
of the element are at these places exactly if all of them are plain: no key
holds a quote, and looked for from the end of the key before it, each key
turns up first where its attribute stands. -/
theorem attributes_at_places_iff_isPlain {path : FilePath} {text : String} {d : Document}
    (h : Markup.read path text = .ok d) (noMark : unmarked text.toList = text.toList) :
    ∀ e ∈ d.elements.toList, ∃ t : Layout, t.Gives e ∧
      e.location.Covers text.toList t.markup ∧
      (∀ p ∈ t.places e.location.startByte,
        Text.slice? p.start p.stop text.toList = some p.markup ∧
          e.location.startByte < p.start ∧ p.stop < e.location.endByte) ∧
      (t.places e.location.startByte).Pairwise (fun p p' => p.stop ≤ p'.start) ∧
      (∀ a ∈ e.attributes, a.location.CountsLines text.toList) ∧
      (List.Forall₂ Attribute.IsAt e.attributes (t.places e.location.startByte) ↔ t.IsPlain) := by
  intro e mem
  obtain ⟨p, progress, rfl⟩ := read_eq_ok_iff.mp h
  obtain ⟨t, gives, covers, hattributes⟩ := exists_layout_of_mem progress noMark mem
  refine ⟨t, gives, covers, fun _ mem => Layout.inside_of_mem_places covers mem,
    pairwise_places _ _, fun a mem => ?_, ?_⟩
  · rw [hattributes] at mem
    obtain ⟨first, last, hlocation⟩ := exists_location_of_mem_placed mem
    rw [hlocation]
    exact Source.location_countsLines _ first last
  · rw [hattributes]
    exact Layout.forall₂_isAt_iff gives _ _

/-- A tag with blanks around the sign, a value in single quotes and a key
that ends in an earlier one. -/
def plainText : String :=
  "<item app:text = 'a\"b'\n  id=\"x\"/>"

theorem attributes_at_places_plainText :
    ∃ d, Markup.read ⟨"res/layout/a.xml"⟩ plainText = .ok d ∧ ∃ e ∈ d.elements.toList,
      e.attributes.map (fun a => (a.location.line, a.location.startByte, a.location.endByte)) =
        [(1, 6, 22), (2, 25, 31)] ∧
      ∃ t : Layout, t.Gives e ∧ e.location.Covers plainText.toList t.markup ∧
        (∀ p ∈ t.places e.location.startByte,
          Text.slice? p.start p.stop plainText.toList = some p.markup ∧
            e.location.startByte < p.start ∧ p.stop < e.location.endByte) ∧
        (t.places e.location.startByte).Pairwise (fun p p' => p.stop ≤ p'.start) ∧
        (∀ a ∈ e.attributes, a.location.CountsLines plainText.toList) ∧
        (List.Forall₂ Attribute.IsAt e.attributes (t.places e.location.startByte) ↔ t.IsPlain) := by
  obtain ⟨d, hread, hranges⟩ := exists_read_of_map
    (show (Markup.read ⟨"res/layout/a.xml"⟩ plainText).toOption.map
        (·.elements.toList.map fun e => e.attributes.map fun a =>
          (a.location.line, a.location.startByte, a.location.endByte)) =
      some [[(1, 6, 22), (2, 25, 31)]] by decide +kernel)
  obtain ⟨e, helements, hrange⟩ := List.map_eq_singleton_iff.mp hranges
  have mem : e ∈ d.elements.toList := helements ▸ List.mem_singleton.mpr rfl
  exact ⟨d, hread, e, mem, hrange,
    attributes_at_places_iff_isPlain hread (by decide +kernel) e mem⟩

/-- A tag with the key of an attribute in the value before it. -/
def nestedKeyText : String :=
  "<View a=\"b=\" b=\"x\"/>"

/-- The quoted value is what the markup of an attribute ends with. -/
theorem Markup.Written.Gives.quoted_eq {w : Written} {name value : String}
    (gives : w.Gives name value) :
    ((w.markup.tail.dropWhile isKeyPart).dropWhile isSpace).tail.dropWhile isSpace =
      w.quote :: (w.raw ++ [w.quote]) := by
  obtain ⟨c, r, hkey, -, parts⟩ := gives.key
  have hmarkup : w.markup.tail =
      r ++ (w.left ++ '=' :: (w.right ++ w.quote :: (w.raw ++ [w.quote]))) := by
    simp [Written.markup, Written.assignment, hkey]
  have apart : ∀ c ∈ w.left, isKeyPart c = false := by
    intro c mem
    simp [isKeyPart, gives.leftBlank c mem]
  have visible : isSpace w.quote = false := by
    obtain quotes | quotes := gives.quotes <;> rw [quotes] <;> rfl
  rw [hmarkup, dropWhile_run_gap parts apart rfl, dropWhile_run gives.leftBlank rfl, List.tail_cons,
    dropWhile_run gives.rightBlank visible]

/-- The range of the second attribute begins inside the value of the first,
and what it holds does not give the attribute's value. -/
theorem nestedKey_range_holds_no_attribute :
    ∃ d, Markup.read ⟨"res/layout/a.xml"⟩ nestedKeyText = .ok d ∧ ∃ e ∈ d.elements.toList,
      ∃ a ∈ e.attributes, ¬ ∃ w : Written, w.Gives a.name a.value ∧
        a.location.Covers nestedKeyText.toList w.markup := by
  obtain ⟨d, hread, hranges⟩ := exists_read_of_map
    (show (Markup.read ⟨"res/layout/a.xml"⟩ nestedKeyText).toOption.map
        (·.elements.toList.map fun e => e.attributes.map fun a =>
          (a.value, a.location.startByte, a.location.endByte)) =
      some [[("b=", 6, 12), ("x", 9, 16)]] by decide +kernel)
  obtain ⟨e, helements, hrange⟩ := List.map_eq_singleton_iff.mp hranges
  obtain ⟨a, others, hattributes, -, hothers⟩ := List.map_eq_cons_iff.mp hrange
  obtain ⟨b, rfl, hb⟩ := List.map_eq_singleton_iff.mp hothers
  obtain ⟨hvalue, hfirst, hlast⟩ : b.value = "x" ∧ b.location.startByte = 9 ∧
      b.location.endByte = 16 := by simpa using hb
  refine ⟨d, hread, e, helements ▸ List.mem_singleton.mpr rfl, b, by simp [hattributes], ?_⟩
  rintro ⟨w, gives, front, back, htext, hstart, hstop⟩
  have hmarkup : w.markup = "b=\" b=\"".toList := by
    have hslice := Text.slice?_append front w.markup back
    rw [← htext, ← hstart, ← hstop, hfirst, hlast] at hslice
    exact Option.some.inj (hslice.symm.trans (by decide +kernel))
  -- so the value between the quotes is another one
  have hquoted := gives.quoted_eq
  rw [hmarkup] at hquoted
  obtain ⟨hquote, hraw⟩ := List.cons.inj
    (hquoted.symm.trans (show _ = '"' :: (" b=".toList ++ ['"']) by decide +kernel))
  rw [hquote] at hraw
  have hunescape := gives.value
  rw [List.append_cancel_right hraw, hvalue] at hunescape
  exact absurd (congrArg Except.toOption hunescape) (by decide +kernel)

end AndroidLint
