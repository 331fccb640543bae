/-
PathPieces — the pieces of a path, and what a root leaves of them.

A path is cut at its slashes.  Pieces that are empty or a single period count for
nothing, so behind a path's name only such pieces can stand
(`splitAll_of_fileName?`).  Seen from a root that it lies below, a path loses
pieces at the front only, and keeps its name unless nothing is left
(`fileName?_seenFrom`).  A path's parent lacks the last piece that counts
(`steps_parent?`).
-/
import Mathlib.Data.List.Induction
import AndroidLint.FilePath
import AndroidLint.Proofs.Text.Parts

namespace AndroidLint

namespace FilePath

/-! ## Components -/

theorem component?_eq (step : String) :
    component? step = if step.isEmpty || step == "." then none
      else if step == ".." then some .parent else some (.named step) := by
  unfold component?
  split <;> simp_all

theorem eq_of_component?_eq_named {piece name : String}
    (named : component? piece = some (.named name)) : piece = name := by
  rw [component?_eq] at named
  split at named
  · cases named
  · split at named
    · cases named
    · exact Component.named.inj (Option.some.inj named)

theorem isIdle_iff {piece : String} : isIdle piece = true ↔ piece = "" ∨ piece = "." := by
  rw [isIdle, component?_eq]
  split
  case isTrue idle => simpa using idle
  case isFalse counts =>
    have other : ¬ (piece = "" ∨ piece = ".") := by simpa using counts
    split <;> simpa using other

/-- The lead of a path stands for no piece that counts. -/
theorem filterMap_pieces (p : FilePath) :
    (Text.splitAll '/' p.text).filterMap component? = p.division.body.filterMap component? := by
  rw [division]
  split
  case h_1 pieces => rw [pieces]; rfl
  case h_2 pieces => rw [pieces]; rfl
  case h_3 => rfl

theorem lead_division (p : FilePath) (name : String) : p.division.lead ≠ some (.named name) := by
  rw [division]
  split <;> nofun

/-- A path has the name that its last piece that counts gives it. -/
theorem fileName?_eq_some_iff {p : FilePath} {name : String} :
    p.fileName? = some name ↔
      ((Text.splitAll '/' p.text).filterMap component?).getLast? = some (.named name) := by
  have last : p.fileName? = some name ↔ p.components.getLast? = some (.named name) := by
    rw [fileName?]
    split
    case h_1 _ last => rw [last]; simp
    case h_2 other => exact ⟨nofun, fun last => absurd last (other name)⟩
  rw [last, filterMap_pieces, components, List.getLast?_append]
  cases (p.division.body.filterMap component?).getLast? with
  | some c => rfl
  | none =>
      have lead := p.lead_division name
      cases hlead : p.division.lead with
      | none => simp
      | some c => simpa [hlead] using lead

/-! ## Idle pieces -/

theorem filterMap_idle {pieces : List String} (idle : ∀ p ∈ pieces, isIdle p = true) :
    pieces.filterMap component? = [] :=
  List.filterMap_eq_nil_iff.mpr fun p mem => Option.isNone_iff_eq_none.mp (idle p mem)

theorem dropWhile_isIdle_eq_nil {pieces : List String}
    (none : pieces.filterMap component? = []) : pieces.dropWhile isIdle = [] :=
  List.dropWhile_eq_nil_iff.mpr fun p mem =>
    Option.isNone_iff_eq_none.mpr (List.filterMap_eq_nil_iff.mp none p mem)

theorem filterMap_trimEnd (pieces : List String) :
    (trimEnd pieces).filterMap component? = pieces.filterMap component? := by
  have idle : ((pieces.reverse.takeWhile isIdle).reverse).filterMap component? = [] :=
    filterMap_idle fun p mem => List.mem_takeWhile_imp (List.mem_reverse.mp mem)
  calc (trimEnd pieces).filterMap component?
      = (trimEnd pieces ++ (pieces.reverse.takeWhile isIdle).reverse).filterMap component? := by
        rw [List.filterMap_append, idle, List.append_nil]
    _ = pieces.filterMap component? := by
        rw [trimEnd, ← List.reverse_append, List.takeWhile_append_dropWhile, List.reverse_reverse]

theorem filterMap_dropWhile_isIdle (pieces : List String) :
    (pieces.dropWhile isIdle).filterMap component? = pieces.filterMap component? := by
  have idle : (pieces.takeWhile isIdle).filterMap component? = [] :=
    filterMap_idle fun p mem => List.mem_takeWhile_imp mem
  calc (pieces.dropWhile isIdle).filterMap component?
      = (pieces.takeWhile isIdle ++ pieces.dropWhile isIdle).filterMap component? := by
        rw [List.filterMap_append, idle, List.nil_append]
    _ = pieces.filterMap component? := by rw [List.takeWhile_append_dropWhile]

theorem trimEnd_append {front : List String} {piece : String} {idle : List String}
    (counts : isIdle piece = false) (behind : ∀ p ∈ idle, isIdle p = true) :
    trimEnd (front ++ piece :: idle) = front ++ [piece] := by
  have turned : ∀ p ∈ idle.reverse, isIdle p = true := fun p mem =>
    behind p (List.mem_reverse.mp mem)
  rw [trimEnd, List.reverse_append, List.reverse_cons, List.append_assoc,
    List.dropWhile_append_of_pos turned, List.singleton_append,
    List.dropWhile_cons_of_neg (by simp [counts])]
  simp

theorem trimEnd_sublist (pieces : List String) : (trimEnd pieces).Sublist pieces := by
  simpa [trimEnd] using (List.dropWhile_sublist isIdle (l := pieces.reverse)).reverse

/-- Behind the last piece that counts, all are idle. -/
theorem cut_of_getLast? {pieces : List String} {name : String}
    (last : (pieces.filterMap component?).getLast? = some (.named name)) :
    ∃ front idle, pieces = front ++ name :: idle ∧ isIdle name = false ∧
      ∀ p ∈ idle, isIdle p = true := by
  induction pieces using List.reverseRecOn with
  | nil => cases last
  | append_singleton pieces piece ih =>
      rw [List.filterMap_append] at last
      cases counts : component? piece with
      | none =>
          rw [List.filterMap_cons_none counts, List.filterMap_nil, List.append_nil] at last
          obtain ⟨front, idle, rfl, named, behind⟩ := ih last
          refine ⟨front, idle ++ [piece], by simp, named, ?_⟩
          rw [List.forall_mem_append]
          exact ⟨behind, by simp [isIdle, counts]⟩
      | some c =>
          rw [List.filterMap_cons_some counts, List.filterMap_nil, List.getLast?_concat,
            Option.some.injEq] at last
          rw [last] at counts
          obtain rfl := eq_of_component?_eq_named counts
          exact ⟨pieces, [], rfl, by simp [isIdle, counts], nofun⟩

/-- The pieces in front of the last one that counts: the folders that the path
leads through, `.` and `..` among them. -/
def directories (p : FilePath) : List String :=
  (trimEnd (Text.splitAll '/' p.text)).dropLast

/-- The pieces behind the last one that counts. -/
def trailer (p : FilePath) : List String :=
  (Text.splitAll '/' p.text).drop (trimEnd (Text.splitAll '/' p.text)).length

/-- A path that ends in a name has folders in front of the name, and idle
pieces behind it. -/
theorem splitAll_of_fileName? {p : FilePath} {name : String} (named : p.fileName? = some name) :
    Text.splitAll '/' p.text = p.directories ++ name :: p.trailer ∧
      ∀ piece ∈ p.trailer, isIdle piece = true := by
  obtain ⟨front, idle, whole, counts, behind⟩ := cut_of_getLast? (fileName?_eq_some_iff.mp named)
  rw [directories, trailer, whole, trimEnd_append counts behind, List.dropLast_concat]
  simpa using behind

/-- A name with an extension is the stem, a period and the extension. -/
theorem fileName?_of_extension? {p : FilePath} {ext : String} (known : p.extension? = some ext) :
    ∃ name stem, p.fileName? = some name ∧ p.stem? = some stem ∧
      name.toList = stem.toList ++ '.' :: ext.toList := by
  obtain ⟨name, named, known⟩ := Option.bind_eq_some_iff.mp known
  split at known
  case h_1 => cases known
  case h_2 => cases known
  case h_3 _ stem other before =>
    obtain rfl := Option.some.inj known
    refine ⟨name, stem, named, ?_, Text.eq_of_beforeLast? before⟩
    rw [stem?, named, Option.map_some, before]
    split
    case h_1 none => cases none
    case h_2 empty => exact absurd (Option.some.inj empty) other
    case h_3 same => exact congrArg Option.some (Option.some.inj same).symm

theorem slash_not_mem_directories {p : FilePath} {d : String} (mem : d ∈ p.directories) :
    '/' ∉ d.toList :=
  (Text.splitAll_eq_iff.mp rfl).2.1 d
    ((trimEnd_sublist _).subset ((List.dropLast_sublist _).subset mem))

theorem slash_not_mem_stem {p : FilePath} {stem : String} (stemmed : p.stem? = some stem) :
    '/' ∉ stem.toList := by
  obtain ⟨name, named, rfl⟩ := Option.map_eq_some_iff.mp stemmed
  have mem : name ∈ Text.splitAll '/' p.text := by
    rw [(splitAll_of_fileName? named).1]
    simp
  have apart : '/' ∉ name.toList := (Text.splitAll_eq_iff.mp rfl).2.1 name mem
  split
  case h_1 => exact apart
  case h_2 => exact apart
  case h_3 before =>
    rw [Text.eq_of_beforeLast? before] at apart
    exact fun slash => apart (List.mem_append_left _ slash)

/-! ## What a root leaves -/

theorem filterMap_dropComponents (n : Nat) (pieces : List String) :
    (dropComponents n pieces).filterMap component? = (pieces.filterMap component?).drop n := by
  induction n generalizing pieces with
  | zero => rfl
  | succ n ih =>
      rw [dropComponents, ih, ← filterMap_dropWhile_isIdle pieces]
      cases front : pieces.dropWhile isIdle with
      | nil => simp
      | cons piece rest =>
          have stop := List.head?_dropWhile_not isIdle pieces
          rw [front] at stop
          cases counts : component? piece with
          | none => simp [isIdle, counts] at stop
          | some c => simp [List.filterMap_cons_some counts]

section Pieces

variable {pieces : List String} {n : Nat}

theorem dropComponents_sublist (n : Nat) (pieces : List String) :
    (dropComponents n pieces).Sublist pieces := by
  induction n generalizing pieces with
  | zero => exact .refl _
  | succ n ih =>
      exact (ih _).trans ((List.drop_sublist 1 _).trans (List.dropWhile_sublist isIdle))

theorem body_division_subset (p : FilePath) : p.division.body ⊆ Text.splitAll '/' p.text := by
  rw [division]
  split
  case h_1 pieces => rw [pieces]; exact List.subset_cons_self _ _
  case h_2 pieces => rw [pieces]; exact List.subset_cons_self _ _
  case h_3 => exact List.Subset.refl _

theorem splitAll_intercalate (apart : ∀ p ∈ pieces, '/' ∉ p.toList) (some : pieces ≠ []) :
    Text.splitAll '/' ("/".intercalate pieces) = pieces :=
  Text.splitAll_eq_iff.mpr ⟨rfl, apart, some⟩

theorem filterMap_lead (lead : String) (apart : ∀ p ∈ lead :: pieces, '/' ∉ p.toList)
    (idle : component? lead = none) (some : pieces ≠ []) :
    (Text.splitAll '/' (lead ++ "/" ++ "/".intercalate pieces)).filterMap component? =
      pieces.filterMap component? := by
  rw [← String.intercalate_cons_of_ne_nil some, splitAll_intercalate apart (List.cons_ne_nil _ _),
    List.filterMap_cons_none idle]

/-- What the text of a division has besides its body counts for nothing. -/
theorem filterMap_render {d : Division} (apart : ∀ p ∈ d.body, '/' ∉ p.toList) :
    (Text.splitAll '/' d.render.text).filterMap component? = d.body.filterMap component? := by
  obtain ⟨lead, body⟩ := d
  cases body with
  | nil =>
      obtain _ | _ | _ | _ | name := lead
      all_goals rfl
  | cons piece body =>
      have some := List.cons_ne_nil piece body
      obtain _ | _ | _ | _ | name := lead
      case some.root =>
        exact filterMap_lead "" (List.forall_mem_cons.mpr ⟨by decide, apart⟩) rfl some
      case some.current =>
        exact filterMap_lead "." (List.forall_mem_cons.mpr ⟨by decide, apart⟩) rfl some
      all_goals exact congrArg _ (splitAll_intercalate apart some)

/-- Below a base, a path has no text left or the name it had. -/
theorem fileName?_of_below? {p base q : FilePath} {name : String} (below : p.below? base = some q)
    (named : p.fileName? = some name) : q.text = "" ∨ q.fileName? = some name := by
  have apart : ∀ piece ∈ p.division.body, '/' ∉ piece.toList := fun piece mem =>
    (Text.splitAll_eq_iff.mp rfl).2.1 piece (p.body_division_subset mem)
  rw [fileName?_eq_some_iff, filterMap_pieces] at named
  rw [fileName?_eq_some_iff]
  rw [below?] at below
  split at below
  case isFalse => cases below
  case isTrue =>
    split at below
    case h_1 lead body _ division =>
      obtain rfl := Option.some.inj below
      rw [division] at named apart
      right
      rw [filterMap_render fun piece mem => apart piece ((trimEnd_sublist body).subset mem),
        filterMap_trimEnd, named]
    case h_2 n lead body _ division =>
      obtain rfl := Option.some.inj below
      rw [division] at named apart
      generalize (if lead.isSome = true then n else n + 1) = n
      have sub : (trimEnd ((dropComponents n body).dropWhile isIdle)).Sublist body :=
        (trimEnd_sublist _).trans ((List.dropWhile_sublist _).trans (dropComponents_sublist n body))
      by_cases none : (dropComponents n body).filterMap component? = []
      case pos =>
        left
        rw [dropWhile_isIdle_eq_nil none]
        rfl
      case neg =>
        right
        rw [filterMap_render fun piece mem => apart piece (sub.subset mem), filterMap_trimEnd,
          filterMap_dropWhile_isIdle]
        rw [filterMap_dropComponents] at none ⊢
        rw [List.getLast?_drop, if_neg (by simpa using none), named]

end Pieces

/-- A path as seen from a root, itself if it does not lie below it. -/
def seenFrom (p root : FilePath) : FilePath :=
  (p.below? root).getD p

theorem fileName?_seenFrom {p : FilePath} {name : String} (named : p.fileName? = some name)
    (root : FilePath) : (p.seenFrom root).text = "" ∨ (p.seenFrom root).fileName? = some name := by
  rw [seenFrom]
  cases below : p.below? root with
  | none => exact .inr named
  | some q => exact fileName?_of_below? below named

/-! ## Steps -/

/-- The steps that a path takes: its pieces that count. -/
def steps (p : FilePath) : List Component :=
  (Text.splitAll '/' p.text).filterMap component?

/-- The pieces up to the last that counts, if one does. -/
theorem trimEnd_cases (pieces : List String) :
    trimEnd pieces = [] ∨
      ∃ front piece c, trimEnd pieces = front ++ [piece] ∧ component? piece = some c := by
  rw [trimEnd]
  cases turned : pieces.reverse.dropWhile isIdle with
  | nil => exact .inl rfl
  | cons piece front =>
      have counts := List.head?_dropWhile_not isIdle pieces.reverse
      rw [turned, List.head?_cons] at counts
      obtain ⟨c, stands⟩ := Option.isSome_iff_exists.mp (by simpa [isIdle] using counts)
      exact .inr ⟨front.reverse, piece, c, List.reverse_cons, stands⟩

/-- A path's parent lacks its last step, and a path without a parent takes
none. -/
theorem steps_parent? (p : FilePath) : (p.parent?.map steps).getD [] = p.steps.dropLast := by
  have apart : ∀ piece ∈ p.division.body, '/' ∉ piece.toList := fun piece mem =>
    (Text.splitAll_eq_iff.mp rfl).2.1 piece (p.body_division_subset mem)
  have counted : p.steps = (trimEnd p.division.body).filterMap component? := by
    rw [filterMap_trimEnd, ← filterMap_pieces]
    rfl
  rw [counted, parent?]
  obtain empty | ⟨front, piece, c, cut, stands⟩ := trimEnd_cases p.division.body
  · rw [empty]
    cases p.division.lead with
    | none => rfl
    | some lead => cases lead <;> rfl
  · have behind : ∀ lead, steps (Division.render ⟨lead, trimEnd front⟩) =
        front.filterMap component? := by
      intro lead
      have inside : ∀ piece ∈ trimEnd front, '/' ∉ piece.toList := fun piece mem =>
        apart piece ((trimEnd_sublist _).subset
          (cut ▸ List.mem_append_left _ ((trimEnd_sublist _).subset mem)))
      rw [steps, filterMap_render inside, filterMap_trimEnd]
    have last : (front ++ [piece]).filterMap component? = front.filterMap component? ++ [c] := by
      rw [List.filterMap_append, List.filterMap_cons_some stands, List.filterMap_nil]
    rw [cut, last, List.dropLast_concat]
    split
    case h_1 none _ => exact absurd none (by simp)
    case h_2 none _ => exact absurd none (by simp)
    case h_3 => rw [List.dropLast_concat, Option.map_some, Option.getD_some, behind]

/-- The name that a path ends in, if there is a path, is known by its steps. -/
theorem bind_fileName?_of_steps {p q : Option FilePath}
    (same : (p.map steps).getD [] = (q.map steps).getD []) :
    p.bind (·.fileName?) = q.bind (·.fileName?) := by
  have named (o : Option FilePath) (name : String) : o.bind (·.fileName?) = some name ↔
      ((o.map steps).getD []).getLast? = some (.named name) := by
    cases o with
    | none => simp
    | some p => exact fileName?_eq_some_iff
  ext name
  rw [named, named, same]

end FilePath

end AndroidLint
