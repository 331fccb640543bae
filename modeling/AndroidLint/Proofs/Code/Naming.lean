/-
Naming — the full names of the classes of a Kotlin file.

A class is named when it is met: from the package that is known by then, and
from the class it lies in.  The package is known once the header of the file
has been read, so what is declared behind the header is named as the finished
file would name it (`Named`).  Nothing in the way trees are read makes the
header come first; `isHeaded` says of a tree that it does.

A node that is no header takes a `NamingStep`: it adds no class, or one that
is named rightly.  The walk through a tree keeps two things apart: as long as
no class has been made, a header may still come, and from then on it must
not (`named_walk`).
-/
import AndroidLint.Code.Reader
import AndroidLint.Proofs.Code.Kotlin

namespace AndroidLint

namespace Syntax

namespace Tree

mutual

/-- Whether a node of a tree is of a kind that satisfies `p`. -/
def has (p : Kind → Bool) : Tree → Bool
  | .word .. => false
  | .node k _ _ ts => p k || hasAmong p ts

/-- Whether a node of some trees is of a kind that satisfies `p`. -/
def hasAmong (p : Kind → Bool) : List Tree → Bool
  | [] => false
  | t :: ts => t.has p || hasAmong p ts

end

end Tree

end Syntax

namespace Code

namespace Kotlin

open Syntax (Tree Kind)

/-! ## Trees whose header comes first -/

/-- Whether a node gives its file a package. -/
def isHeader (k : Kind) : Bool :=
  k == .packageHeader

/-- Whether a node gives its file a class: one of its own, or the facade. -/
def isDeclaring (k : Kind) : Bool :=
  [.classDeclaration, .objectDeclaration, .companionObject, .objectLiteral, .method,
    .property].contains k

mutual

/-- Whether no header stands in or behind a declaration. -/
def isHeaded : Tree → Bool
  | .word .. => true
  | .node k _ _ ts => (!isDeclaring k || !Tree.hasAmong isHeader ts) && isHeadedAll ts

/-- Whether no header stands in or behind a declaration, in trees in a
row. -/
def isHeadedAll : List Tree → Bool
  | [] => true
  | t :: ts =>
      isHeaded t && (!t.has isDeclaring || !Tree.hasAmong isHeader ts) && isHeadedAll ts

end

/-! ## Names as the file gives them -/

/-- `Named f`: every class has the full name that the file gives it, by its
package and by the class around. -/
def Named (f : SourceFile) : Prop :=
  ∀ i c, f.class? i = some c → c.qualifiedName = qualifiedName f c.scope c.kind c.name

/-- `NamingStep s f g`: in the scope `s` the file `f` goes on to `g`, by no
class or by one that is named as `f` names it, and the package stays. -/
inductive NamingStep (s : Scope) (f g : SourceFile) : Prop
  | same (package? : g.package? = f.package?) (classes : g.classes = f.classes)
  | added {c : ClassDecl} (package? : g.package? = f.package?)
      (classes : g.classes = (f.addClass c).classes) (scope : c.scope = s ∨ c.scope = .file)
      (name : c.qualifiedName = qualifiedName f c.scope c.kind c.name)

section Files

variable {f g : SourceFile} {s : Scope}

theorem named_of_no_classes (empty : f.classes = #[]) : Named f := by
  intro i c found
  rw [SourceFile.class?, empty] at found
  cases found

/-- A name depends on the package and on the class around. -/
theorem qualifiedName_congr (package? : g.package? = f.package?) {kind : ClassKind} {name : String}
    (outer : s.class?.bind g.class? = s.class?.bind f.class?) :
    qualifiedName g s kind name = qualifiedName f s kind name := by
  rw [qualifiedName, qualifiedName, outer]
  simp only [SourceFile.qualify, package?]

/-- What a file holds it finds, whatever is added. -/
theorem bind_class?_addClass (holds : f.Holds s) (c : ClassDecl) :
    s.class?.bind (f.addClass c).class? = s.class?.bind f.class? := by
  cases hclass : s.class? with
  | none => rfl
  | some k =>
      obtain ⟨d, found⟩ := holds.class? k hclass
      rw [Option.bind_some, Option.bind_some, found]
      exact SourceFile.class?_addClass_of_found found c

/-- A step leaves the classes of a file named as the file names them. -/
theorem NamingStep.named (step : NamingStep s f g) (well : f.WellScoped) (holds : f.Holds s)
    (named : Named f) : Named g := by
  cases step with
  | same package? classes =>
      have hclass : g.class? = f.class? := by
        funext i
        rw [SourceFile.class?, classes, SourceFile.class?]
      intro i c found
      rw [hclass] at found
      rw [named i c found]
      exact (qualifiedName_congr package? (by rw [hclass])).symm
  | @added c package? classes scope name =>
      have hclass : g.class? = (f.addClass c).class? := by
        funext i
        rw [SourceFile.class?, classes, SourceFile.class?]
      have still : ∀ d : ClassDecl, f.Holds d.scope →
          d.qualifiedName = qualifiedName f d.scope d.kind d.name →
          d.qualifiedName = qualifiedName g d.scope d.kind d.name := by
        intro d held hname
        rw [hname]
        refine (qualifiedName_congr package? ?_).symm
        rw [hclass, bind_class?_addClass held]
      intro i d found
      rw [hclass, SourceFile.class?_addClass] at found
      split at found
      case isTrue =>
        obtain rfl := Option.some.inj found
        refine still _ ?_ name
        rcases scope with rfl | hfile
        · exact holds
        · rw [hfile]
          exact SourceFile.holds_file f
      case isFalse => exact still d (well.nested.holds_scope found) (named i d found)

end Files

/-! ## What a node adds -/

section Entries

variable {o : Origin} {s : Scope} {d : Draft} {t : Tree}

/-- `d.SameNames e`: package and classes of the draft stay as they are. -/
structure Draft.SameNames (d e : Draft) : Prop where
  package? : e.file.package? = d.file.package?
  classes : e.file.classes = d.file.classes

theorem Draft.SameNames.refl (d : Draft) : d.SameNames d :=
  ⟨rfl, rfl⟩

theorem sameNames_addImport : d.SameNames (addImport o d t) := by
  rw [addImport]
  split
  · exact .refl d
  · exact ⟨rfl, rfl⟩

theorem sameNames_declare (name? : Option Tree) (type? : Option String) :
    d.SameNames (declare o d s name? type?) := by
  rw [declare.eq_def]
  split
  · exact ⟨rfl, rfl⟩
  · exact .refl d

theorem sameNames_declareProperty : d.SameNames (declareProperty o d s t) := by
  rw [declareProperty]
  split
  · exact .refl d
  · exact sameNames_declare _ _

theorem sameNames_addCall : d.SameNames (addCall o d s t) := by
  rw [addCall]
  split
  · exact ⟨rfl, rfl⟩
  · exact .refl d

theorem sameNames_addPlainReference : d.SameNames (addPlainReference o d s t) := by
  rw [addPlainReference]
  split
  · exact .refl d
  · exact ⟨rfl, rfl⟩

theorem sameNames_addMemberReference : d.SameNames (addMemberReference o d s t) := by
  rw [addMemberReference]
  split
  · exact .refl d
  · split
    · exact .refl d
    · exact ⟨rfl, rfl⟩

/-- A node that declares nothing and is no header leaves names alone. -/
theorem sameNames_enter {k : Kind} (kind : t.kind? = some k) (noHeader : isHeader k = false)
    (noClass : isDeclaring k = false) (above : List Tree) :
    d.SameNames (enter o s above d t).state := by
  rw [enter.eq_def, kind]
  split
  case h_1 hk =>
    obtain rfl := Option.some.inj hk
    cases noHeader
  case h_2 => exact sameNames_addImport
  case h_9 => exact sameNames_declare _ _
  case h_10 => exact sameNames_addCall
  case h_11 => exact sameNames_addPlainReference
  case h_12 => exact sameNames_addMemberReference
  case h_13 | h_14 => exact ⟨rfl, rfl⟩
  case h_15 => exact .refl d
  case h_3 hk | h_4 hk | h_5 hk | h_6 hk | h_7 hk | h_8 hk =>
    obtain rfl := Option.some.inj hk
    cases noClass

/-- A header makes no class. -/
theorem classes_enter_header (kind : t.kind? = some .packageHeader) (above : List Tree) :
    (enter o s above d t).state.file.classes = d.file.classes := by
  rw [enter.eq_def, kind]
  rfl

/-- A class is named where it is met. -/
theorem namingStep_addClass (above : List Tree) :
    NamingStep s d.file (d.file.addClass (classOf o d.file s above t)) :=
  .added (c := classOf o d.file s above t) rfl rfl (.inl rfl) rfl

/-- The facade, if it has to be made, is named after the file. -/
theorem namingStep_inFacade : NamingStep s d.file (inFacade d s).1.file := by
  rw [inFacade.eq_def]
  split
  · exact .same rfl rfl
  · exact .same rfl rfl
  · exact .added (c := facadeOf d.file) rfl rfl (.inr rfl) rfl

theorem NamingStep.then_same {f : SourceFile} {e e' : Draft} (step : NamingStep s f e.file)
    (same : e.SameNames e') : NamingStep s f e'.file := by
  cases step with
  | same package? classes =>
      exact .same (same.package?.trans package?) (same.classes.trans classes)
  | added package? classes scope name =>
      exact .added (same.package?.trans package?) (same.classes.trans classes) scope name

/-- A node that is no header adds no class or one that is named rightly. -/
theorem namingStep_enter {k : Kind} (kind : t.kind? = some k) (noHeader : isHeader k = false)
    (above : List Tree) : NamingStep s d.file (enter o s above d t).state.file := by
  cases declaring : isDeclaring k with
  | false =>
      have same := sameNames_enter (o := o) (s := s) (d := d) kind noHeader declaring above
      exact .same same.package? same.classes
  | true =>
      simp only [isDeclaring, List.contains_iff_mem, List.mem_cons, List.not_mem_nil, or_false]
        at declaring
      rcases declaring with rfl | rfl | rfl | rfl | rfl | rfl
      all_goals rw [enter.eq_def, kind]
      · exact namingStep_addClass above
      · exact namingStep_addClass above
      · exact namingStep_addClass above
      · exact namingStep_addClass above
      · exact namingStep_inFacade.then_same ⟨rfl, rfl⟩
      · exact namingStep_inFacade.then_same sameNames_declareProperty

end Entries

/-! ## Walks -/

section Walks

variable {o : Origin}

/-- `d.Ready`: the draft is sound, and its classes are named as its file
names them. -/
structure Draft.Ready (d : Draft) : Prop where
  sound : d.Sound
  named : Named d.file

/-- Behind what has been read no header comes once a class is made: what was
read either declares something, or made no class. -/
theorem no_header_behind {declares header : Bool} {classes classes' : Array ClassDecl}
    (headed : (!declares || !header) = true) (quiet : declares = false → classes' = classes)
    (late : classes ≠ #[] → header = false) (made : classes' ≠ #[]) : header = false := by
  cases declares with
  | true => simpa using headed
  | false => exact late (quiet rfl ▸ made)

mutual

/-- A walk through a tree whose header comes first names classes rightly,
unless some have been made and a header is still to come; and it makes none
if nothing is declared. -/
theorem named_walk {s : Scope} {above : List Tree} {d : Draft} (ready : d.Ready) (fits : d.Fits s) :
    (t : Tree) → isHeaded t = true → (d.file.classes ≠ #[] → t.has isHeader = false) →
    (walk (enter o) s above d t).Ready ∧
      (t.has isDeclaring = false → (walk (enter o) s above d t).file.classes = d.file.classes)
  | .word .. => fun _ _ => ⟨ready, fun _ => rfl⟩
  | .node k r p ts => by
      intro headed late
      obtain ⟨sound, still, parts⟩ := keeps_enter s above d (.node k r p ts) ready.sound fits
      rw [isHeaded, Bool.and_eq_true] at headed
      rw [Tree.has, Bool.or_eq_false_iff] at late
      -- what the node itself adds: a header comes before all classes
      have named : Named (enter o s above d (.node k r p ts)).state.file := by
        cases header : isHeader k with
        | false =>
            exact (namingStep_enter rfl header above).named ready.sound.well fits.holds ready.named
        | true =>
            have empty : d.file.classes = #[] := by
              by_contra made
              rw [(late made).1] at header
              cases header
            obtain rfl := beq_iff_eq.mp header
            exact named_of_no_classes ((classes_enter_header rfl above).trans empty)
      have quiet : isDeclaring k = false →
          (enter o s above d (.node k r p ts)).state.file.classes = d.file.classes := by
        intro noClass
        cases header : isHeader k with
        | false => exact (sameNames_enter rfl header noClass above).classes
        | true =>
            obtain rfl := beq_iff_eq.mp header
            exact classes_enter_header rfl above
      have later := no_header_behind headed.1 quiet fun made => (late made).2
      obtain ⟨walked, quiet'⟩ := named_walkAll ⟨sound, named⟩ parts ts headed.2 later
      refine ⟨walked, fun nothing => ?_⟩
      rw [Tree.has, Bool.or_eq_false_iff] at nothing
      exact (quiet' nothing.2).trans (quiet nothing.1)

theorem named_walkAll {scope? : Tree → Option Scope} {above : List Tree} {d : Draft}
    (ready : d.Ready) (fits : ∀ u s, scope? u = some s → d.Fits s) :
    (ts : List Tree) → isHeadedAll ts = true →
    (d.file.classes ≠ #[] → Tree.hasAmong isHeader ts = false) →
    (walkAll (enter o) scope? above d ts).Ready ∧
      (Tree.hasAmong isDeclaring ts = false →
        (walkAll (enter o) scope? above d ts).file.classes = d.file.classes)
  | [] => fun _ _ => ⟨ready, fun _ => rfl⟩
  | t :: ts => by
      intro headed late
      rw [isHeadedAll, Bool.and_eq_true, Bool.and_eq_true] at headed
      rw [Tree.hasAmong, Bool.or_eq_false_iff] at late
      rw [Tree.hasAmong, Bool.or_eq_false_iff, walkAll]
      cases hscope : scope? t with
      | none =>
          obtain ⟨walked, quiet⟩ :=
            named_walkAll ready fits ts headed.2 fun made => (late made).2
          exact ⟨walked, fun nothing => quiet nothing.2⟩
      | some s =>
          obtain ⟨first, quiet⟩ := named_walk ready (fits t s hscope) t headed.1.1
            fun made => (late made).1
          obtain ⟨-, still⟩ := keeps_enter.walk ready.sound (fits t s hscope) t
          have later := no_header_behind headed.1.2 quiet fun made => (late made).2
          obtain ⟨walked, quiet'⟩ := named_walkAll first
            (fun u s' part => still s' (fits u s' part)) ts headed.2 later
          exact ⟨walked, fun nothing => (quiet' nothing.2).trans (quiet nothing.1)⟩

end

theorem wellScoped_read (path : FilePath) (text : String) :
    (Language.kotlin.read path text).WellScoped := by
  rw [Language.read]
  split
  case h_1 t _ => exact wellScoped_ofTree _ t
  case h_2 => exact .empty path .kotlin

/-- A tree whose header comes first gives a file that names its classes. -/
theorem named_ofTree (o : Origin) {t : Tree} (headed : isHeaded t = true) : Named (ofTree o t) := by
  have ready : Draft.Ready ⟨.empty o.path .kotlin, none, []⟩ :=
    ⟨Draft.sound_empty o.path, named_of_no_classes rfl⟩
  exact (named_walk ready (Draft.Fits.file _) t headed fun made => absurd rfl made).1.named

/-- So does a text, if the header comes first in it. -/
theorem named_read (path : FilePath) {text : String}
    (headed : ∀ t ∈ Language.kotlin.grammar.parse? text.toList, isHeaded t = true) :
    Named (Language.kotlin.read path text) := by
  rw [Language.read]
  split
  case h_1 t parsed => exact named_ofTree _ (headed t parsed)
  case h_2 => exact named_of_no_classes rfl

end Walks

end Kotlin

end Code

end AndroidLint
