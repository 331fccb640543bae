/-
Lookup — what is looked up in a value.

A member of an object counts only if no other has its name, so what is
found does not depend on which of several would be taken.  An array is
read item by item, so it stands for what its items stand for
(`standsFor_array`).
-/
import Mathlib.Data.List.Forall2
import AndroidLint.Proofs.Json.RoundTrip

namespace AndroidLint

namespace Json

namespace Value

section Reading

variable {α : Type} (read : Value → Option α)

/-- The values of the members with a name. -/
def named (name : String) : Value → List Value
  | .object ms => (ms.filter (·.1 == name)).map (·.2)
  | _ => []

/-- What `read` makes of the only member with a name. -/
def field? (name : String) (v : Value) : Option α :=
  match v.named name with
  | [w] => read w
  | _ => none

/-- What `read` makes of the only member with a name; `none` if there is no
such member. -/
def optional? (name : String) (v : Value) : Option (Option α) :=
  match v.named name with
  | [] => some none
  | [w] => (read w).map some
  | _ => none

/-- What `read` makes of a value other than null. -/
def nullable? : Value → Option (Option α)
  | .null => some none
  | v => (read v).map some

/-- What `read` makes of the items of an array, if of each. -/
def items? : Value → Option (List α)
  | .array vs => vs.mapM read
  | _ => none

end Reading

/-- The text that a string is. -/
def text? : Value → Option String
  | .string s => some s
  | _ => none

/-- The natural number that a number is. -/
def natural? : Value → Option Nat
  | .number n => if n.toList.all Char.isDigit then some (Text.decimal n.toList) else none
  | _ => none

@[simp]
theorem text?_string (s : String) : (Value.string s).text? = some s :=
  rfl

@[simp]
theorem natural?_nat (n : Nat) : (Value.nat n).natural? = some n := by
  have digits : (Nat.toDigits 10 n).all Char.isDigit = true :=
    List.all_eq_true.mpr (isDigit_toDigits n)
  have number : Text.decimal (Nat.toDigits 10 n) = n := by
    rw [Text.decimal, ← Nat.ofDigitChars_eq_foldl, Nat.ofDigitChars_ten_toDigits]
  rw [Value.nat, natural?, Nat.toString_eq_ofList_toDigits, String.toList_ofList, if_pos digits,
    number]

end Value

/-! ## Values that are read back -/

/-- `StandsFor read v a`: the value `v` is read as `a`, and is still there
when its text is read. -/
structure StandsFor {α : Type} (read : Value → Option α) (v : Value) (a : α) : Prop where
  whole : Whole v
  reads : read v = some a

section StandsFor

variable {α β ε : Type} {read : Value → Option β}

theorem StandsFor.parse? {v : Value} {b : β} (told : StandsFor read v b) :
    (Json.parse? (pretty v)).bind read = some b := by
  rw [parse?_pretty told.whole, Option.bind_some, told.reads]

/-- An array stands for what its items stand for. -/
theorem standsFor_array {vs : List Value} {bs : List β}
    (parts : List.Forall₂ (StandsFor read) vs bs) :
    StandsFor (Value.items? read) (.array vs) bs := by
  have split : List.Forall₂ (fun v b => Whole v ∧ read v = some b) vs bs :=
    parts.imp fun v b part => ⟨part.whole, part.reads⟩
  obtain ⟨whole, reads⟩ := (List.forall₂_and_left _ _).mp split
  refine ⟨.array whole, ?_⟩
  rw [Value.items?]
  clear parts split whole
  induction reads with
  | nil => rfl
  | cons first _ ih =>
      rw [List.mapM_cons, first, ih]
      rfl

theorem standsFor_map {write : α → Value} {g : α → β}
    (part : ∀ a, StandsFor read (write a) (g a)) (l : List α) :
    StandsFor (Value.items? read) (.array (l.map write)) (l.map g) := by
  refine standsFor_array ?_
  rw [List.forall₂_map_left_iff, List.forall₂_map_right_iff, List.forall₂_same]
  exact fun a _ => part a

/-- What is written item by item, if each item can be written. -/
theorem forall₂_of_mapM {write : α → Except ε Value} {l : List α} {vs : List Value}
    (written : l.mapM write = .ok vs) : List.Forall₂ (fun v a => write a = .ok v) vs l := by
  induction l generalizing vs with
  | nil =>
      obtain rfl : [] = vs := Except.ok.inj written
      exact .nil
  | cons a l ih =>
      rw [List.mapM_cons] at written
      cases first : write a with
      | error e =>
          rw [first] at written
          cases written
      | ok v =>
          cases others : l.mapM write with
          | error e =>
              rw [first, others] at written
              cases written
          | ok ws =>
              rw [first, others] at written
              obtain rfl : v :: ws = vs := Except.ok.inj written
              exact .cons first (ih others)

end StandsFor

end Json

end AndroidLint
