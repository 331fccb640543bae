/-
Section — the tables of a configuration while they are being defined.

A table comes about in one of three ways: it has a header of its own, it
lies on the way of another header, or it lies on the way of a key with
dots.  Only the second may still get a header, and only the last two may
be entered by keys with dots.  So every table and every value is defined
once, and what would define it again is refused.
-/
import AndroidLint.Configuration.Datum

namespace AndroidLint

namespace Configuration

/-- How a table came about. -/
inductive TableOrigin where
  | header
  | onHeaderWay
  | onKeyWay
deriving DecidableEq

/-- What has a name in a table. -/
inductive Entry where
  | value (d : Datum)
  | table (origin : TableOrigin) (members : List (String × Entry))
  /-- A row of tables, each with a header of its own. -/
  | row (tables : List (List (String × Entry)))
deriving Inhabited

/-- The members of a table, in order. -/
abbrev Section := List (String × Entry)

namespace Section

/-- A section with the entry of a name replaced. -/
def replace (name : String) (e : Entry) : Section → Section
  | [] => []
  | (n, f) :: rest => if n == name then (n, e) :: rest else (n, f) :: replace name e rest

/-- A section with the table at the end of a way changed.  Tables on the
way are made where there are none: by `made`, which is also what enters
them. -/
def enter? (made : TableOrigin) (change : TableOrigin → Section → Option Section) :
    List String → TableOrigin → Section → Option Section
  | [], origin, s => change origin s
  | name :: way, _, s =>
      match s.lookup name with
      | none => (enter? made change way made []).map fun t => s ++ [(name, .table made t)]
      | some (.table origin t) =>
          if made == .onKeyWay && origin == .header then none
          else (enter? made change way origin t).map fun t =>
            replace name (.table origin t) s
      | some (.row ts) =>
          match ts.reverse with
          | [] => none
          | last :: before => (enter? made change way .header last).map fun t =>
              replace name (.row (before.reverse ++ [t])) s
      | some (.value _) => none

/-- A section with one more entry, unless the name is taken. -/
def add? (name : String) (e : Entry) (s : Section) : Option Section :=
  if (s.lookup name).isSome then none else some (s ++ [(name, e)])

/-- A section in which a table has a header. -/
def open? (name : String) (s : Section) : Option Section :=
  match s.lookup name with
  | none => some (s ++ [(name, .table .header [])])
  | some (.table .onHeaderWay t) => some (replace name (.table .header t) s)
  | _ => none

/-- A section in which a row has one more table. -/
def extend? (name : String) (s : Section) : Option Section :=
  match s.lookup name with
  | none => some (s ++ [(name, .row [[]])])
  | some (.row ts) => some (replace name (.row (ts ++ [[]])) s)
  | _ => none

/-- A section with the table of a header, or one more table in the row of
a header. -/
def head? (inRow : Bool) (way : List String) (name : String) (s : Section) : Option Section :=
  enter? .onHeaderWay (fun _ t => if inRow then extend? name t else open? name t) way .header s

/-- A section with a value at the end of a way of keys.  The last table on
the way belongs to keys with dots, and a key without dots to its table. -/
def define? (way : List String) (name : String) (d : Datum) (s : Section) : Option Section :=
  enter? .onKeyWay
    (fun origin t =>
      if !way.isEmpty && origin != .onKeyWay then none else add? name (.value d) t)
    way .header s

/-- A section with a value defined below the table that the last header
opened. -/
def defineBelow? (current : List String) (way : List String) (name : String) (d : Datum)
    (s : Section) : Option Section :=
  enter? .onHeaderWay (fun _ t => define? way name d t) current .header s

end Section

mutual

/-- An entry as a value. -/
def Entry.toDatum : Entry → Datum
  | .value d => d
  | .table _ t => .table (membersToData t)
  | .row ts => .list (tablesToData ts)

/-- The members of a table as values. -/
def membersToData : List (String × Entry) → List (Datum × Datum)
  | [] => []
  | (name, e) :: rest => (.text name, e.toDatum) :: membersToData rest

/-- Tables in a row as values. -/
def tablesToData : List (List (String × Entry)) → List Datum
  | [] => []
  | t :: ts => .table (membersToData t) :: tablesToData ts

end

end Configuration

end AndroidLint
