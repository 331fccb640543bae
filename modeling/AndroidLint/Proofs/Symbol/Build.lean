/-
Build — an index reads its files as if it had been finished before.

The first round of building makes every declared name known.  The second
enters types by such names only, so the names that are known stay the same
from its first type to its last; and as reading a written name asks no
more than which names are known, each class and each annotation is read
as the finished index would read it.

The round is solved for any knowledge of names that it starts from and that
covers what it enters (`foldl_addFile`); `Settled` is what it keeps on the
way.
-/
import AndroidLint.Symbol.Index

namespace AndroidLint

namespace Symbol

open Code (SourceFile ClassDecl ClassId)

namespace TypeTable

/-! ## What a table knows -/

theorem knows_cons (t : TypeSymbol) (table : TypeTable) (name : String) :
    knows (t :: table) name = (t.qualifiedName == name || table.knows name) := by
  simp only [knows, find?, List.find?_cons]
  cases t.qualifiedName == name <;> rfl

theorem find?_append (upper lower : TypeTable) (name : String) :
    find? (upper ++ lower) name = (upper.find? name).or (lower.find? name) :=
  List.find?_append

theorem knows_iff_mem {table : TypeTable} {name : String} :
    table.knows name = true ↔ ∃ t ∈ table, t.qualifiedName = name := by
  simp [knows, find?]

theorem find?_eq_none {table : TypeTable} {name : String} :
    table.find? name = none ↔ ∀ t ∈ table, t.qualifiedName ≠ name := by
  simp [find?]

/-- A table knows no more with entries for names that it knows. -/
theorem knows_append_of_known {upper lower : TypeTable}
    (known : ∀ t ∈ upper, lower.knows t.qualifiedName = true) :
    knows (upper ++ lower) = lower.knows := by
  funext name
  rw [knows, find?_append, Option.isSome_or]
  cases h : (upper.find? name).isSome with
  | false => rfl
  | true =>
      obtain ⟨t, ht, rfl⟩ := knows_iff_mem.mp h
      exact (known t ht).symm

/-- An entry whose name no other entry has is the one that is found. -/
theorem find?_of_count_le {table : TypeTable} {t : TypeSymbol} {name : String} (mem : t ∈ table)
    (named : t.qualifiedName = name) (once : (table.map (·.qualifiedName)).count name ≤ 1) :
    table.find? name = some t := by
  subst named
  induction table with
  | nil => exact absurd mem List.not_mem_nil
  | cons u table ih =>
      rw [List.map_cons, List.count_cons] at once
      rcases List.mem_cons.mp mem with rfl | h
      · exact List.find?_cons_of_pos (beq_iff_eq.mpr rfl)
      · have hpos : 0 < (table.map (·.qualifiedName)).count t.qualifiedName :=
          List.count_pos_iff.mpr (List.mem_map.mpr ⟨t, h, rfl⟩)
        have hne : ¬ (u.qualifiedName == t.qualifiedName) = true := by
          intro heq
          rw [if_pos heq] at once
          omega
        have hcons : find? (u :: table) t.qualifiedName = find? table t.qualifiedName :=
          List.find?_cons_of_neg hne
        rw [hcons]
        exact ih h (Nat.le_trans (Nat.le_add_right _ _) once)

end TypeTable

namespace Index

/-! ## The names of the files -/

/-- The full names that files declare. -/
def declaredNames (files : List SourceFile) : List String :=
  (files.flatMap namedClasses).map (·.1.qualifiedName)

/-- The names that are known once all files have been seen. -/
def knownIn (files : List SourceFile) : Known := fun name =>
  Platform.types.knows name || (declaredNames files).contains name

theorem mem_namedClasses {f : SourceFile} {c : ClassDecl} {id : ClassId} :
    (c, id) ∈ namedClasses f ↔ f.class? id = some c ∧ c.isNamed := by
  simp [namedClasses, List.mem_filter, List.mem_zipIdx_iff_getElem?, SourceFile.class?]

theorem knownIn_of_mem {files : List SourceFile} {c : ClassDecl × ClassId}
    (hc : c ∈ files.flatMap namedClasses) : knownIn files c.1.qualifiedName = true := by
  have hmem : c.1.qualifiedName ∈ declaredNames files := List.mem_map.mpr ⟨c, hc, rfl⟩
  simp [knownIn, hmem]

/-! ## The first round -/

/-- The first round announces the classes of all files one after the
other. -/
theorem foldl_announceFile (files : List SourceFile) (x : Index) :
    files.foldl announceFile x = (files.flatMap namedClasses).foldl announce x := by
  rw [List.foldl_flatMap]
  rfl

/-- Announcing a class makes its name known and no other. -/
theorem knows_announce (x : Index) (c : ClassDecl × ClassId) (name : String) :
    (x.announce c).types.knows name = (c.1.qualifiedName == name || x.types.knows name) := by
  rw [announce]
  split
  · rename_i hknown
    cases heq : c.1.qualifiedName == name with
    | false => rfl
    | true =>
        rw [← beq_iff_eq.mp heq, hknown]
        rfl
  · exact TypeTable.knows_cons _ _ _

theorem knows_foldl_announce (cs : List (ClassDecl × ClassId)) : ∀ (x : Index) (name : String),
    (cs.foldl announce x).types.knows name =
      ((cs.map (·.1.qualifiedName)).contains name || x.types.knows name) := by
  induction cs with
  | nil =>
      intro x name
      rfl
  | cons c cs ih =>
      intro x name
      rw [List.foldl_cons, ih, knows_announce, List.map_cons, List.contains_cons, Bool.or_left_comm,
        Bool.or_assoc, Bool.beq_comm]

/-- The first round makes the names of the files known beside those of the
platform. -/
theorem knows_announced (files : List SourceFile) :
    (files.foldl announceFile ofPlatform).types.knows = knownIn files := by
  funext name
  rw [foldl_announceFile, knows_foldl_announce, knownIn, Bool.or_comm]
  rfl

/-- Announcing a class leaves a type of another name alone. -/
theorem find?_announce_of_ne {c : ClassDecl × ClassId} {name : String} (x : Index)
    (other : c.1.qualifiedName ≠ name) : (x.announce c).types.find? name = x.types.find? name := by
  rw [announce]
  split
  · rfl
  · exact List.find?_cons_of_neg (by simpa [bare] using other)

theorem find?_foldl_announce {cs : List (ClassDecl × ClassId)} {name : String}
    (others : name ∉ cs.map (·.1.qualifiedName)) : ∀ x : Index,
    (cs.foldl announce x).types.find? name = x.types.find? name := by
  induction cs with
  | nil =>
      intro x
      rfl
  | cons c cs ih =>
      intro x
      rw [List.map_cons, List.mem_cons, not_or] at others
      rw [List.foldl_cons, ih others.2, find?_announce_of_ne x (Ne.symm others.1)]

/-- Announcing is about types only. -/
theorem foldl_announce_rest (cs : List (ClassDecl × ClassId)) : ∀ x : Index,
    (cs.foldl announce x).packages = x.packages ∧ (cs.foldl announce x).facades = x.facades := by
  induction cs with
  | nil =>
      intro x
      exact ⟨rfl, rfl⟩
  | cons c cs ih =>
      intro x
      have hstep : (x.announce c).packages = x.packages ∧ (x.announce c).facades = x.facades := by
        rw [announce]
        split <;> exact ⟨rfl, rfl⟩
      exact ⟨(ih _).1.trans hstep.1, (ih _).2.trans hstep.2⟩

/-! ## The second round -/

/-- The classes of a file as others see them. -/
def symbols (known : Known) (f : SourceFile) : List TypeSymbol :=
  (namedClasses f).map fun c => symbol known f c.1 c.2

/-- The facades of a file, with its package. -/
def facadesOf (f : SourceFile) : List (String × String) :=
  (namedClasses f).flatMap fun c => facadeOf f c.1

/-- The index with some files, read with a knowledge of names that does
not change. -/
def reading (known : Known) (files : List SourceFile) (x : Index) : Index :=
  { types := (files.flatMap (symbols known)).reverse ++ x.types
    packages := x.packages ++ files.flatMap (packagesOf known)
    facades := x.facades ++ files.flatMap facadesOf }

/-- `Settled known x cs`: the index knows what `known` says, and that
includes the classes that are still to be entered. -/
structure Settled (known : Known) (x : Index) (cs : List (ClassDecl × ClassId)) : Prop where
  knows : x.types.knows = known
  declared : ∀ c ∈ cs, known c.1.qualifiedName = true

section Settled

variable {known : Known} {x : Index} {cs rest : List (ClassDecl × ClassId)}

/-- A class that was announced is entered without a change to what is
known. -/
theorem settled_addClass {c : ClassDecl × ClassId} (f : SourceFile)
    (h : Settled known x (c :: rest)) : Settled known (x.addClass f c) rest where
  knows := by
    have hknown : ∀ t ∈ [symbol x.types.knows f c.1 c.2], x.types.knows t.qualifiedName = true := by
      intro t ht
      rw [List.mem_singleton.mp ht, h.knows]
      exact h.declared c List.mem_cons_self
    exact (TypeTable.knows_append_of_known hknown).trans h.knows
  declared := fun d hd => h.declared d (List.mem_cons_of_mem _ hd)

theorem settled_foldl_addClass (f : SourceFile) (h : Settled known x (cs ++ rest)) :
    Settled known (cs.foldl (addClass f) x) rest := by
  induction cs generalizing x with
  | nil => exact h
  | cons c cs ih => exact ih (settled_addClass f h)

theorem settled_addFile {f : SourceFile} (h : Settled known x (namedClasses f ++ rest)) :
    Settled known (x.addFile f) rest :=
  settled_foldl_addClass f ⟨h.knows, h.declared⟩

theorem addClass_eq {c : ClassDecl × ClassId} (f : SourceFile) (h : x.types.knows = known) :
    x.addClass f c =
      ⟨symbol known f c.1 c.2 :: x.types, x.packages, x.facades ++ facadeOf f c.1⟩ := by
  rw [addClass, h]
  rfl

theorem foldl_addClass_eq (f : SourceFile) (h : Settled known x cs) :
    cs.foldl (addClass f) x =
      { types := (cs.map fun c => symbol known f c.1 c.2).reverse ++ x.types
        packages := x.packages
        facades := x.facades ++ cs.flatMap fun c => facadeOf f c.1 } := by
  induction cs generalizing x with
  | nil => simp
  | cons c cs ih =>
      rw [List.foldl_cons, ih (settled_addClass f h), addClass_eq f h.knows]
      simp

/-- A file is entered with the names that are known of all files. -/
theorem addFile_eq {f : SourceFile} (h : Settled known x (namedClasses f)) :
    x.addFile f = x.reading known [f] := by
  have hpackage : Settled known (x.addPackage f) (namedClasses f) := ⟨h.knows, h.declared⟩
  rw [addFile, foldl_addClass_eq f hpackage, addPackage, h.knows]
  simp [reading, symbols, facadesOf]

end Settled

theorem reading_cons (known : Known) (f : SourceFile) (files : List SourceFile) (x : Index) :
    (x.reading known [f]).reading known files = x.reading known (f :: files) := by
  simp [reading]

/-- The second round reads every file with the same knowledge. -/
theorem foldl_addFile {known : Known} (files : List SourceFile) : ∀ {x : Index},
    Settled known x (files.flatMap namedClasses) →
    files.foldl addFile x = x.reading known files := by
  induction files with
  | nil =>
      intro x h
      simp [reading]
  | cons f files ih =>
      intro x h
      rw [List.flatMap_cons] at h
      -- the file itself only needs its own classes, the rest of the round those of the other files
      have hfirst : Settled known x (namedClasses f) :=
        ⟨h.knows, fun c hc => h.declared c (List.mem_append_left _ hc)⟩
      rw [List.foldl_cons, ih (settled_addFile h), addFile_eq hfirst, reading_cons]

theorem settled_announced (files : List SourceFile) :
    Settled (knownIn files) (files.foldl announceFile ofPlatform) (files.flatMap namedClasses) where
  knows := knows_announced files
  declared := fun _ hc => knownIn_of_mem hc

/-! ## The finished index -/

theorem build_eq (files : List SourceFile) :
    build files = (files.foldl announceFile ofPlatform).reading (knownIn files) files :=
  foldl_addFile files (settled_announced files)

theorem packages_build (files : List SourceFile) :
    (build files).packages = files.flatMap (packagesOf (knownIn files)) := by
  rw [build_eq, reading, foldl_announceFile, (foldl_announce_rest _ ofPlatform).1]
  rfl

theorem facades_build (files : List SourceFile) :
    (build files).facades = files.flatMap facadesOf := by
  rw [build_eq, reading, foldl_announceFile, (foldl_announce_rest _ ofPlatform).2]
  rfl

theorem mem_symbols {known : Known} {f : SourceFile} {t : TypeSymbol} :
    t ∈ symbols known f ↔ ∃ c id, f.class? id = some c ∧ c.isNamed ∧ symbol known f c id = t := by
  simp [symbols, mem_namedClasses, and_assoc]

theorem names_symbols (known : Known) (files : List SourceFile) :
    (files.flatMap (symbols known)).map (·.qualifiedName) = declaredNames files := by
  rw [declaredNames, List.map_flatMap, List.map_flatMap]
  congr 1
  funext f
  rw [symbols, List.map_map]
  rfl

/-- The finished index knows the types of the platform and what the files
declare. -/
theorem knows_build (files : List SourceFile) : (build files).types.knows = knownIn files := by
  rw [build_eq, reading, ← knows_announced]
  refine TypeTable.knows_append_of_known fun t ht => ?_
  obtain ⟨f, hf, ht'⟩ := List.mem_flatMap.mp (List.mem_reverse.mp ht)
  obtain ⟨c, hc, rfl⟩ := List.mem_map.mp ht'
  rw [knows_announced]
  exact knownIn_of_mem (List.mem_flatMap.mpr ⟨f, hf, hc⟩)

/-- What the finished index has by a name is the last class of the files
that has it, or else a type of the platform. -/
theorem find?_build (files : List SourceFile) (name : String) :
    (build files).types.find? name =
      (TypeTable.find? (files.flatMap (symbols (knownIn files))).reverse name).or
        (Platform.types.find? name) := by
  rw [build_eq, reading, TypeTable.find?_append]
  -- what the first round left under a declared name is never found: the second put a class on top
  by_cases h : name ∈ declaredNames files
  · rw [← names_symbols (knownIn files)] at h
    obtain ⟨t, ht, rfl⟩ := List.mem_map.mp h
    have hsome := TypeTable.knows_iff_mem.mpr ⟨t, List.mem_reverse.mpr ht, rfl⟩
    rw [Option.or_of_isSome hsome, Option.or_of_isSome hsome]
  · rw [foldl_announceFile, find?_foldl_announce h]
    rfl

/-- A class whose name no other class has is found by it, read with the
names that are known in the end. -/
theorem find?_build_of_once {files : List SourceFile} {f : SourceFile} {id : ClassId}
    {c : ClassDecl} (hf : f ∈ files) (hc : f.class? id = some c) (named : c.isNamed)
    (once : (declaredNames files).count c.qualifiedName = 1) :
    (build files).types.find? c.qualifiedName = some (symbol (knownIn files) f c id) := by
  have hmem : symbol (knownIn files) f c id ∈ files.flatMap (symbols (knownIn files)) :=
    List.mem_flatMap.mpr ⟨f, hf, mem_symbols.mpr ⟨c, id, hc, named, rfl⟩⟩
  have hcount : ((files.flatMap (symbols (knownIn files))).reverse.map (·.qualifiedName)).count
      c.qualifiedName ≤ 1 := by
    rw [List.map_reverse, List.count_reverse, names_symbols]
    exact Nat.le_of_eq once
  have hname : (symbol (knownIn files) f c id).qualifiedName = c.qualifiedName := rfl
  rw [find?_build, TypeTable.find?_of_count_le (List.mem_reverse.mpr hmem) hname hcount]
  rfl

/-- How an index reads a name depends on what it knows only. -/
theorem typeName?_eq {known : Known} (x : Index) (h : x.types.knows = known) (f : SourceFile) :
    x.typeName? f = Symbol.typeName? known f := by
  funext written
  rw [typeName?, h]

/-- `Reflects x f id c t`: the type `t` says of the class `c` of `f`, whose
id is `id`, what the index `x` makes of its source. -/
structure Reflects (x : Index) (f : SourceFile) (id : ClassId) (c : ClassDecl)
    (t : TypeSymbol) : Prop where
  name : t.qualifiedName = c.qualifiedName
  superTypes : t.superTypes = x.resolver.superTypes f c
  annotations : t.annotations = x.resolver.annotations f c.annotations
  methods : t.methods.map (fun m => (m.name, m.parameterCount?, m.annotations)) =
    (f.methods.toList.filter (·.class? == some id)).map fun m =>
      (m.name, some m.parameterCount, x.resolver.annotations f m.annotations)
  fileName : t.fileName? = some f.path.fileName

theorem superTypes_symbol (known : Known) (f : SourceFile) (id : ClassId) (c : ClassDecl) :
    (symbol known f c id).superTypes = c.superTypes.filterMap (Symbol.typeName? known f) := by
  simp only [symbol, TypeSymbol.superTypes, ClassDecl.superTypes, List.filterMap_append]
  congr 1
  cases c.superClass? with
  | none => rfl
  | some written =>
      rw [Option.bind_some, Option.toList_some]
      cases h : Symbol.typeName? known f written with
      | none => rw [List.filterMap_cons_none h, Option.toList_none, List.filterMap_nil]
      | some name => rw [List.filterMap_cons_some h, Option.toList_some, List.filterMap_nil]

/-- What a class becomes is what its index says about it, if it was read
with the names the index knows. -/
theorem reflects_symbol {known : Known} {x : Index} (h : x.types.knows = known) (f : SourceFile)
    (id : ClassId) (c : ClassDecl) : Reflects x f id c (symbol known f c id) where
  name := rfl
  superTypes := by
    rw [Resolver.superTypes, resolver_typeName?, typeName?_eq x h, superTypes_symbol]
  annotations := by
    rw [Resolver.annotations, resolver_typeName?, typeName?_eq x h]
    rfl
  methods := by
    simp only [Resolver.annotations, resolver_typeName?, typeName?_eq x h, symbol, methodsOf,
      List.map_map]
    rfl
  fileName := rfl

/-- **A finished index agrees with its own types.**  A class whose full
name no other class has is found by that name, and what is found is what
the finished index says of the class: of the types it extends, of its
annotations, and of its methods and theirs.  What is known are the types
of the platform and the classes of the files, and nothing is found by a
name that is not its own. -/
theorem build_reflects (files : List SourceFile) :
    (∀ f ∈ files, ∀ id c, f.class? id = some c → c.isNamed →
        (declaredNames files).count c.qualifiedName = 1 →
        ∃ t, (build files).types.find? c.qualifiedName = some t
          ∧ Reflects (build files) f id c t)
      ∧ (∀ name, (build files).types.knows name = true ↔
          Platform.types.knows name = true ∨ name ∈ declaredNames files)
      ∧ (∀ name t, (build files).types.find? name = some t → t.qualifiedName = name) := by
  refine ⟨?_, ?_, fun name t => TypeTable.find?_name⟩
  · intro f hf id c hc named once
    exact ⟨_, find?_build_of_once hf hc named once, reflects_symbol (knows_build files) f id c⟩
  · intro name
    rw [knows_build, knownIn, Bool.or_eq_true, List.contains_iff_mem]

/-- A class of package `app` that extends another. -/
def child (name qualifiedName parent : String) : ClassDecl :=
  { name
    qualifiedName
    kind := .plain
    superClass? := some parent
    interfaces := []
    annotations := []
    scope := .file
    inReturnPosition := false
    text := ""
    location := .top default }

/-- A Java file of package `app` with one class. -/
def fileOf (c : ClassDecl) : SourceFile :=
  { SourceFile.empty ⟨c.name ++ ".java"⟩ .java with
    package? := some "app"
    classes := #[c] }

/-- Two files whose classes extend each other. -/
def circle : List SourceFile :=
  [fileOf (child "A" "app.A" "B"), fileOf (child "B" "app.B" "A")]

theorem build_reflects_circle :
    ∃ t, (build circle).types.find? "app.A" = some t
      ∧ Reflects (build circle) (fileOf (child "A" "app.A" "B")) 0 (child "A" "app.A" "B") t :=
  (build_reflects circle).1 _ List.mem_cons_self 0 (child "A" "app.A" "B") rfl rfl (by decide)

example : ((build circle).types.find? "app.A").map (·.superTypes) = some ["app.B"] := by decide

end Index

end Symbol

end AndroidLint
