/-
Grammar — what a grammar promises of the trees that are read by it.

A grammar is data, so some of what it promises can be computed from it, with
no text at hand: that a form always makes a node (`makesNode`), that it makes
one in a certain role (`makesPart`), and that every node of a kind is made
with the parts that the kind demands (`isObedient`).  Rules refer to each other
and to themselves.  So each computation takes for granted what it is to show of
rules, and has to come out right for all of them; that this is enough is an
induction on what is read.

A form that encloses what its node has so far is what needs care: it leaves
one tree where there were several.  A node is still there afterwards, a part in
some role need not be (`isAppending`).
-/
import AndroidLint.Proofs.Syntax.Reading
import AndroidLint.Proofs.Syntax.Tree

namespace AndroidLint

namespace Syntax

/-! ## Demands -/

/-- What a kind of nodes may demand of what stands in a node. -/
inductive Demand where
  | nothing
  /-- Some node. -/
  | node
  /-- A node in a role. -/
  | part (r : Role)
deriving DecidableEq

/-- `d.Met ts`: the trees hold what is demanded. -/
def Demand.Met (ts : List Tree) : Demand → Prop
  | nothing => True
  | node => ∃ u ∈ ts, u.isNamed = true
  | part r => ∃ u ∈ ts, u.role? = some r

namespace Tree

/-- `t.Obeys demands`: every node of the tree holds what its kind demands. -/
def Obeys (demands : Kind → Demand) (t : Tree) : Prop :=
  ∀ u ∈ t.nodes, ∀ k, u.kind? = some k → (demands k).Met u.children

variable {demands : Kind → Demand}

theorem obeys_word (text : String) (p : Span) : (word text p).Obeys demands :=
  fun _ mem => by cases mem

theorem obeys_node {k : Kind} {r : Option Role} {p : Span} {ts : List Tree} :
    (node k r p ts).Obeys demands ↔ (demands k).Met ts ∧ ∀ u ∈ ts, u.Obeys demands := by
  refine forall_nodes_node.trans (and_congr_left fun _ => ⟨fun own => own k rfl, ?_⟩)
  rintro own l ⟨⟩
  exact own

theorem obeys_withRole {r : Role} {t : Tree} (obeys : t.Obeys demands) :
    (t.withRole r).Obeys demands := by
  cases t with
  | word => exact obeys
  | node => exact obeys_node.mpr (obeys_node.mp obeys)

theorem isNamed_withRole (r : Role) (t : Tree) : (t.withRole r).isNamed = t.isNamed := by
  cases t <;> rfl

theorem role?_withRole {r : Role} {t : Tree} (named : t.isNamed = true) :
    (t.withRole r).role? = some r := by
  cases t with
  | word => cases named
  | node => rfl

end Tree

/-- Trees among which demands are met still meet them with more trees, in any
order. -/
theorem Demand.Met.mono {d : Demand} {ts us : List Tree} (met : d.Met ts)
    (sub : ∀ t ∈ ts, t ∈ us) : d.Met us := by
  cases d with
  | nothing => trivial
  | node | part =>
      obtain ⟨u, mem, holds⟩ := met
      exact ⟨u, sub u mem, holds⟩

theorem Demand.Met.reverse {d : Demand} {ts : List Tree} (met : d.Met ts) : d.Met ts.reverse :=
  met.mono fun _ => List.mem_reverse.mpr

/-! ## What a form makes -/

namespace Form

variable {ρ : Type}

section Computed

variable (makes : ρ → Bool)

mutual

/-- Whether a form always makes a node, if the rules that `makes` names do. -/
def makesNode : Form ρ → Bool
  | .leaf .. | .node .. | .around .. => true
  | .word _ | .bare _ | .ahead _ | .many _ => false
  | .rule r => makes r
  | .all fs => someMakes fs
  | .any fs => allMake fs
  | .part _ f | .group f => f.makesNode

/-- Whether one of some forms always makes a node. -/
def someMakes : List (Form ρ) → Bool
  | [] => false
  | f :: fs => f.makesNode || someMakes fs

/-- Whether each of some forms always makes a node. -/
def allMake : List (Form ρ) → Bool
  | [] => true
  | f :: fs => f.makesNode && allMake fs

end

mutual

/-- Whether a form leaves the trees before it as they are, if all rules do. -/
def isAppending : Form ρ → Bool
  | .around .. => false
  | .all fs | .any fs => areAppending fs
  | .many f => f.isAppending
  | _ => true

/-- Whether each of some forms does. -/
def areAppending : List (Form ρ) → Bool
  | [] => true
  | f :: fs => f.isAppending && areAppending fs

end

mutual

/-- Whether a form always makes a node in a role. -/
def makesPart (r : Role) : Form ρ → Bool
  | .part r' f => r' == r && f.makesNode makes
  | .all fs => someMakesPart r fs
  | _ => false

/-- Whether one of some forms does, and those behind it leave it as it is. -/
def someMakesPart (r : Role) : List (Form ρ) → Bool
  | [] => false
  | f :: fs => (f.makesPart r && areAppending fs) || someMakesPart r fs

end

/-- Whether a form makes what is demanded, where a node may already stand
before it. -/
def meets (before : Bool) (f : Form ρ) : Demand → Bool
  | .nothing => true
  | .node => before || f.makesNode makes
  | .part r => f.makesPart makes r

variable (demands : Kind → Demand)

mutual

/-- Whether every node that a form makes is made with what its kind demands,
where a node may already stand before the form. -/
def isObedient (before : Bool) : Form ρ → Bool
  | .word _ | .bare _ | .ahead _ | .rule _ => true
  | .leaf k _ => demands k == .nothing
  | .all fs => inTurnObedient before fs
  | .any fs => areObedient before fs
  | .many f => f.isObedient before
  | .node k f => f.meets makes false (demands k) && f.isObedient false
  | .part _ f | .group f => f.isObedient false
  | .around k _ f => f.meets makes before (demands k) && f.isObedient before

/-- The same for forms one after the other. -/
def inTurnObedient (before : Bool) : List (Form ρ) → Bool
  | [] => true
  | f :: fs => f.isObedient before && inTurnObedient (before || f.makesNode makes) fs

/-- The same for a choice of forms. -/
def areObedient (before : Bool) : List (Form ρ) → Bool
  | [] => true
  | f :: fs => f.isObedient before && areObedient before fs

end

end Computed

/-! ## What is read -/

variable {g : ρ → Form ρ}

section Promises

variable {f : Form ρ} {done made : List Tree} {ts : List Token}

theorem hasNode_map_withRole {r : Role} (has : Demand.node.Met made) :
    Demand.node.Met (made.map (Tree.withRole r)) := by
  obtain ⟨u, mem, named⟩ := has
  exact ⟨u.withRole r, List.mem_map_of_mem mem, (Tree.isNamed_withRole r u).trans named⟩

/-- A node that stands somewhere still does, or stands in a node. -/
theorem Reads.keepsNode (reads : f.Reads g done ts made) (has : Demand.node.Met done) :
    Demand.node.Met made := by
  induction reads with
  | word | bare | leaf | node => exact has.mono fun _ => List.mem_cons_of_mem _
  | part | group => exact has.mono fun _ => List.mem_append_right _
  | ahead | last | stop => exact has
  | rule _ ih | taken _ ih | passed _ ih => exact ih has
  | next _ _ ih ih' | again _ _ ih ih' => exact ih' (ih has)
  | around | aroundPart => exact ⟨_, List.mem_singleton_self _, rfl⟩

variable {makes : ρ → Bool} (makers : ∀ r, makes r = true → (g r).makesNode makes = true)

include makers in
/-- A form that is computed to make a node makes one. -/
theorem Reads.hasNode (reads : f.Reads g done ts made) (maker : f.makesNode makes = true) :
    Demand.node.Met made := by
  induction reads with
  | word | bare | ahead | stop | again => cases maker
  | last => cases maker
  | leaf | node => exact ⟨_, List.mem_cons_self, rfl⟩
  | around | aroundPart => exact ⟨_, List.mem_singleton_self _, rfl⟩
  | rule _ ih => exact ih (makers _ maker)
  | next first others ih ih' =>
      rw [makesNode, someMakes, Bool.or_eq_true] at maker
      obtain maker | maker := maker
      · exact others.keepsNode (ih maker)
      · exact ih' maker
  | taken _ ih =>
      rw [makesNode, allMake, Bool.and_eq_true] at maker
      exact ih maker.1
  | passed _ ih =>
      rw [makesNode, allMake, Bool.and_eq_true] at maker
      exact ih maker.2
  | part _ ih => exact (hasNode_map_withRole (ih maker)).mono fun _ => List.mem_append_left _
  | group _ ih => exact (ih maker).mono fun _ => List.mem_append_left _

variable (appending : ∀ r, (g r).isAppending = true)

include appending in
/-- A form that is computed to be appending leaves the trees before it. -/
theorem Reads.subset (reads : f.Reads g done ts made) (appends : f.isAppending = true) :
    done ⊆ made := by
  induction reads with
  | word | bare | leaf | node => exact List.subset_cons_self _ _
  | part | group => exact List.subset_append_right _ _
  | ahead | last | stop => exact List.Subset.refl _
  | around | aroundPart => cases appends
  | rule _ ih => exact ih (appending _)
  | next _ _ ih ih' =>
      rw [isAppending, areAppending, Bool.and_eq_true] at appends
      exact List.Subset.trans (ih appends.1) (ih' appends.2)
  | taken _ ih =>
      rw [isAppending, areAppending, Bool.and_eq_true] at appends
      exact ih appends.1
  | passed _ ih =>
      rw [isAppending, areAppending, Bool.and_eq_true] at appends
      exact ih appends.2
  | again _ _ ih ih' => exact List.Subset.trans (ih appends) (ih' appends)

include makers appending in
/-- A form that is computed to make a node in a role makes one. -/
theorem Reads.hasPart {r : Role} (reads : f.Reads g done ts made)
    (maker : f.makesPart makes r = true) : (Demand.part r).Met made := by
  induction reads with
  | part body =>
      rw [makesPart, Bool.and_eq_true, beq_iff_eq] at maker
      obtain ⟨rfl, maker⟩ := maker
      obtain ⟨u, mem, named⟩ := body.hasNode makers maker
      exact ⟨_, List.mem_append_left _ (List.mem_map_of_mem mem), Tree.role?_withRole named⟩
  | next first others ih ih' =>
      rw [makesPart, someMakesPart, Bool.or_eq_true, Bool.and_eq_true] at maker
      obtain ⟨maker, appends⟩ | maker := maker
      · exact (ih maker).mono fun _ mem => others.subset appending appends mem
      · exact ih' maker
  | _ => cases maker

variable {demands : Kind → Demand}

include makers appending in
/-- A form meets the demand that it is computed to meet. -/
theorem Reads.met {before : Bool} (reads : f.Reads g done ts made)
    (stands : before = true → Demand.node.Met done) {d : Demand}
    (meets : f.meets makes before d = true) : d.Met made := by
  cases d with
  | nothing => trivial
  | node =>
      obtain stood | maker := Bool.or_eq_true_iff.mp meets
      · exact reads.keepsNode (stands stood)
      · exact reads.hasNode makers maker
  | part r => exact reads.hasPart makers appending meets

variable (obedient : ∀ r, (g r).isObedient makes demands false = true)

include makers appending obedient in
/-- In a grammar whose rules are computed to be obedient, every form makes
trees that obey. -/
theorem Reads.obeys (reads : f.Reads g done ts made) (before : Bool)
    (stands : before = true → Demand.node.Met done)
    (obeys : f.isObedient makes demands before = true) (still : ∀ t ∈ done, t.Obeys demands) :
    ∀ t ∈ made, t.Obeys demands := by
  -- a body that is read on its own has no node before it, and nothing that has to obey
  have nothing {ts : List Tree} : false = true → Demand.node.Met ts := fun h => by cases h
  have none : ∀ t ∈ ([] : List Tree), t.Obeys demands := fun _ mem => by cases mem
  induction reads generalizing before with
  | word | bare => exact List.forall_mem_cons.mpr ⟨Tree.obeys_word _ _, still⟩
  | leaf =>
      refine List.forall_mem_cons.mpr ⟨Tree.obeys_node.mpr ⟨?_, none⟩, still⟩
      rw [isObedient, beq_iff_eq] at obeys
      rw [obeys]
      trivial
  | ahead | last | stop => exact still
  | rule _ ih => exact ih false nothing (obedient _) still
  | next first _ ih ih' =>
      rw [isObedient, inTurnObedient, Bool.and_eq_true] at obeys
      refine ih' _ (fun stood => ?_) obeys.2 (ih _ stands obeys.1 still)
      obtain stood | maker := Bool.or_eq_true_iff.mp stood
      · exact first.keepsNode (stands stood)
      · exact first.hasNode makers maker
  | taken _ ih =>
      rw [isObedient, areObedient, Bool.and_eq_true] at obeys
      exact ih _ stands obeys.1 still
  | passed _ ih =>
      rw [isObedient, areObedient, Bool.and_eq_true] at obeys
      exact ih _ stands obeys.2 still
  | again once _ ih ih' =>
      exact ih' _ (fun stood => once.keepsNode (stands stood)) obeys (ih _ stands obeys still)
  | node body ih =>
      rw [isObedient, Bool.and_eq_true] at obeys
      refine List.forall_mem_cons.mpr ⟨Tree.obeys_node.mpr ⟨?_, fun u mem => ?_⟩, still⟩
      · exact (body.met makers appending nothing obeys.1).reverse
      · exact ih _ nothing obeys.2 none u (List.mem_reverse.mp mem)
  | part _ ih =>
      refine List.forall_mem_append.mpr ⟨List.forall_mem_map.mpr fun u mem => ?_, still⟩
      exact Tree.obeys_withRole (ih _ nothing obeys none u mem)
  | group _ ih =>
      exact List.forall_mem_append.mpr ⟨ih _ nothing obeys none, still⟩
  | around body ih =>
      rw [isObedient, Bool.and_eq_true] at obeys
      refine List.forall_mem_singleton.mpr (Tree.obeys_node.mpr ⟨?_, fun u mem => ?_⟩)
      · exact (body.met makers appending stands obeys.1).reverse
      · exact ih _ stands obeys.2 still u (List.mem_reverse.mp mem)
  | @aroundPart k r f done made _ body ih =>
      rw [isObedient, Bool.and_eq_true] at obeys
      have stands' : before = true → Demand.node.Met (done.map (Tree.withRole r)) :=
        fun stood => hasNode_map_withRole (stands stood)
      refine List.forall_mem_singleton.mpr (Tree.obeys_node.mpr ⟨?_, fun u mem => ?_⟩)
      · exact (body.met makers appending stands' obeys.1).reverse
      · refine ih _ stands' obeys.2 (List.forall_mem_map.mpr fun v mem => ?_) u
          (List.mem_reverse.mp mem)
        exact Tree.obeys_withRole (still v mem)

end Promises

end Form

/-! ## Comments -/

namespace Tree

variable {demands : Kind → Demand} {c : Span}

/-- Of trees in a row each is still there with a comment among them, as far as
can be seen from outside it. -/
theorem exists_mem_insertAmong {u : Tree} {ts : List Tree} (mem : u ∈ ts) :
    ∃ v ∈ insertAmong c ts, v.role? = u.role? ∧ v.isNamed = u.isNamed := by
  induction ts with
  | nil => cases mem
  | cons t ts ih =>
      rw [insertAmong]
      split
      case isTrue => exact ⟨u, List.mem_cons_of_mem _ mem, rfl, rfl⟩
      case isFalse =>
        obtain rfl | mem := List.mem_cons.mp mem
        · split
          case isTrue => exact ⟨u, List.mem_cons_self, rfl, rfl⟩
          case isFalse =>
            refine ⟨u.insert c, List.mem_cons_self, ?_⟩
            cases u <;> exact ⟨rfl, rfl⟩
        · split
          case isTrue =>
            obtain ⟨v, hv, same⟩ := ih mem
            exact ⟨v, List.mem_cons_of_mem _ hv, same⟩
          case isFalse => exact ⟨u, List.mem_cons_of_mem _ mem, rfl, rfl⟩

theorem met_insertAmong {ts : List Tree} {d : Demand} (met : d.Met ts) :
    d.Met (insertAmong c ts) := by
  cases d with
  | nothing => trivial
  | node =>
      obtain ⟨u, mem, named⟩ := met
      obtain ⟨v, hv, -, same⟩ := exists_mem_insertAmong mem
      exact ⟨v, hv, same.trans named⟩
  | part r =>
      obtain ⟨u, mem, role⟩ := met
      obtain ⟨v, hv, same, -⟩ := exists_mem_insertAmong mem
      exact ⟨v, hv, same.trans role⟩

section Comments

variable (silent : demands .comment = .nothing)
include silent

/-- A tree that obeys does so with comments in it. -/
theorem obeys_foldl_insert {t : Tree} (obeys : t.Obeys demands) (comments : List Span) :
    (comments.foldl (fun t c => t.insert c) t).Obeys demands := by
  refine forall_nodes_foldl_insert ?_ ?_ obeys comments
  · rintro c l ⟨⟩
    rw [silent]
    trivial
  · exact fun c k r p ts met l kind => met_insertAmong (met l kind)

end Comments

end Tree

/-- **What a grammar is computed to promise holds of every tree that is read by
it.**  Let the computations come out right for all rules: those that are said
to make a node do, none encloses the trees before it, and each makes its nodes
with what their kinds demand.  Then every node of a text's tree has what its
kind demands. -/
theorem Grammar.obeys_of_parse? {g : Grammar} (makes : g.Rule → Bool) {demands : Kind → Demand}
    (makers : ∀ r, makes r = true → (g.form r).makesNode makes = true)
    (appending : ∀ r, (g.form r).isAppending = true)
    (obedient : ∀ r, (g.form r).isObedient makes demands false = true)
    (silent : demands .comment = .nothing) {text : List Char} {t : Tree}
    (parsed : g.parse? text = some t) : t.Obeys demands := by
  obtain ⟨t', reads, rfl⟩ := Grammar.exists_reads_of_parse? parsed
  have obeys := reads.obeys makers appending obedient false (fun h => by cases h) rfl
    (fun _ mem => by cases mem) t' (List.mem_singleton_self t')
  exact Tree.obeys_foldl_insert silent obeys _

end Syntax

end AndroidLint
