/-
Reading — what a form takes of a text's tokens.

The reader is given fuel and leaves what it does not take.  `Form.Reads` says
without either what a form takes and which trees it leaves (`reads_of_read`).
-/
import AndroidLint.Syntax.Grammar

namespace AndroidLint

namespace Syntax

namespace Form

variable {ρ : Type}

/-- `f.Reads g done ts made`: in the grammar `g`, the form `f`, read behind the
trees `done`, may take the tokens `ts` and leave the trees `made`.  Trees are kept
the last first. -/
inductive Reads (g : ρ → Form ρ) : Form ρ → List Tree → List Token → List Tree → Prop where
  | word {text : String} {done : List Tree} {t : Token} (fits : t.isWord text = true) :
      Reads g (.word text) done [t] (.word t.text t.span :: done)
  | bare {p : Token → Bool} {done : List Tree} {t : Token} (fits : p t = true) :
      Reads g (.bare p) done [t] (.word t.text t.span :: done)
  | leaf {k : Kind} {p : Token → Bool} {done : List Tree} {t : Token} (fits : p t = true) :
      Reads g (.leaf k p) done [t] (.node k none t.span [] :: done)
  | ahead {p : List Token → Bool} {done : List Tree} : Reads g (.ahead p) done [] done
  | rule {r : ρ} {done made : List Tree} {ts : List Token} (body : Reads g (g r) done ts made) :
      Reads g (.rule r) done ts made
  | last {done : List Tree} : Reads g (.all []) done [] done
  | next {f : Form ρ} {fs : List (Form ρ)} {done between made : List Tree} {ts us : List Token}
      (first : Reads g f done ts between) (others : Reads g (.all fs) between us made) :
      Reads g (.all (f :: fs)) done (ts ++ us) made
  | taken {f : Form ρ} {fs : List (Form ρ)} {done made : List Tree} {ts : List Token}
      (first : Reads g f done ts made) : Reads g (.any (f :: fs)) done ts made
  | passed {f : Form ρ} {fs : List (Form ρ)} {done made : List Tree} {ts : List Token}
      (others : Reads g (.any fs) done ts made) : Reads g (.any (f :: fs)) done ts made
  | stop {f : Form ρ} {done : List Tree} : Reads g (.many f) done [] done
  | again {f : Form ρ} {done between made : List Tree} {ts us : List Token}
      (once : Reads g f done ts between) (others : Reads g (.many f) between us made) :
      Reads g (.many f) done (ts ++ us) made
  | node {k : Kind} {f : Form ρ} {done made : List Tree} {ts : List Token}
      (body : Reads g f [] ts made) : Reads g (.node k f) done ts (.around k made :: done)
  | part {r : Role} {f : Form ρ} {done made : List Tree} {ts : List Token}
      (body : Reads g f [] ts made) :
      Reads g (.part r f) done ts (made.map (Tree.withRole r) ++ done)
  | group {f : Form ρ} {done made : List Tree} {ts : List Token} (body : Reads g f [] ts made) :
      Reads g (.group f) done ts (made ++ done)
  | around {k : Kind} {f : Form ρ} {done made : List Tree} {ts : List Token}
      (body : Reads g f done ts made) : Reads g (.around k none f) done ts [.around k made]
  | aroundPart {k : Kind} {r : Role} {f : Form ρ} {done made : List Tree} {ts : List Token}
      (body : Reads g f (done.map (Tree.withRole r)) ts made) :
      Reads g (.around k (some r) f) done ts [.around k made]

variable {g : ρ → Form ρ}

/-- What the reader gives is read. -/
theorem reads_of_read {fuel : Nat} {f : Form ρ} {done : List Tree} {ts : List Token}
    {s : List Tree × List Token} (given : read g fuel f done ts = some s) :
    ∃ taken, ts = taken ++ s.2 ∧ Reads g f done taken s.1 := by
  induction fuel generalizing f done ts s with
  | zero => cases given
  | succ fuel ih =>
      rw [read.eq_def] at given
      simp only at given
      split at given
      -- one token
      case h_1 | h_2 | h_3 =>
        split at given
        case h_1 t r =>
          split at given
          case isTrue fits =>
            obtain rfl := Option.some.inj given
            refine ⟨[t], rfl, ?_⟩
            constructor
            exact fits
          case isFalse => cases given
        case h_2 => cases given
      -- no token, with a look at what follows
      case h_4 =>
        split at given
        case isTrue =>
          obtain rfl := Option.some.inj given
          exact ⟨[], rfl, .ahead⟩
        case isFalse => cases given
      case h_5 =>
        obtain ⟨taken, whole, body⟩ := ih given
        exact ⟨taken, whole, .rule body⟩
      -- one form after the other
      case h_6 =>
        obtain rfl := Option.some.inj given
        exact ⟨[], rfl, .last⟩
      case h_7 =>
        obtain ⟨between, hfirst, hothers⟩ := Option.bind_eq_some_iff.mp given
        obtain ⟨taken, rfl, first⟩ := ih hfirst
        obtain ⟨taken', whole, others⟩ := ih hothers
        exact ⟨taken ++ taken', by rw [whole, List.append_assoc], .next first others⟩
      -- the first form that fits
      case h_8 => cases given
      case h_9 f fs =>
        cases hfirst : read g fuel f done ts with
        | none =>
            rw [hfirst] at given
            obtain ⟨taken, whole, others⟩ := ih given
            exact ⟨taken, whole, .passed others⟩
        | some made =>
            rw [hfirst] at given
            obtain rfl := Option.some.inj given
            obtain ⟨taken, whole, first⟩ := ih hfirst
            exact ⟨taken, whole, .taken first⟩
      -- as often as the form fits
      case h_10 f =>
        split at given
        case h_1 =>
          obtain rfl := Option.some.inj given
          exact ⟨[], rfl, .stop⟩
        case h_2 honce =>
          obtain ⟨taken, rfl, once⟩ := ih honce
          obtain ⟨taken', whole, others⟩ := ih given
          exact ⟨taken ++ taken', by rw [whole, List.append_assoc], .again once others⟩
      -- trees made of what a form of its own leaves
      case h_11 | h_12 | h_13 =>
        obtain ⟨made, body, rfl⟩ := Option.map_eq_some_iff.mp given
        obtain ⟨taken, whole, body⟩ := ih body
        refine ⟨taken, whole, ?_⟩
        constructor
        exact body
      case h_14 k r? f =>
        obtain ⟨made, body, rfl⟩ := Option.map_eq_some_iff.mp given
        obtain ⟨taken, whole, body⟩ := ih body
        cases r? with
        | none => exact ⟨taken, whole, .around body⟩
        | some r => exact ⟨taken, whole, .aroundPart body⟩

end Form

/-- The tree of a text is read from its tokens, and has its comments put in. -/
theorem Grammar.exists_reads_of_parse? {g : Grammar} {text : List Char} {t : Tree}
    (parsed : g.parse? text = some t) :
    ∃ t', Form.Reads g.form (.rule g.start) [] (lex g.spelling text).tokens [t'] ∧
      t = (lex g.spelling text).comments.foldl (fun t c => t.insert c) t' := by
  simp only [Grammar.parse?] at parsed
  split at parsed
  case h_2 => cases parsed
  case h_1 t' given =>
    obtain ⟨taken, whole, reads⟩ := Form.reads_of_read given
    rw [List.append_nil] at whole
    exact ⟨t', whole ▸ reads, (Option.some.inj parsed).symm⟩

end Syntax

end AndroidLint
