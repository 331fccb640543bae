/-
Catalog — which rules are active, and how serious they are.

The rules stand in a fixed order.  A selection turns on more than those
that are on by default, then takes away what it disables, and may change
how serious a rule is.
-/
import AndroidLint.Rule.Resources
import AndroidLint.Rule.Calls
import AndroidLint.Rule.Conventions
import AndroidLint.Rule.Boundary

namespace AndroidLint

/-- Every rule, in catalog order. -/
def Rule.all : List Rule :=
  [colorResourceUsage, hardcodedValue, srcCompatUsage, webViewInsideScrollView, frameworkPair,
    getDrawable, resCompatGetColor, stringFormatNoLocale, stringToCaseNoLocale,
    systemCurrentTimeMillis, unsupportedJava8Api, packageName, languageBoundary, rxJavaDistinct,
    rxJavaToSingle]

/-- What holds of the rules for resources, of those for calls of members, of
the other rules for sources and of the two that are not like any other holds
of every rule. -/
theorem Rule.forall_mem_all {P : Rule → Prop}
    (resources : ∀ r ∈ [colorResourceUsage, hardcodedValue, srcCompatUsage,
      webViewInsideScrollView], P r)
    (members : ∀ r ∈ [getDrawable, resCompatGetColor, systemCurrentTimeMillis, rxJavaDistinct,
      rxJavaToSingle], P r)
    (sources : ∀ r ∈ [frameworkPair, stringFormatNoLocale, stringToCaseNoLocale, packageName], P r)
    (newer : P unsupportedJava8Api) (boundary : P languageBoundary) : ∀ r ∈ all, P r := by
  simp only [List.forall_mem_cons] at resources members sources
  obtain ⟨color, hardcoded, source, webView, -⟩ := resources
  obtain ⟨drawable, getColor, clock, distinct, single, -⟩ := members
  obtain ⟨pair, format, changed, package, -⟩ := sources
  simp only [all, List.forall_mem_cons]
  exact ⟨color, hardcoded, source, webView, pair, drawable, getColor, format, changed, clock, newer,
    package, boundary, distinct, single, fun r h => absurd h List.not_mem_nil⟩

/-- What holds of every rule that is made for calls holds of those for calls
of members. -/
theorem Rule.forall_mem_members {P : Rule → Prop}
    (made : ∀ info names owners message fix, P (ruleForCalls info names owners message fix)) :
    ∀ r ∈ [getDrawable, resCompatGetColor, systemCurrentTimeMillis, rxJavaDistinct,
      rxJavaToSingle], P r := by
  simp only [List.forall_mem_cons]
  exact ⟨made _ _ _ _ _, made _ _ _ _ _, made _ _ _ _ _, made _ _ _ _ _, made _ _ _ _ _,
    fun r h => absurd h List.not_mem_nil⟩

/-- What a project chooses: rules to add, rules to leave out, and other
severities by rule. -/
structure Selection where
  enable : List String
  disable : List String
  severities : List (String × Severity)

namespace Selection

/-- Nothing chosen. -/
def none : Selection :=
  ⟨[], [], []⟩

/-- Whether a rule is added or on by default. -/
def turnsOn (s : Selection) (r : Rule) : Bool :=
  s.enable.contains "all" || r.info.onByDefault || s.enable.contains r.id

/-- Whether a rule is active. -/
def activates (s : Selection) (r : Rule) : Bool :=
  s.turnsOn r && !s.disable.contains r.id

end Selection

/-- The active rules, and the severities that were set for rules. -/
structure Catalog where
  rules : List Rule
  severities : List (String × Severity)

namespace Catalog

/-- The catalog of a selection. -/
def ofSelection (s : Selection) : Catalog :=
  ⟨Rule.all.filter s.activates, s.severities⟩

/-- Every rule. -/
def full : Catalog :=
  ⟨Rule.all, []⟩

/-- The rules that are on by default. -/
def standard : Catalog :=
  ⟨Rule.all.filter (·.info.onByDefault), []⟩

/-- What the rules ask for, rule by rule: kinds of nodes, each with the
place of the rule in the catalog. -/
def subscriptions (c : Catalog) : List (Rule.NodeKind × Nat) :=
  c.rules.zipIdx.flatMap fun (r, place) => r.kinds.map (·, place)

/-- The rules that ask for nodes of a kind, by their subscriptions. -/
def rulesFor (c : Catalog) (k : Rule.NodeKind) : List Rule :=
  (c.subscriptions.filter (·.1 == k)).filterMap fun (_, place) => c.rules[place]?

/-- How serious a rule is: as set, or else its own severity. -/
def severityOf (c : Catalog) (info : Rule.Info) : Severity :=
  match c.severities.find? (·.1 == info.id) with
  | some (_, s) => s
  | Option.none => info.severity

/-- Whether a rule is active. -/
def contains (c : Catalog) (id : String) : Bool :=
  c.rules.any (·.id == id)

end Catalog

end AndroidLint
