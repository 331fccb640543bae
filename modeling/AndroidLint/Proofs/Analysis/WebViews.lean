/-
WebViews — how often a scroll container is reported.

A web view that stands in a container it does not fill is the container's
fault, and the finding is put there.  The rule is asked once for each element,
though, and answers for each web view: what it reports is one finding for each
pair of a web view and its nearest container (`Collapses`).  That is one finding
for each container exactly if no container has two such web views.

Other rules report at the node they were asked about, so this is the one way in
which a report on a document comes to hold a finding twice, as long as no two of
the document's nodes share a place.  The places of attributes can coincide where
the value of one holds the key of another.
-/
import Mathlib.Data.List.Perm.Subperm
import AndroidLint.Proofs.Analysis.Selection
import AndroidLint.Proofs.Report.Order
import AndroidLint.Proofs.Rule.Attributes

namespace AndroidLint

open Markup (Document Element)

namespace Rule

/-! ## The nearest container -/

/-- `NearestContainer d i c`: the first scroll container on the way outwards
from the element `i`, itself included, is the element `c`. -/
inductive NearestContainer (d : Document) : Nat → Nat → Prop where
  | here {i : Nat} {e : Element} (found : d.element? i = some e)
      (scrolls : e.tag ∈ scrollContainers) : NearestContainer d i i
  | around {i p c : Nat} {e : Element} (found : d.element? i = some e)
      (other : e.tag ∉ scrollContainers) (parent : e.parent = some p) (before : p < i)
      (outer : NearestContainer d p c) : NearestContainer d i c

/-- `Collapses d w c`: the web view `w`, at which the rule is not silenced, has
the element `c` for its nearest container and is not made to fill it. -/
structure Collapses (d : Document) (w c : Nat) : Prop where
  view : ∃ e, d.element? w = some e ∧ e.tag = "WebView"
  nearest : NearestContainer d w c
  short : ∀ e, d.element? c = some e →
    ∀ a, e.attribute? "android:fillViewport" = some a → a.value ≠ "true"
  heard : Suppression.silencedAt d w webViewInsideScrollView.id = false

/-- Where an element is; the top of the file for an index without one. -/
def placeOf (d : Document) (i : Nat) : Location :=
  ((d.element? i).map (·.location)).getD (.top d.path)

/-- The finding for a container under a selection. -/
def containerFinding (s : Selection) (d : Document) (c : Nat) : Finding :=
  { webViewInfo.finding (placeOf d c) (Text.oneLine webViewExplanation)
      (some (.setAttribute androidSpace "fillViewport" "true")) with
    severity := Reference.severity s webViewInsideScrollView }

/-- `OncePerContainer s d found`: there is one finding for each container in
which some web view collapses, and no other. -/
def OncePerContainer (s : Selection) (d : Document) (found : List Finding) : Prop :=
  ∃ containers : List Nat, containers.Nodup ∧ (∀ c, c ∈ containers ↔ ∃ w, Collapses d w c) ∧
    found.Perm (containers.map (containerFinding s d))

/-- No two web views collapse in one container. -/
def SoleViews (d : Document) : Prop :=
  ∀ c w w', Collapses d w c → Collapses d w' c → w = w'

section Containers

variable {d : Document} {i : Nat} {e container : Element}

theorem scrollContainer?_of_scrolls (found : d.element? i = some e)
    (scrolls : e.tag ∈ scrollContainers) : scrollContainer? d i = some e := by
  have step : ∀ rest, ((i :: rest).filterMap d.element?).find?
      (fun e => scrollContainers.contains e.tag) = some e := by
    intro rest
    rw [List.filterMap_cons_some found, List.find?_cons_of_pos (by simpa using scrolls)]
  rw [scrollContainer?, Document.ancestorsOrSelf, Document.outward]
  split <;> exact step _

theorem scrollContainer?_of_inner (found : d.element? i = some e)
    (other : e.tag ∉ scrollContainers) {p : Nat} (before : p < i) (parent : e.parent = some p) :
    scrollContainer? d i = scrollContainer? d p := by
  have outer : d.parentBefore? i = some ⟨p, before⟩ :=
    Document.parentBefore?_eq_some_iff.mpr ⟨e, found, parent⟩
  rw [scrollContainer?, Document.ancestorsOrSelf, Document.outward, outer,
    List.filterMap_cons_some found, List.find?_cons_of_neg (by simpa using other)]
  rfl

theorem NearestContainer.scrollContainer?_eq {c : Nat} (nearest : NearestContainer d i c) :
    ∃ container, d.element? c = some container ∧ scrollContainer? d i = some container := by
  induction nearest with
  | here found scrolls => exact ⟨_, found, scrollContainer?_of_scrolls found scrolls⟩
  | around found other parent before _ ih =>
      rw [scrollContainer?_of_inner found other before parent]
      exact ih

theorem exists_nearestContainer (found : scrollContainer? d i = some container) :
    ∃ c, NearestContainer d i c ∧ d.element? c = some container := by
  induction i using Nat.strongRecOn with
  | ind i ih =>
      cases held : d.element? i with
      | none =>
          have outermost : d.outward i = [i] := by
            rw [Document.outward, Document.parentBefore?, held]
            rfl
          rw [scrollContainer?, Document.ancestorsOrSelf, outermost,
            List.filterMap_cons_none held] at found
          cases found
      | some e =>
          by_cases scrolls : e.tag ∈ scrollContainers
          · rw [scrollContainer?_of_scrolls held scrolls] at found
            exact ⟨i, .here held scrolls, Option.some.inj found ▸ held⟩
          · cases outer : d.parentBefore? i with
            | none =>
                rw [scrollContainer?, Document.ancestorsOrSelf, Document.outward, outer,
                  List.filterMap_cons_some held,
                  List.find?_cons_of_neg (by simpa using scrolls)] at found
                cases found
            | some q =>
                obtain ⟨e', held', parent⟩ := Document.parentBefore?_eq_some_iff.mp outer
                obtain rfl := Option.some.inj (held.symm.trans held')
                rw [scrollContainer?_of_inner held scrolls q.2 parent] at found
                obtain ⟨c, nearest, there⟩ := ih q.1 q.2 found
                exact ⟨c, .around held scrolls parent q.2 nearest, there⟩

theorem NearestContainer.unique {c c' : Nat} (first : NearestContainer d i c)
    (second : NearestContainer d i c') : c = c' := by
  induction first with
  | here found scrolls =>
      cases second with
      | here => rfl
      | around found' other =>
          obtain rfl := Option.some.inj (found.symm.trans found')
          exact absurd scrolls other
  | around found other parent _ _ ih =>
      cases second with
      | here found' scrolls =>
          obtain rfl := Option.some.inj (found.symm.trans found')
          exact absurd scrolls other
      | around found' _ parent' _ outer =>
          obtain rfl := Option.some.inj (found.symm.trans found')
          obtain rfl := Option.some.inj (parent.symm.trans parent')
          exact ih outer

theorem placeOf_eq (found : d.element? i = some e) : placeOf d i = e.location := by
  rw [placeOf, found]
  rfl

theorem fillsViewport_eq_false_iff :
    fillsViewport container = false ↔
      ∀ a, container.attribute? "android:fillViewport" = some a → a.value ≠ "true" := by
  rw [fillsViewport]
  cases container.attribute? "android:fillViewport" <;> simp

end Containers

/-! ## What is found at an element -/

section Elements

variable {s : Selection} {x : Context} {d : Document} {qs : List String} {w : Nat} {e : Element}
  {f : Finding}

/-- What the rule says about an element: a web view's container is reported,
unless it is made to fill the view. -/
theorem judge_webView_iff (around : x.surroundings = .resource d)
    (layout : Resource.LiesIn d.path "layout" qs) :
    webViewInsideScrollView.judge x (.element d w e) = .ok (some f) ↔
      e.tag = "WebView" ∧ ∃ container, scrollContainer? d w = some container ∧
        fillsViewport container = false ∧
        f = webViewInfo.finding container.location (Text.oneLine webViewExplanation)
          (some (.setAttribute androidSpace "fillViewport" "true")) := by
  have inLayout : x.isIn .layout = true := (isIn_iff around).mpr ⟨qs, layout⟩
  dsimp only [webViewInsideScrollView]
  cases scrollContainer? d w with
  | none => simp [pass]
  | some container =>
      simp only [inLayout, Bool.true_and, Info.reportIf, Except.ok.injEq, Option.ite_none_right_eq_some,
        Bool.and_eq_true, beq_iff_eq, Bool.not_eq_true', Option.some.injEq, exists_eq_left']
      tauto

theorem finding?_webView_iff (around : x.surroundings = .resource d)
    (layout : Resource.LiesIn d.path "layout" qs) (found : d.element? w = some e) :
    Reference.finding? s x (.element d w e, webViewInsideScrollView) = some f ↔
      ∃ c, Collapses d w c ∧ f = containerFinding s d c := by
  have silenced : Suppression.isSilenced x (.element d w e) webViewInsideScrollView.id =
      Suppression.silencedAt d w webViewInsideScrollView.id := rfl
  constructor
  · intro h
    rw [Reference.finding?] at h
    split at h
    case h_2 => cases h
    case h_1 g judged =>
      split at h
      case isTrue => cases h
      case isFalse heard =>
        obtain ⟨view, container, nearest, short, rfl⟩ := (judge_webView_iff around layout).mp judged
        obtain ⟨c, first, there⟩ := exists_nearestContainer nearest
        refine ⟨c, ⟨⟨e, found, view⟩, first, ?_, by simpa [silenced] using heard⟩, ?_⟩
        · intro e' held
          obtain rfl := Option.some.inj (there.symm.trans held)
          exact fillsViewport_eq_false_iff.mp short
        · rw [containerFinding, placeOf_eq there]
          exact (Option.some.inj h).symm
  · rintro ⟨c, collapses, rfl⟩
    obtain ⟨e', held, view⟩ := collapses.view
    obtain rfl := Option.some.inj (found.symm.trans held)
    obtain ⟨container, there, nearest⟩ := collapses.nearest.scrollContainer?_eq
    have judged := (judge_webView_iff (w := w) (e := e) around layout).mpr
      ⟨view, container, nearest, fillsViewport_eq_false_iff.mpr (collapses.short _ there), rfl⟩
    rw [Reference.finding?, judged]
    simp only [silenced, collapses.heard, Bool.false_eq_true, if_false, containerFinding,
      placeOf_eq there]

end Elements

/-! ## What is found in a document -/

/-- A list that is sifted by a relation from its members' keys: what is left
is one for each pair that is related. -/
theorem exists_pairs_of_filterMap {α β κ γ : Type} (key : α → κ) (related : κ → γ → Prop)
    (h : γ → β) {g : α → Option β} {l : List α} (apart : (l.map key).Nodup)
    (gives : ∀ a ∈ l, ∀ b, g a = some b ↔ ∃ c, related (key a) c ∧ b = h c)
    (one : ∀ k c c', related k c → related k c' → c = c') :
    ∃ pairs : List (κ × γ), pairs.Nodup ∧
      (∀ k c, (k, c) ∈ pairs ↔ k ∈ l.map key ∧ related k c) ∧
      l.filterMap g = pairs.map fun p => h p.2 := by
  induction l with
  | nil => exact ⟨[], List.nodup_nil, by simp, rfl⟩
  | cons a l ih =>
      obtain ⟨fresh, apart⟩ := List.nodup_cons.mp apart
      obtain ⟨pairs, nodup, mem, sifted⟩ := ih apart fun a' later => gives a' (.tail a later)
      have first := gives a List.mem_cons_self
      cases found : g a with
      | none =>
          have unrelated : ∀ c, ¬ related (key a) c := fun c rel =>
            absurd ((first (h c)).mpr ⟨c, rel, rfl⟩) (by simp [found])
          refine ⟨pairs, nodup, fun k c => ?_, by rw [List.filterMap_cons_none found, sifted]⟩
          rw [mem, List.map_cons, List.mem_cons]
          constructor
          · exact fun ⟨later, rel⟩ => ⟨.inr later, rel⟩
          · rintro ⟨rfl | later, rel⟩
            · exact absurd rel (unrelated c)
            · exact ⟨later, rel⟩
      | some b =>
          obtain ⟨c, rel, rfl⟩ := (first b).mp found
          refine ⟨(key a, c) :: pairs, List.nodup_cons.mpr ⟨?_, nodup⟩, fun k c' => ?_, ?_⟩
          · exact fun held => fresh ((mem _ _).mp held).1
          · rw [List.mem_cons, mem, List.map_cons, List.mem_cons, Prod.mk.injEq]
            constructor
            · rintro (⟨rfl, rfl⟩ | ⟨later, rel⟩)
              · exact ⟨.inl rfl, rel⟩
              · exact ⟨.inr later, rel⟩
            · rintro ⟨rfl | later, rel'⟩
              · exact .inl ⟨rfl, one _ _ _ rel' rel⟩
              · exact .inr ⟨later, rel'⟩
          · rw [List.filterMap_cons_some found, sifted, List.map_cons]

variable {s : Selection} {d : Document} {qs : List String}

/-- What the rule finds in a document, element by element, is one finding for
each pair of a web view and the container that it collapses in. -/
theorem exists_views {x : Context} (around : x.surroundings = .resource d)
    (layout : Resource.LiesIn d.path "layout" qs) :
    ∃ views : List (Nat × Nat), views.Nodup ∧ (∀ w c, (w, c) ∈ views ↔ Collapses d w c) ∧
      (Reference.nodes (.resource d)).filterMap
          (fun n => Reference.finding? s x (n, webViewInsideScrollView)) =
        views.map fun v => containerFinding s d v.2 := by
  have elements : (Reference.nodes (.resource d)).filterMap
      (fun n => Reference.finding? s x (n, webViewInsideScrollView)) =
        d.elements.toList.zipIdx.filterMap fun v =>
          Reference.finding? s x (.element d v.2 v.1, webViewInsideScrollView) := by
    -- an attribute is passed over, so each element is left with what is found at itself
    rw [Reference.nodes, List.filterMap_flatMap, List.filterMap_eq_flatMap_toList]
    refine List.flatMap_congr fun v _ => ?_
    obtain ⟨e, w⟩ := v
    dsimp only
    have passed : (e.attributes.map (Node.attribute d w)).filterMap
        (fun n => Reference.finding? s x (n, webViewInsideScrollView)) = [] := by
      rw [List.filterMap_map, List.filterMap_eq_nil_iff]
      exact fun a _ => rfl
    rw [List.filterMap_cons, passed]
    cases Reference.finding? s x (.element d w e, webViewInsideScrollView) <;> rfl
  have held : ∀ {v : Element × Nat}, v ∈ d.elements.toList.zipIdx → d.element? v.2 = some v.1 := by
    intro v mem
    rw [Document.element?, ← Array.getElem?_toList]
    exact List.mem_zipIdx_iff_getElem?.mp mem
  have indexes : d.elements.toList.zipIdx.map Prod.snd = List.range' 0 d.elements.toList.length :=
    List.zipIdx_map_snd 0 _
  obtain ⟨views, nodup, mem, sifted⟩ := exists_pairs_of_filterMap Prod.snd (Collapses d)
    (containerFinding s d) (indexes ▸ List.nodup_range')
    (fun v mem f => finding?_webView_iff (s := s) (w := v.2) around layout (held mem))
    (fun w c c' first second => first.nearest.unique second.nearest)
  refine ⟨views, nodup, fun w c => ?_, elements.trans sifted⟩
  rw [mem, and_iff_right_iff_imp]
  intro collapses
  obtain ⟨e, found, -⟩ := collapses.view
  rw [Document.element?, ← Array.getElem?_toList] at found
  exact List.mem_map.mpr ⟨(e, w), List.mem_zipIdx_iff_getElem?.mpr found, rfl⟩

/-- The findings, one for each pair, are one for each container if no container
stands in two pairs, and only then. -/
theorem oncePerContainer_iff {views : List (Nat × Nat)} {found : List Finding}
    (nodup : views.Nodup) (mem : ∀ w c, (w, c) ∈ views ↔ Collapses d w c)
    (perm : found.Perm (views.map fun v => containerFinding s d v.2)) :
    OncePerContainer s d found ↔ SoleViews d := by
  constructor
  · rintro ⟨containers, once, held, perm'⟩ c w w' first second
    have same : (views.map Prod.snd).Perm containers := by
      have within : containers ⊆ views.map Prod.snd := by
        intro c' hc
        obtain ⟨v, collapses⟩ := (held c').mp hc
        exact List.mem_map.mpr ⟨(v, c'), (mem v c').mpr collapses, rfl⟩
      have short : (views.map Prod.snd).length ≤ containers.length := by
        have lengths := (perm.symm.trans perm').length_eq
        simp only [List.length_map] at lengths ⊢
        exact lengths.le
      exact ((once.subperm within).perm_of_length_le short).symm
    have views_eq := List.inj_on_of_nodup_map (same.nodup_iff.mpr once) ((mem w c).mpr first)
      ((mem w' c).mpr second) rfl
    exact congrArg Prod.fst views_eq
  · intro sole
    refine ⟨views.map Prod.snd, nodup.map_on ?_, fun c => ?_, by rwa [List.map_map]⟩
    · rintro ⟨w, c⟩ first ⟨w', c'⟩ second rfl
      rw [sole c w w' ((mem w c).mp first) ((mem w' c).mp second)]
    · simp [mem]

end Rule

/-! ## What a report holds -/

open Rule (Node Context)

section Reports

variable (a : Analysis) {s : Selection} {file : ParsedFile}

theorem active_filter_id {r : Rule} (mem : r ∈ Rule.all) (active : Reference.IsActive s r) :
    (Reference.active s).filter (·.id = r.id) = [r] := by
  have held : r ∈ Reference.active s := List.mem_filter.mpr ⟨mem, decide_eq_true active⟩
  have apart : ((Reference.active s).map Rule.id).Nodup :=
    Rule.nodup_ids.sublist (List.filter_sublist.map _)
  have ids : ((Reference.active s).filter (·.id = r.id)).map Rule.id = [r.id] := by
    have once := List.count_eq_one_of_mem apart (List.mem_map_of_mem held)
    calc ((Reference.active s).filter (·.id = r.id)).map Rule.id
        = ((Reference.active s).filter ((· == r.id) ∘ Rule.id)).map Rule.id :=
          congrArg (List.map Rule.id) (List.filter_congr fun r' _ => (beq_eq_decide _ _).symm)
      _ = ((Reference.active s).map Rule.id).filter (· == r.id) := List.filter_map.symm
      _ = [r.id] := by rw [List.filter_beq, once]; rfl
  obtain ⟨r', alone, same⟩ := List.map_eq_singleton_iff.mp ids
  have held' : r' ∈ Reference.active s :=
    (List.mem_filter.mp (alone ▸ List.mem_singleton_self r')).1
  rw [alone, List.inj_on_of_nodup_map apart held' held same]

theorem offers_filter_id {r : Rule} (mem : r ∈ Rule.all) (active : Reference.IsActive s r) :
    (Reference.offers s file).filter (·.2.id = r.id) = (Reference.nodes file).map (·, r) := by
  rw [Reference.offers, List.filter_flatMap, List.map_eq_flatMap]
  refine List.flatMap_congr fun n _ => ?_
  rw [List.filter_map]
  exact congrArg (List.map (n, ·)) (active_filter_id mem active)

/-- The findings of one rule are what it finds at the nodes. -/
theorem filter_findings {r : Rule} (mem : r ∈ Rule.all) (active : Reference.IsActive s r) :
    ((a.selecting s).reportOn file).findings.filter (·.ruleId = r.id) =
      sortBy Reference.rank ((Reference.nodes file).filterMap fun n =>
        Reference.finding? s (a.context file) (n, r)) := by
  have found : ∀ o ∈ Reference.offers s file, ∀ f,
      Reference.finding? s (a.context file) o = some f → f.ruleId = o.2.id :=
    fun o mem f h => ruleId_of_offered mem h
  rw [reportOn_selecting, ← sortBy_filter, ← filterMap_filter_id (· = r.id) found,
    offers_filter_id mem active, List.filterMap_map]
  rfl

/-- Only web views make a rule report at a node other than its own. -/
theorem location_of_found {x : Context} {n : Node} {r : Rule} (mem : r ∈ Rule.all)
    (other : r.id ≠ Rule.webViewInsideScrollView.id) {f : Finding}
    (found : Reference.finding? s x (n, r) = some f) : f.location = n.location := by
  obtain ⟨g, judged, rfl⟩ := finding?_eq_some found
  obtain ⟨asked, -, lies, -, -⟩ := Rule.reply_of_judge mem judged
  have asks : ∀ r ∈ Rule.all, r.asksFor .element = true →
      r.id = Rule.webViewInsideScrollView.id := by decide
  have notElement : n.kind ≠ .element := fun kind => other (asks r mem (kind ▸ asked))
  have alone : n.places = [n.location] := by
    cases n with
    | element d w e => exact absurd rfl notElement
    | _ => rfl
  rw [alone] at lies
  exact List.mem_singleton.mp lies

variable {d : Document} {qs : List String}

/-- What one node gives rise to is found by different rules. -/
theorem nodup_found_at (x : Context) (n : Node) :
    (((Reference.active s).map (n, ·)).filterMap (Reference.finding? s x)).Nodup := by
  rw [List.filterMap_map, List.Nodup, List.pairwise_filterMap]
  have apart : ((Reference.active s).map Rule.id).Nodup :=
    Rule.nodup_ids.sublist (List.filter_sublist.map _)
  refine (List.pairwise_map.mp apart).imp_of_mem fun {r r'} mem mem' ne f found f' found' => ?_
  rintro rfl
  obtain ⟨g, judged, rfl⟩ := finding?_eq_some found
  obtain ⟨g', judged', same⟩ := finding?_eq_some found'
  have signed := (Rule.reply_of_judge (List.mem_filter.mp mem).1 judged).signed
  have signed' := (Rule.reply_of_judge (List.mem_filter.mp mem').1 judged').signed
  have ids := congrArg Finding.ruleId same
  exact ne (signed.symm.trans (ids.trans signed'))

/-- Elements that stand at one place are one, if no two nodes share a place. -/
theorem eq_of_placeOf_eq (apart : ((Reference.nodes (.resource d)).map Node.location).Nodup)
    {c c' : Nat} {e e' : Element} (held : d.element? c = some e) (held' : d.element? c' = some e')
    (same : Rule.placeOf d c = Rule.placeOf d c') : c = c' := by
  rw [Rule.placeOf_eq held, Rule.placeOf_eq held'] at same
  have mem := element_mem_nodes_iff.mpr ⟨rfl, held⟩
  have mem' := element_mem_nodes_iff.mpr ⟨rfl, held'⟩
  have nodes : Node.element d c e = Node.element d c' e' :=
    List.inj_on_of_nodup_map apart mem mem' same
  exact (Node.element.inj nodes).2.1

/-- A node at which the rule finds something is a web view that collapses. -/
theorem exists_collapses_of_found {x : Context} (around : x.surroundings = .resource d)
    (layout : Resource.LiesIn d.path "layout" qs) {n : Node}
    (mem : n ∈ Reference.nodes (.resource d)) {f : Finding}
    (found : Reference.finding? s x (n, Rule.webViewInsideScrollView) = some f) :
    ∃ w c e, n = .element d w e ∧ d.element? w = some e ∧ Rule.Collapses d w c ∧
      f = Rule.containerFinding s d c := by
  cases n with
  | element d' w e =>
      obtain ⟨rfl, held⟩ := element_mem_nodes_iff.mp mem
      obtain ⟨c, collapses, rfl⟩ := (Rule.finding?_webView_iff around layout held).mp found
      exact ⟨w, c, e, rfl, held, collapses, rfl⟩
  | _ => cases found

/-- If no two nodes share a place and no two web views a container, then what is
found at two nodes is found at one. -/
theorem location_eq_of_found {x : Context} (around : x.surroundings = .resource d)
    (layout : Resource.LiesIn d.path "layout" qs) (sole : Rule.SoleViews d)
    (apart : ((Reference.nodes (.resource d)).map Node.location).Nodup) {o o' : Node × Rule}
    (mem : o ∈ Reference.offers s (.resource d)) (mem' : o' ∈ Reference.offers s (.resource d))
    {f : Finding} (found : Reference.finding? s x o = some f)
    (found' : Reference.finding? s x o' = some f) : o.1.location = o'.1.location := by
  obtain ⟨n, r⟩ := o
  obtain ⟨n', r'⟩ := o'
  have rules : r = r' := Rule.eq_of_id_eq (mem_all_of_offered mem).1 (mem_all_of_offered mem').1
    ((ruleId_of_offered mem found).symm.trans (ruleId_of_offered mem' found'))
  subst rules
  by_cases views : r.id = Rule.webViewInsideScrollView.id
  · have member : Rule.webViewInsideScrollView ∈ Rule.all := by simp [Rule.all]
    obtain rfl := Rule.eq_of_id_eq (mem_all_of_offered mem).1 member views
    obtain ⟨w, c, e, rfl, held, collapses, rfl⟩ :=
      exists_collapses_of_found around layout (mem_nodes_of_offered mem) found
    obtain ⟨w', c', e', rfl, held', collapses', same⟩ :=
      exists_collapses_of_found around layout (mem_nodes_of_offered mem') found'
    obtain ⟨_, there, -⟩ := collapses.nearest.scrollContainer?_eq
    obtain ⟨_, there', -⟩ := collapses'.nearest.scrollContainer?_eq
    obtain rfl := eq_of_placeOf_eq apart there there' (congrArg Finding.location same)
    obtain rfl := sole c w w' collapses collapses'
    exact congrArg Element.location (Option.some.inj (held.symm.trans held'))
  · rw [← location_of_found (mem_all_of_offered mem).1 views found,
      ← location_of_found (mem_all_of_offered mem').1 views found']

/-- The rule's part of a report is one finding for each pair of a web view and
the container that it collapses in. -/
theorem exists_views_of_report (active : Reference.IsActive s Rule.webViewInsideScrollView)
    (layout : Resource.LiesIn d.path "layout" qs) :
    ∃ views : List (Nat × Nat), views.Nodup ∧ (∀ w c, (w, c) ∈ views ↔ Rule.Collapses d w c) ∧
      (((a.selecting s).reportOn (.resource d)).findings.filter
          (·.ruleId = Rule.webViewInsideScrollView.id)).Perm
        (views.map fun v => Rule.containerFinding s d v.2) := by
  have around : (a.context (.resource d)).surroundings = .resource d := rfl
  have member : Rule.webViewInsideScrollView ∈ Rule.all := by simp [Rule.all]
  obtain ⟨views, nodup, mem, found⟩ := Rule.exists_views (s := s) around layout
  refine ⟨views, nodup, mem, ?_⟩
  rw [filter_findings a member active, found]
  exact (stablySorted_sortBy Reference.rank _).perm

/-- A report on a layout whose nodes share no place holds nothing twice if no
container has two web views, and only then. -/
theorem nodup_findings_iff (active : Reference.IsActive s Rule.webViewInsideScrollView)
    (layout : Resource.LiesIn d.path "layout" qs)
    (apart : ((Reference.nodes (.resource d)).map Node.location).Nodup) :
    ((a.selecting s).reportOn (.resource d)).findings.Nodup ↔ Rule.SoleViews d := by
  constructor
  · intro nodup c w w' first second
    obtain ⟨views, -, mem, perm⟩ := exists_views_of_report a active layout
    have own := perm.nodup_iff.mp (nodup.filter _)
    have same := List.inj_on_of_nodup_map own ((mem w c).mpr first) ((mem w' c).mpr second) rfl
    exact congrArg Prod.fst same
  · intro sole
    have around : (a.context (.resource d)).surroundings = .resource d := rfl
    rw [reportOn_selecting]
    dsimp only
    rw [(stablySorted_sortBy Reference.rank _).perm.nodup_iff, Reference.offers,
      List.filterMap_flatMap, List.Nodup, List.pairwise_flatMap]
    refine ⟨fun n _ => nodup_found_at _ n, (List.pairwise_map.mp apart).imp_of_mem ?_⟩
    intro n m memN memM ne f found f' found'
    obtain ⟨o, offered, found⟩ := List.mem_filterMap.mp found
    obtain ⟨o', offered', found'⟩ := List.mem_filterMap.mp found'
    rintro rfl
    obtain ⟨r, -, rfl⟩ := List.mem_map.mp offered
    obtain ⟨r', -, rfl⟩ := List.mem_map.mp offered'
    exact ne (location_eq_of_found around layout sole apart
      (List.mem_flatMap.mpr ⟨n, memN, offered⟩) (List.mem_flatMap.mpr ⟨m, memM, offered'⟩)
      found found')

end Reports

/-- **A container is reported once for each web view in it.**  For every
analysis, every selection with the rule for web views and every document in a
layout folder, the rule's findings are one for each pair of a web view and its
nearest container, where the rule is not silenced at the web view and the
container does not fill the view; all lie at the container.  They are one for
each container exactly if no two web views collapse in one container; and if no
two nodes of the document share a place, this is also when the report holds no
finding twice. -/
theorem webViews_reported (a : Analysis) (s : Selection) (d : Document) (qs : List String)
    (active : Reference.IsActive s Rule.webViewInsideScrollView)
    (layout : Resource.LiesIn d.path "layout" qs) :
    (∃ views : List (Nat × Nat), views.Nodup ∧ (∀ w c, (w, c) ∈ views ↔ Rule.Collapses d w c) ∧
      (((a.selecting s).reportOn (.resource d)).findings.filter
          (·.ruleId = Rule.webViewInsideScrollView.id)).Perm
        (views.map fun v => Rule.containerFinding s d v.2)) ∧
    (Rule.OncePerContainer s d (((a.selecting s).reportOn (.resource d)).findings.filter
        (·.ruleId = Rule.webViewInsideScrollView.id)) ↔ Rule.SoleViews d) ∧
    (((Reference.nodes (.resource d)).map Node.location).Nodup →
      (((a.selecting s).reportOn (.resource d)).findings.Nodup ↔ Rule.SoleViews d)) := by
  obtain ⟨views, nodup, mem, perm⟩ := exists_views_of_report a active layout
  exact ⟨⟨views, nodup, mem, perm⟩, Rule.oncePerContainer_iff nodup mem perm,
    nodup_findings_iff a active layout⟩

/-- A scroll container with some web views in it, each on a line of its own. -/
def scrolledViews (n : Nat) : Document :=
  let path : FilePath := ⟨"res/layout/a.xml"⟩
  let view (i : Nat) : Element :=
    { tag := "WebView"
      attributes := []
      parent := some 0
      children := []
      location := ⟨path, i + 2, 3, 13 * i + 15, 13 * i + 25⟩ }
  let container : Element :=
    { tag := "ScrollView"
      attributes := []
      parent := none
      children := (List.range n).map (· + 1)
      location := ⟨path, 1, 1, 0, 12⟩ }
  ⟨path, (container :: (List.range n).map view).toArray⟩

/-- Such a document is read from a text with one line for each view. -/
theorem read_scrolledViews :
    Markup.read ⟨"res/layout/a.xml"⟩ "<ScrollView>\n  <WebView/>\n</ScrollView>\n" =
        .ok (scrolledViews 1) ∧
      Markup.read ⟨"res/layout/a.xml"⟩
          "<ScrollView>\n  <WebView/>\n  <WebView/>\n</ScrollView>\n" =
        .ok (scrolledViews 2) :=
  ⟨eq_ok_of_toOption_eq_some (by decide +kernel), eq_ok_of_toOption_eq_some (by decide +kernel)⟩

theorem liesIn_scrolledViews (n : Nat) : Resource.LiesIn (scrolledViews n).path "layout" [] := by
  have cut : Text.splitAll '-' (Resource.folderName ⟨"res/layout/a.xml"⟩) = ["layout"] := by
    decide +kernel
  exact Resource.liesIn_iff.mpr cut

theorem webViews_reported_oneView :
    Markup.read ⟨"res/layout/a.xml"⟩ "<ScrollView>\n  <WebView/>\n</ScrollView>\n" =
        .ok (scrolledViews 1) ∧
      Reference.IsActive .none Rule.webViewInsideScrollView ∧
      Resource.LiesIn (scrolledViews 1).path "layout" [] ∧
      ((Reference.nodes (.resource (scrolledViews 1))).map Node.location).Nodup ∧
      Rule.OncePerContainer .none (scrolledViews 1)
        (((aloneAnalysis.selecting .none).reportOn (.resource (scrolledViews 1))).findings.filter
          (·.ruleId = Rule.webViewInsideScrollView.id)) ∧
      ((aloneAnalysis.selecting .none).reportOn (.resource (scrolledViews 1))).findings.Nodup := by
  have active : Reference.IsActive .none Rule.webViewInsideScrollView := by decide
  have apart : ((Reference.nodes (.resource (scrolledViews 1))).map Node.location).Nodup := by
    decide +kernel
  have second : ∀ c w, Rule.Collapses (scrolledViews 1) w c → w = 1 := by
    intro c w collapses
    obtain ⟨e, found, view⟩ := collapses.view
    match w with
    | 0 =>
        obtain rfl := Option.some.inj found
        exact absurd view (by decide)
    | 1 => rfl
    | _ + 2 => cases found
  have sole : Rule.SoleViews (scrolledViews 1) := fun c w w' first first' =>
    (second c w first).trans (second c w' first').symm
  obtain ⟨-, once, distinct⟩ := webViews_reported aloneAnalysis .none (scrolledViews 1) [] active
    (liesIn_scrolledViews 1)
  exact ⟨read_scrolledViews.1, active, liesIn_scrolledViews 1, apart, once.mpr sole,
    (distinct apart).mpr sole⟩

/-- A container with two web views is reported twice. -/
theorem scrolledViews_reported_twice :
    ∃ d, Markup.read ⟨"res/layout/a.xml"⟩
          "<ScrollView>\n  <WebView/>\n  <WebView/>\n</ScrollView>\n" = .ok d ∧
      ¬ Rule.OncePerContainer .none d
        (((aloneAnalysis.selecting .none).reportOn (.resource d)).findings.filter
          (·.ruleId = Rule.webViewInsideScrollView.id)) ∧
      ¬ ((aloneAnalysis.selecting .none).reportOn (.resource d)).findings.Nodup := by
  have active : Reference.IsActive .none Rule.webViewInsideScrollView := by decide
  have apart : ((Reference.nodes (.resource (scrolledViews 2))).map Node.location).Nodup := by
    decide +kernel
  have collapses : ∀ w, w = 1 ∨ w = 2 → Rule.Collapses (scrolledViews 2) w 0 := by
    rintro w (rfl | rfl)
    all_goals exact
      { view := ⟨_, rfl, rfl⟩
        nearest := .around rfl (by decide) rfl (by decide) (.here rfl (by decide))
        short := by rintro e ⟨⟩ a ⟨⟩
        heard := by decide +kernel }
  have crowded : ¬ Rule.SoleViews (scrolledViews 2) := fun sole =>
    absurd (sole 0 1 2 (collapses 1 (.inl rfl)) (collapses 2 (.inr rfl))) (by decide)
  obtain ⟨views, nodup, mem, perm⟩ :=
    exists_views_of_report aloneAnalysis active (liesIn_scrolledViews 2)
  have layout := liesIn_scrolledViews 2
  exact ⟨scrolledViews 2, read_scrolledViews.2,
    fun once => crowded ((Rule.oncePerContainer_iff nodup mem perm).mp once),
    fun distinct => crowded ((nodup_findings_iff aloneAnalysis active layout apart).mp distinct)⟩

end AndroidLint
