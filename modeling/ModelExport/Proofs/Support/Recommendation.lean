import Mathlib
import ModelExport.Proofs.Support.Check

/-!
# Proofs/Support/Recommendation — the recommended version is the least sufficient one

The recommendation is a maximum of what the check advises for the operators of a graph and for each
expansion of a composite among them.  Every one of these numbers is the least version for its own list
of types, and support grows with the version, so the maximum is the least version for all of them
together (`recommend_isLeast`).
-/

namespace ModelExport

open List
open EStateM (run)

/-- The least number with two properties that pass on to greater numbers. -/
theorem isLeast_max {A B : Int → Prop} {a b : Int} (ha : IsLeast {w | A w} a)
    (hb : IsLeast {w | B w} b) (hA : ∀ {u w}, A u → u ≤ w → A w) (hB : ∀ {u w}, B u → u ≤ w → B w) :
    IsLeast {w | A w ∧ B w} (max a b) :=
  ⟨⟨hA ha.1 (Int.le_max_left a b), hB hb.1 (Int.le_max_right a b)⟩,
    fun _ hw => Int.max_le.2 ⟨ha.2 hw.1, hb.2 hw.2⟩⟩

namespace Registry

variable (r : Registry) (parts : OpNode → List String)

/-- **The lists of types that a graph is checked for**: its own, and those of its expansions. -/
def checked (nodes : List OpNode) : List (List String) :=
  nodes.map OpNode.type :: (nodes.filter fun op => r.isComposite op.type).map parts

/-- Every type of a graph and of its expansions is composite or registered. -/
def KnowsAll (nodes : List OpNode) : Prop := ∀ ts ∈ r.checked parts nodes, ∀ t ∈ ts, r.Knows t

/-- The greatest of the versions that are advised for expansions, and one known before. -/
def raised (v : Int) (best : Int) (nodes : List OpNode) : Int :=
  (nodes.filter fun op => r.isComposite op.type).foldl
    (fun best op => max best (r.advised (parts op) v)) best

variable {r parts} {nodes : List OpNode}

theorem raised_cons_of_composite {op : OpNode} (h : r.isComposite op.type = true) (v best : Int) :
    r.raised parts v best (op :: nodes) = r.raised parts v (max best (r.advised (parts op) v)) nodes := by
  rw [raised, filter_cons_of_pos (by simpa using h)]
  rfl

theorem raised_cons_of_not_composite {op : OpNode} (h : r.isComposite op.type = false)
    (v best : Int) : r.raised parts v best (op :: nodes) = r.raised parts v best nodes := by
  rw [raised, filter_cons_of_neg (by simp [h])]
  rfl

/-- **Raising the version for expansions** keeps it the least one. -/
theorem isLeast_raised {A : Int → Prop} {v best : Int} (hA : ∀ {u w}, A u → u ≤ w → A w)
    (hbest : IsLeast {w | v ≤ w ∧ A w} best)
    (hparts : ∀ op ∈ nodes, r.isComposite op.type = true →
      ∀ t ∈ parts op, r.WellNumbered t ∧ r.Knows t) :
    IsLeast {w | v ≤ w ∧ A w ∧ ∀ op ∈ nodes, r.isComposite op.type = true →
      ∀ t ∈ parts op, r.Supports w t} (r.raised parts v best nodes) := by
  induction nodes generalizing best A with
  | nil => simpa [raised] using hbest
  | cons op nodes ih =>
    obtain ⟨hop, hnodes⟩ := forall_mem_cons.1 hparts
    cases hcomposite : r.isComposite op.type with
    | false =>
      rw [raised_cons_of_not_composite hcomposite]
      simpa [hcomposite] using ih hA hbest hnodes
    | true =>
      rw [raised_cons_of_composite hcomposite]
      have hadvised := isLeast_advised (fun t ht => (hop hcomposite t ht).1)
        (fun t ht => (hop hcomposite t ht).2) v
      have hmax := isLeast_max hbest hadvised
        (fun h huw => ⟨Int.le_trans h.1 huw, hA h.2 huw⟩)
        fun h huw => ⟨Int.le_trans h.1 huw, fun t ht => (h.2 t ht).mono huw⟩
      have hstep : IsLeast {w | v ≤ w ∧ A w ∧ ∀ t ∈ parts op, r.Supports w t}
          (max best (r.advised (parts op) v)) := by
        convert hmax using 2
        funext w
        exact propext ⟨fun h => ⟨⟨h.1, h.2.1⟩, h.1, h.2.2⟩, fun h => ⟨h.1.1, h.1.2, h.2.2⟩⟩
      have hboth := ih (fun h huw => ⟨hA h.1 huw, fun t ht => (h.2 t ht).mono huw⟩) hstep hnodes
      convert hboth using 2
      funext w
      simp only [forall_mem_cons, hcomposite, forall_const, and_assoc]

end Registry

namespace Emit

/-- **Composites that expand alike everywhere**: whatever the draft, into operators of the types that
`parts` says. -/
def ExpandsTo (r : Registry) (nodes : List OpNode) (parts : OpNode → List String) : Prop :=
  ∀ op ∈ nodes, ∀ c, r.composite? (.str op.type) = some c →
    ∀ d, ∃ g d', run (expand c op) d = .ok g d' ∧ g.types = parts op

/-- A fragment expands as its graph does in every scope. -/
theorem expand_fragment {f : Fragment} {op : OpNode} {stand : List Variable} {types : List String}
    (hstand : standIns op = .ok stand)
    (hgraph : ∀ scope, (f.graph op stand scope).toOption.map SourceGraph.types = some types)
    (d : Draft) : ∃ g d', run (expand (.fragment f) op) d = .ok g d' ∧ g.types = types := by
  let k := (Assoc.get? d.expansions op.type).getD 0
  cases hrun : f.graph op stand (scopeName op.type k) with
  | error s => simpa [hrun, Except.toOption] using hgraph (scopeName op.type k)
  | ok g =>
    refine ⟨g, { d with expansions := Assoc.insert d.expansions op.type (k + 1) }, ?_, ?_⟩
    · have hlift : run (expand (.fragment f) op) d =
          run (liftM (f.graph op stand (scopeName op.type k)) : Emit SourceGraph)
            { d with expansions := Assoc.insert d.expansions op.type (k + 1) } := by
        rw [expand, hstand]
        rfl
      rw [hlift, hrun]
      rfl
    · simpa [hrun, Except.toOption] using hgraph (scopeName op.type k)

variable {r : Registry} {nodes : List OpNode} {parts : OpNode → List String}

theorem expandsTo_cons {op : OpNode} (h : ExpandsTo r (op :: nodes) parts) :
    ExpandsTo r nodes parts :=
  fun o ho => h o (mem_cons_of_mem _ ho)

theorem run_recommendNested_cons {op : OpNode} (h : ExpandsTo r (op :: nodes) parts) (v best : Int)
    (d : Draft) :
    (r.isComposite op.type = false ∧ run (recommendNested r v (op :: nodes) best) d =
      run (recommendNested r v nodes best) d) ∨
    (r.isComposite op.type = true ∧ ∃ d', run (recommendNested r v (op :: nodes) best) d =
      run (do
        let needed ← checkSupport r (parts op) v true
        recommendNested r v nodes (max best needed)) d') := by
  cases hc : r.composite? (.str op.type) with
  | none =>
    refine Or.inl ⟨by simp [Registry.isComposite, hc], ?_⟩
    rw [recommendNested, hc]
  | some c =>
    obtain ⟨g, d', hrun, hg⟩ := h op mem_cons_self c hc d
    refine Or.inr ⟨by simp [Registry.isComposite, hc], d', ?_⟩
    rw [recommendNested, hc, ← hg]
    simp only [EStateM.run_bind, hrun]

theorem recommendNested_ok (h : ExpandsTo r nodes parts)
    (hknows : ∀ op ∈ nodes, r.isComposite op.type = true → ∀ t ∈ parts op, r.Knows t) (v best : Int)
    (d : Draft) : ∃ d', run (recommendNested r v nodes best) d =
      .ok (r.raised parts v best nodes) d' := by
  induction nodes generalizing best d with
  | nil => exact ⟨d, rfl⟩
  | cons op nodes ih =>
    obtain ⟨hop, hnodes⟩ := forall_mem_cons.1 hknows
    rcases run_recommendNested_cons h v best d with ⟨hcomposite, hrun⟩ | ⟨hcomposite, d₁, hrun⟩
    · rw [hrun, Registry.raised_cons_of_not_composite hcomposite]
      exact ih (expandsTo_cons h) hnodes best d
    · obtain ⟨d₂, hcheck⟩ := checkSupport_advise (hop hcomposite) v d₁
      rw [hrun, Registry.raised_cons_of_composite hcomposite, EStateM.run_bind, hcheck]
      exact ih (expandsTo_cons h) hnodes _ d₂

theorem recommendNested_refuses (h : ExpandsTo r nodes parts) {op : OpNode} (hop : op ∈ nodes)
    (hcomposite : r.isComposite op.type = true) {t : String} (ht : t ∈ parts op) (hno : ¬ r.Knows t)
    (v best : Int) (d : Draft) : ∃ types d', run (recommendNested r v nodes best) d =
      .error (.refusal (.unregistered types)) d' := by
  induction nodes generalizing best d with
  | nil => exact absurd hop not_mem_nil
  | cons o nodes ih =>
    have hlater : o ≠ op → ∀ best d, ∃ types d', run (recommendNested r v nodes best) d =
        .error (.refusal (.unregistered types)) d' :=
      fun hne => ih (expandsTo_cons h) ((mem_cons.1 hop).resolve_left fun e => hne e.symm)
    rcases run_recommendNested_cons h v best d with ⟨hplain, hrun⟩ | ⟨-, d₁, hrun⟩
    · rw [hrun]
      exact hlater (fun e => by simp [← e, hplain] at hcomposite) best d
    · rw [hrun, EStateM.run_bind]
      by_cases hknows : ∀ t ∈ parts o, r.Knows t
      · obtain ⟨d₂, hcheck⟩ := checkSupport_advise hknows v d₁
        rw [hcheck]
        exact hlater (fun e => hno (hknows t (e ▸ ht))) _ d₂
      · rw [run_checkSupport_of_unknown hknows]
        exact ⟨_, _, rfl⟩

/-! ## The whole recommendation -/

theorem recommend_ok (h : ExpandsTo r nodes parts) (hknows : r.KnowsAll parts nodes) (v : Int)
    (d : Draft) : ∃ d', run (recommend r nodes v) d =
      .ok (r.raised parts v (r.advised (nodes.map OpNode.type) v) nodes) d' := by
  obtain ⟨hown, hparts⟩ := forall_mem_cons.1 hknows
  have hexpansions : ∀ op ∈ nodes, r.isComposite op.type = true → ∀ t ∈ parts op, r.Knows t :=
    fun op hop hc => hparts _ (mem_map_of_mem (mem_filter.2 ⟨hop, hc⟩))
  obtain ⟨d₁, hcheck⟩ := checkSupport_advise hown v d
  obtain ⟨d₂, hnested⟩ := recommendNested_ok h hexpansions v (r.advised (nodes.map OpNode.type) v) d₁
  simp only [recommend, EStateM.run_bind, hcheck, hnested]
  split
  · exact ⟨_, rfl⟩
  · exact ⟨_, rfl⟩

theorem recommend_refuses (h : ExpandsTo r nodes parts) (hno : ¬ r.KnowsAll parts nodes) (v : Int)
    (d : Draft) : ∃ types d', run (recommend r nodes v) d =
      .error (.refusal (.unregistered types)) d' := by
  by_cases hown : ∀ t ∈ nodes.map OpNode.type, r.Knows t
  · obtain ⟨ts, hts, t, ht, hunknown⟩ : ∃ ts ∈ r.checked parts nodes, ∃ t ∈ ts, ¬ r.Knows t := by
      simpa [Registry.KnowsAll] using hno
    rcases mem_cons.1 hts with rfl | hts
    · exact absurd (hown t ht) hunknown
    · obtain ⟨op, hop, rfl⟩ := mem_map.1 hts
      obtain ⟨hop, hcomposite⟩ := mem_filter.1 hop
      obtain ⟨d₁, hcheck⟩ := checkSupport_advise hown v d
      obtain ⟨types, d₂, hnested⟩ := recommendNested_refuses h hop (by simpa using hcomposite) ht
        hunknown v (r.advised (nodes.map OpNode.type) v) d₁
      exact ⟨types, d₂, by simp only [recommend, EStateM.run_bind, hcheck, hnested]⟩
  · refine ⟨r.unregistered (nodes.map OpNode.type), d, ?_⟩
    simp only [recommend, EStateM.run_bind, run_checkSupport_of_unknown hown]

/-- The recommended version supports every type, and no lower one from `v` on does. -/
theorem isLeast_recommended (hknows : r.KnowsAll parts nodes)
    (hnumbers : ∀ ts ∈ r.checked parts nodes, ∀ t ∈ ts, r.WellNumbered t) (v : Int) :
    IsLeast {w | v ≤ w ∧ ∀ ts ∈ r.checked parts nodes, ∀ t ∈ ts, r.Supports w t}
      (r.raised parts v (r.advised (nodes.map OpNode.type) v) nodes) := by
  obtain ⟨hown, hparts⟩ := forall_mem_cons.1 hknows
  obtain ⟨hownNumbers, hpartNumbers⟩ := forall_mem_cons.1 hnumbers
  have hmem : ∀ op ∈ nodes, r.isComposite op.type = true →
      parts op ∈ (nodes.filter fun op => r.isComposite op.type).map parts :=
    fun op hop hc => mem_map_of_mem (mem_filter.2 ⟨hop, hc⟩)
  have hleast := Registry.isLeast_raised (fun h huw => fun t ht => Registry.Supports.mono (h t ht) huw)
    (Registry.isLeast_advised hownNumbers hown v)
    fun op hop hc t ht => ⟨hpartNumbers _ (hmem op hop hc) t ht, hparts _ (hmem op hop hc) t ht⟩
  convert hleast using 2
  funext w
  refine propext (and_congr_right fun _ => ?_)
  simp only [Registry.checked, forall_mem_cons, forall_mem_map, mem_filter, and_imp]

end Emit

open Emit

/-- **The recommended version is the least sufficient one.**  When every type of a graph and of its
expansions is composite or registered, the recommendation succeeds, with the least version from the
requested one on at which the check passes for all of them; otherwise, and only then, it is refused.
So it grows with the request, and recommends again what it has recommended. -/
theorem recommend_isLeast (r : Registry) (nodes : List OpNode) (parts : OpNode → List String)
    (hexpands : ExpandsTo r nodes parts)
    (hnumbers : ∀ ts ∈ r.checked parts nodes, ∀ t ∈ ts, r.WellNumbered t) :
    (∀ v d, r.KnowsAll parts nodes → ∃ w d', EStateM.run (recommend r nodes v) d = .ok w d' ∧
      IsLeast {w | v ≤ w ∧
        ∀ ts ∈ r.checked parts nodes, ∀ e, Succeeds (checkSupport r ts w false) e} w) ∧
    (∀ v d, (∃ f d', EStateM.run (recommend r nodes v) d = .error f d' ∧
        f.label = "NotImplementedError") ↔ ∃ ts ∈ r.checked parts nodes, ∃ t ∈ ts, ¬ r.Knows t) ∧
    (∀ v v' w w' d d' e e', v ≤ v' → EStateM.run (recommend r nodes v) d = .ok w d' →
      EStateM.run (recommend r nodes v') e = .ok w' e' → w ≤ w') ∧
    ∀ v w d d', EStateM.run (recommend r nodes v) d = .ok w d' →
      ∀ e, ∃ e', EStateM.run (recommend r nodes w) e = .ok w e' := by
  have hunknown : (¬ r.KnowsAll parts nodes) ↔ ∃ ts ∈ r.checked parts nodes, ∃ t ∈ ts, ¬ r.Knows t := by
    simp [Registry.KnowsAll]
  -- what a run that succeeds gives back
  have hvalue : ∀ {v w d d'}, EStateM.run (recommend r nodes v) d = .ok w d' →
      r.KnowsAll parts nodes ∧ w = r.raised parts v (r.advised (nodes.map OpNode.type) v) nodes := by
    intro v w d d' hrun
    by_cases hknows : r.KnowsAll parts nodes
    · obtain ⟨d₁, hok⟩ := recommend_ok hexpands hknows v d
      exact ⟨hknows, (EStateM.Result.ok.inj (hrun.symm.trans hok)).1⟩
    · obtain ⟨types, d₁, herror⟩ := recommend_refuses hexpands hknows v d
      exact absurd (hrun.symm.trans herror) (by simp)
  have hleast : ∀ (_ : r.KnowsAll parts nodes) v, _ :=
    fun hknows v => isLeast_recommended hknows hnumbers v
  refine ⟨fun v d hknows => ?_, fun v d => ?_, ?_, ?_⟩
  · obtain ⟨d', hrun⟩ := recommend_ok hexpands hknows v d
    refine ⟨_, d', hrun, ?_⟩
    convert hleast hknows v using 2
    funext w
    refine propext (and_congr_right fun _ => forall₂_congr fun ts hts => ?_)
    exact ⟨fun h => (succeeds_checkSupport_iff (hnumbers ts hts)).1 (h d),
      fun h e => (succeeds_checkSupport_iff (hnumbers ts hts)).2 h⟩
  · rw [← hunknown]
    constructor
    · rintro ⟨f, d', hrun, -⟩ hknows
      obtain ⟨d₁, hok⟩ := recommend_ok hexpands hknows v d
      exact absurd (hrun.symm.trans hok) (by simp)
    · intro hno
      obtain ⟨types, d', hrun⟩ := recommend_refuses hexpands hno v d
      exact ⟨_, d', hrun, rfl⟩
  · intro v v' w w' d d' e e' hvv' hrun hrun'
    obtain ⟨hknows, rfl⟩ := hvalue hrun
    obtain ⟨-, rfl⟩ := hvalue hrun'
    obtain ⟨hle, hall⟩ := (hleast hknows v').1
    exact (hleast hknows v).2 ⟨Int.le_trans hvv' hle, hall⟩
  · intro v w d d' hrun e
    obtain ⟨hknows, rfl⟩ := hvalue hrun
    obtain ⟨e', hagain⟩ := recommend_ok hexpands hknows
      (r.raised parts v (r.advised (nodes.map OpNode.type) v) nodes) e
    obtain ⟨-, hall⟩ := (hleast hknows v).1
    have hleastAgain := hleast hknows (r.raised parts v (r.advised (nodes.map OpNode.type) v) nodes)
    have hsame := Int.le_antisymm (hleastAgain.2 ⟨Int.le_refl _, hall⟩) hleastAgain.1.1
    exact ⟨e', hagain.trans (by rw [hsame])⟩

def OpNode.bare (type : String) : OpNode :=
  { name := type ++ "_0", type, inputs := [], outputs := [], attrs := [], block := none }

/-- One rule from version 7 on, one from version 11 on, and a composite of the latter. -/
def Registry.layered : Registry where
  rules := [(.str "early", [(7, fun _ => pure ())]), (.str "late", [(11, fun _ => pure ())])]
  composites :=
    [(.str "stack", .fragment { vars := [], ops := [⟨"late", [], [], []⟩], results := [] })]

theorem Registry.expandsTo_layered :
    ExpandsTo .layered [.bare "early", .bare "stack"] fun _ => ["late"] := by
  intro op hop c hc d
  rcases mem_pair.1 hop with rfl | rfl
  · exact absurd hc (by rintro ⟨⟩)
  · obtain rfl := Option.some.inj hc
    have hstand : standIns (.bare "stack") = .ok [] := rfl
    refine expand_fragment hstand (fun scope => ?_) d
    cbv

theorem recommend_isLeast_layered :
    ∃ w d', EStateM.run (recommend .layered [.bare "early", .bare "stack"] 9) { opset := 9 } =
      .ok w d' ∧ IsLeast {w | 9 ≤ w ∧ ∀ ts ∈ [["early", "stack"], ["late"]],
        ∀ e, Succeeds (checkSupport .layered ts w false) e} w := by
  have hnumbers : ∀ ts ∈ [["early", "stack"], ["late"]], ∀ t ∈ ts, Registry.layered.WellNumbered t := by
    decide +kernel
  have hknows : ∀ ts ∈ [["early", "stack"], ["late"]], ∀ t ∈ ts, Registry.layered.Knows t := by
    decide +kernel
  exact (recommend_isLeast .layered [.bare "early", .bare "stack"] (fun _ => ["late"])
    Registry.expandsTo_layered hnumbers).1 9 { opset := 9 } hknows

/-- One type with rules under the versions `-1` and `12`. -/
def Registry.belowZero : Registry :=
  let r : Registry := { rules := [], composites := [] }
  (r.put (.str "probe") (-1) fun _ => pure ()).put (.str "probe") 12 fun _ => pure ()

/-- **A version `-1` is taken for no version**, and then recommended for being the first one. -/
theorem recommend_belowZero :
    ExpandsTo .belowZero [.bare "probe"] (fun _ => []) ∧
    Registry.belowZero.KnowsAll (fun _ => []) [.bare "probe"] ∧
    ∃ w d', EStateM.run (recommend .belowZero [.bare "probe"] 9) { opset := 9 } = .ok w d' ∧
      ¬ IsLeast {w | 9 ≤ w ∧ ∀ ts ∈ Registry.belowZero.checked (fun _ => []) [.bare "probe"],
        ∀ e, Succeeds (checkSupport .belowZero ts w false) e} w := by
  have hexpands : ExpandsTo .belowZero [.bare "probe"] fun _ => [] :=
    fun op _ c hc => absurd hc (by rintro ⟨⟩)
  have hknows : ∀ ts ∈ [["probe"]], ∀ t ∈ ts, Registry.belowZero.Knows t := by decide +kernel
  refine ⟨hexpands, hknows, ?_⟩
  obtain ⟨d', hrun⟩ := recommend_ok hexpands hknows 9 { opset := 9 }
  refine ⟨_, d', hrun, fun hleast => ?_⟩
  have hbelow : Registry.belowZero.raised (fun _ => []) 9
      (Registry.belowZero.advised ["probe"] 9) [.bare "probe"] = -1 := by cbv
  exact absurd (hbelow ▸ hleast.1.1) (by decide)

end ModelExport
