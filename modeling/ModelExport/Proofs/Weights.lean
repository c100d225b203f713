import ModelExport.Proofs.Emission.Composites
import ModelExport.Proofs.Repetition.Settled
import ModelExport.Proofs.RowMajor
import ModelExport.Proofs.SingleAssignment

/-!
# Proofs/Weights — where the weights of a model come from

    variables ──holders left out──▸ weights ──given values──▸ weights ──▸ model

A weight is made for every persistable variable whose name does not end like that of a holder
(`get?_weightsOf`).  Mapping makes and replaces weights only where an operator assigns given values
(`WeightsBy`, `weightsBy_mapUpTo`); everything else leaves them.  So a variable keeps its weight unless
it looks like a holder or is assigned (`weights_of_convert`).
-/

namespace ModelExport

open Emit List Rules

variable {d d' : Draft} {r : Registry} {g : SourceGraph} {x : String} {ws : List (String × Weight)}
  {op : OpNode}

/-! ## Weights -/

/-- **The constant that a weight becomes.** -/
def weightNode (x : String) (type dims : Value) (elements : List Value) : ModelNode where
  op := "Constant"
  inputs := []
  outputs := [.str x]
  name := .none
  domain := .none
  attrs := [("value", .tensor { name := x, type, dims, vals := .list elements })]

/-- **A weight that stores a variable**: its element type, its shape, and its elements in row-major
order. -/
def Variable.StoredAs (v : Variable) (n : ModelNode) : Prop :=
  ∃ type elements, ElementType.convert (.int v.dtype) = .ok type ∧ v.Holds elements ∧
    n = weightNode v.name type (.tuple (v.shape.map .int)) elements

theorem keepWeight_ok {dtype dims : Value} {elements : List Value} {u : Unit}
    (h : EStateM.run (keepWeight (.str x) dtype dims elements) d = .ok u d') :
    ∃ type, ElementType.convert dtype = .ok type ∧
      d' = { d with weights := Assoc.insert d.weights x (weightNode x type dims elements) } := by
  obtain ⟨type, htype, h₁⟩ := computed_ok h
  exact ⟨type, htype, modify_ok h₁⟩

theorem get?_addWeights {u : Unit} (hws : (Assoc.keys ws).Nodup) (h : EStateM.run (addWeights ws) d = .ok u d')
    (x : String) :
    (Assoc.get? ws x = none → Assoc.get? d'.weights x = Assoc.get? d.weights x) ∧
    ∀ w, Assoc.get? ws x = some w → ∃ type, ElementType.convert (.int w.dtype) = .ok type ∧
      Assoc.get? d'.weights x = some (weightNode x type (.tuple (w.shape.map .int)) w.elements) := by
  induction ws generalizing d with
  | nil =>
    obtain ⟨-, rfl⟩ := pure_ok h
    exact ⟨fun _ => rfl, fun w hw => by cases hw⟩
  | cons e ws ih =>
    obtain ⟨hnew, hws⟩ := nodup_cons.1 hws
    obtain ⟨_, d₁, hkeep, hrest⟩ := bind_ok h
    obtain ⟨type, htype, rfl⟩ := keepWeight_ok hkeep
    obtain ⟨hother, hown⟩ := ih hws hrest
    rw [Assoc.get?_cons]
    by_cases hx : e.1 = x
    · subst hx
      have hnone := Assoc.get?_eq_none_of_notMem hnew
      rw [if_pos rfl]
      refine ⟨(nomatch ·), fun w hw => ?_⟩
      obtain rfl := Option.some.inj hw
      exact ⟨type, htype, by rw [hother hnone, Assoc.get?_insert, if_pos rfl]⟩
    · rw [if_neg hx]
      refine ⟨fun hnone => ?_, hown⟩
      rw [hother hnone, Assoc.get?_insert, if_neg (Ne.symm hx)]

theorem sublist_keys_weightsOf {vs : List Variable} (h : SourceGraph.weightsOf vs = .ok ws) :
    List.Sublist (Assoc.keys ws) (vs.map Variable.name) := by
  rw [Assoc.keys, SourceGraph.keys_weightsOf h]
  exact filter_sublist.map _

/-- **Which variables have weights**: persistable ones whose names do not end like those of holders. -/
theorem get?_weightsOf {vs : List Variable} (hvs : (vs.map Variable.name).Nodup)
    (h : SourceGraph.weightsOf vs = .ok ws) :
    ∀ v ∈ vs, v.persistable = true →
      (SourceGraph.isHolderName v.name = true → Assoc.get? ws v.name = none) ∧
      (SourceGraph.isHolderName v.name = false →
        ∃ w, v.weight = .ok w ∧ Assoc.get? ws v.name = some w) := by
  induction vs generalizing ws with
  | nil => exact fun v hv => absurd hv not_mem_nil
  | cons u vs ih =>
    obtain ⟨hnew, hvs⟩ := nodup_cons.1 hvs
    unfold SourceGraph.weightsOf at h
    split at h
    · rename_i hskip
      refine forall_mem_cons.2 ⟨fun hpersistable => ⟨fun _ => ?_, fun hno => ?_⟩, ih hvs h⟩
      · exact Assoc.get?_eq_none_of_notMem fun hmem => hnew ((sublist_keys_weightsOf h).subset hmem)
      · simp [hpersistable, hno] at hskip
    · rename_i htake
      obtain ⟨w, hw, h₁⟩ := except_bind_ok h
      obtain ⟨rest, hrest, h₂⟩ := except_bind_ok h₁
      obtain rfl := Except.ok.inj h₂
      have hholder : SourceGraph.isHolderName u.name = false := by
        simp only [Bool.or_eq_true, not_or, Bool.not_eq_true] at htake
        exact htake.1
      refine forall_mem_cons.2 ⟨fun _ => ⟨fun hyes => ?_, fun _ => ⟨w, hw, ?_⟩⟩, fun v hv => ?_⟩
      · rw [hholder] at hyes
        cases hyes
      · rw [Assoc.get?_cons, if_pos rfl]
      · have hne : u.name ≠ v.name := fun heq => hnew (heq ▸ mem_map_of_mem hv)
        rw [Assoc.get?_cons, if_neg hne]
        exact ih hvs hrest v hv

/-- **The one node of a list that writes a tensor.** -/
def OnlyWriter (ns : List ModelNode) (x : String) (n : ModelNode) : Prop :=
  ∃ front back, ns = front ++ n :: back ∧ .str x ∈ n.outputs ∧ ∀ m ∈ front ++ back, .str x ∉ m.outputs

theorem onlyWriter_of_get? {t : List (String × ModelNode)} (hkeys : (Assoc.keys t).Nodup)
    (hwrites : ∀ e ∈ t, e.2.outputs = [.str e.1]) {n : ModelNode} (h : Assoc.get? t x = some n) :
    OnlyWriter (t.map Prod.snd) x n := by
  obtain ⟨e, he, rfl⟩ := Option.map_eq_some_iff.1 h
  have hx : e.1 = x := by simpa using find?_some he
  obtain ⟨front, back, rfl⟩ := append_of_mem (mem_of_find?_eq_some he)
  have hother : ∀ m ∈ front ++ back, m.1 ≠ x := by
    rw [Assoc.keys, map_append, map_cons, nodup_middle, ← map_append] at hkeys
    exact fun m hm heq => (nodup_cons.1 hkeys).1 (hx.trans heq.symm ▸ mem_map_of_mem hm)
  refine ⟨front.map Prod.snd, back.map Prod.snd, by rw [map_append, map_cons], ?_, ?_⟩
  · rw [hwrites e (by simp), hx]
    exact mem_singleton_self _
  · rw [← map_append]
    refine forall_mem_map.2 fun m hm hmem => ?_
    rw [hwrites m (by simp at hm ⊢; tauto), mem_singleton, Value.str.injEq] at hmem
    exact hother m hm hmem.symm

theorem not_writes_of_get? {t : List (String × ModelNode)} (hwrites : ∀ e ∈ t, e.2.outputs = [.str e.1])
    (h : Assoc.get? t x = none) : ∀ n ∈ t.map Prod.snd, .str x ∉ n.outputs := by
  refine forall_mem_map.2 fun e he hx => ?_
  rw [hwrites e he, mem_singleton, Value.str.injEq] at hx
  rw [Assoc.get?_eq_none_iff, ← Bool.not_eq_true, Assoc.contains_iff_mem_keys] at h
  exact h (hx ▸ mem_map_of_mem he)

/-! ## Given values -/

/-- The elements that an operator gives: the first of its lists that has any. -/
def OpNode.givenElements (op : OpNode) : Except Slip (List Value) := do
  let singles ← arrayElements (op.attr "fp32_values")
  if singles.isEmpty then
    let narrow ← arrayElements (op.attr "int32_values")
    if narrow.isEmpty then arrayElements (op.attr "int64_values") else .ok narrow
  else .ok singles

/-- **An operator that assigns given values to a tensor.** -/
def OpNode.AssignsTo (op : OpNode) (x : String) : Prop :=
  op.type = assigningType ∧ op.inputs = [] ∧ op.outputAt "Out" 0 = .ok (.str x)

instance (op : OpNode) (x : String) : Decidable (op.AssignsTo x) :=
  decidable_of_iff (op.type = assigningType ∧ op.inputs = [] ∧
      .str x ∈ (op.outputAt "Out" 0).toOption.toList) <| by
    unfold OpNode.AssignsTo
    cases op.outputAt "Out" 0 <;> simp [Except.toOption, eq_comm]

/-- **The weight that an operator assigns.** -/
def OpNode.Assigns (op : OpNode) (x : String) (n : ModelNode) : Prop :=
  op.AssignsTo x ∧ ∃ type elements, ElementType.convert (op.attr "dtype") = .ok type ∧
    op.givenElements = .ok elements ∧ n = weightNode x type (op.attr "shape") elements

theorem keepGiven_ok [op.Plain] (htype : op.type = assigningType) (hbare : op.inputs = [])
    {elements : List Value} (hgiven : op.givenElements = .ok elements) (h : EStateM.run (do
      keepWeight (← op.outputAt "Out" 0) (op.attr "dtype") (op.attr "shape") elements : Emit Unit) d =
        .ok () d') : ∃ x n, op.Assigns x n ∧ d'.weights = Assoc.insert d.weights x n := by
  obtain ⟨v, hv, h₁⟩ := computed_ok h
  obtain ⟨x, rfl, -⟩ := OpNode.Plain.outputAt op hv
  obtain ⟨type, hconvert, rfl⟩ := keepWeight_ok h₁
  exact ⟨x, _, ⟨⟨htype, hbare, hv⟩, type, elements, hconvert, hgiven, rfl⟩, rfl⟩

/-- **Given values become a weight**, unless there is a tensor to pass on. -/
theorem assignValue_ok [op.Plain] (htype : op.type = assigningType)
    (h : EStateM.run (assignValue op) d = .ok () d') :
    (op.inputs ≠ [] ∧ d'.weights = d.weights) ∨
      ∃ x n, op.Assigns x n ∧ d'.weights = Assoc.insert d.weights x n := by
  unfold assignValue at h
  split at h
  · rename_i hinputs
    have hbare : op.inputs = [] := List.isEmpty_iff.1 hinputs
    refine Or.inr ?_
    obtain ⟨singles, hsingles, h₁⟩ := computed_ok h
    dsimp only at h₁
    split at h₁
    · rename_i hempty
      obtain ⟨elements, d₂, hchoice, h₂⟩ := bind_ok h₁
      obtain ⟨narrow, hnarrow, h₃⟩ := computed_ok hchoice
      split at h₃
      · rename_i hnone
        obtain ⟨hwide, rfl⟩ := slip_ok h₃
        refine keepGiven_ok htype hbare ?_ h₂
        simp [OpNode.givenElements, hsingles, hempty, hnarrow, hnone, hwide, bind, Except.bind]
      · rename_i hsome
        obtain ⟨rfl, rfl⟩ := pure_ok h₃
        refine keepGiven_ok htype hbare ?_ h₂
        simp [OpNode.givenElements, hsingles, hempty, hnarrow, hsome, bind, Except.bind]
    · rename_i hsome
      refine keepGiven_ok htype hbare ?_ h₁
      simp [OpNode.givenElements, hsingles, hsome, bind, Except.bind]
  · rename_i hinputs
    refine Or.inl ⟨by simpa using hinputs, ?_⟩
    exact (inferInstance : Emits op.written (do
      discard <| nodeTo "Identity" (op.input "X") (← op.output "Out"))).weights h

/-! ## Weights that change by assignments -/

/-- **Weights that change by assignments only**: a tensor that none of some operators assigns keeps its
weight, and any other has one that an operator assigns. -/
def WeightsBy (C : OpNode → Prop) (d d' : Draft) : Prop :=
  ∀ x, ((∀ op, C op → ¬ op.AssignsTo x) ∧ Assoc.get? d'.weights x = Assoc.get? d.weights x) ∨
    ∃ op n, C op ∧ op.Assigns x n ∧ Assoc.get? d'.weights x = some n

namespace WeightsBy

variable {B C : OpNode → Prop} {d d' d'' : Draft}

theorem of_eq (hC : ∀ op, ¬ C op) (h : d'.weights = d.weights) : WeightsBy C d d' :=
  fun _ => Or.inl ⟨fun op hop => absurd hop (hC op), by rw [h]⟩

theorem congr (h : WeightsBy B d d') (hBC : ∀ op, B op ↔ C op) : WeightsBy C d d' := by
  rwa [show C = B from funext fun op => propext (hBC op).symm]

theorem trans (h₁ : WeightsBy B d d') (h₂ : WeightsBy C d' d'') :
    WeightsBy (fun op => B op ∨ C op) d d'' := by
  intro x
  rcases h₂ x with ⟨hnone, hkept⟩ | ⟨op, n, hop, hassigns, hn⟩
  · rcases h₁ x with ⟨hnone', hkept'⟩ | ⟨op, n, hop, hassigns, hn⟩
    · exact Or.inl ⟨fun op hop => hop.elim (hnone' op) (hnone op), hkept.trans hkept'⟩
    · exact Or.inr ⟨op, n, Or.inl hop, hassigns, hkept.trans hn⟩
  · exact Or.inr ⟨op, n, Or.inr hop, hassigns, hn⟩

/-- Steps before and after that leave the weights alone. -/
theorem between {e e' : Draft} (h : WeightsBy C d d') (hbefore : d.weights = e.weights)
    (hafter : e'.weights = d'.weights) : WeightsBy C e e' := by
  intro x
  rw [hafter, ← hbefore]
  exact h x

/-- **A loop assigns what its steps assign.** -/
theorem forIn {f : OpNode → Emit Unit} {A : OpNode → Draft → OpNode → Prop} {ops : List OpNode}
    (hf : ∀ op ∈ ops, ∀ {d d'}, EStateM.run (f op) d = .ok () d' → WeightsBy (A op d) d d')
    (h : EStateM.run (do for op in ops do f op : Emit Unit) d = .ok () d') :
    WeightsBy (fun o => ∃ b e, ReachedBy f ops d b e ∧ A b e o) d d' := by
  induction ops generalizing d with
  | nil =>
    refine of_eq ?_ (by rw [(pure_ok h).2])
    rintro o ⟨b, e, hreached, -⟩
    cases hreached
  | cons op ops ih =>
    obtain ⟨hop, hops⟩ := forall_mem_cons.1 hf
    simp only [forIn_cons, bind_assoc, pure_bind] at h
    obtain ⟨_, d₁, hstep, hrest⟩ := bind_ok h
    refine ((hop hstep).trans (ih hops hrest)).congr fun o => ⟨?_, ?_⟩
    · rintro (ho | ⟨b, e, hreached, ho⟩)
      · exact ⟨op, d, .here, ho⟩
      · exact ⟨b, e, .later hstep hreached, ho⟩
    · rintro ⟨b, e, hreached, ho⟩
      cases hreached with
      | here => exact Or.inl ho
      | later hstep' hreached =>
        obtain rfl := (EStateM.Result.ok.inj (hstep.symm.trans hstep')).2
        exact Or.inr ⟨b, e, hreached, ho⟩

end WeightsBy

namespace Emit

variable {composites : List (Value × Composite)} {exportType : ExportType} {op : OpNode} {d d' : Draft}

/-- **A rule assigns only what its operator assigns.** -/
theorem weightsBy_applyRule [op.Plain]
    (h : EStateM.run (applyRule (Registry.withComposites composites) op) d = .ok () d') :
    WeightsBy (· = op) d d' := by
  obtain ⟨rule, hfind, hrule⟩ := applyRule_ok h
  have hfind : Registry.standard.ruleFor op.type d.opset = .ok rule := hfind
  by_cases htype : op.type = assigningType
  · obtain rfl := ruleFor_single assignValue rfl (htype ▸ hfind)
    intro x
    rcases assignValue_ok htype hrule with ⟨hreads, hkept⟩ | ⟨y, n, hassigns, hset⟩
    · refine Or.inl ⟨?_, by rw [hkept]⟩
      rintro _ rfl ⟨-, hbare, -⟩
      exact hreads hbare
    · rw [hset, Assoc.get?_insert]
      by_cases hx : x = y
      · exact Or.inr ⟨op, n, rfl, hx ▸ hassigns, if_pos hx⟩
      · refine Or.inl ⟨?_, if_neg hx⟩
        rintro _ rfl ⟨-, -, hname⟩
        exact hx (Value.str.inj (Except.ok.inj (hname.symm.trans hassigns.1.2.2)))
  · refine fun x => Or.inl ⟨?_, by rw [(maps_of_ruleFor hfind).weights htype op rfl hrule]⟩
    rintro _ rfl ⟨hassigning, -⟩
    exact htype hassigning

theorem Calls.eq_of_byRule {depth : Nat} {o : OpNode} {e : Draft} (h : Calls r exportType depth op d o e)
    (hrule : ByRule r exportType op) : o = op := by
  cases h with
  | self => rfl
  | nested hc hexpands => exact absurd hexpands (hrule.not_expands hc)

/-- **What is mapped by a rule when an operator is mapped.** -/
def Applied (r : Registry) (exportType : ExportType) (depth : Nat) (op : OpNode) (d : Draft)
    (o : OpNode) : Prop :=
  ByRule r exportType o ∧ ∃ e, Calls r exportType depth op d o e

theorem weightsBy_of_byRule [op.Plain] (depth : Nat)
    (hrule : ByRule (Registry.withComposites composites) exportType op)
    (h : EStateM.run (applyRule (Registry.withComposites composites) op) d = .ok () d') :
    WeightsBy (Applied (Registry.withComposites composites) exportType depth op d) d d' := by
  refine (weightsBy_applyRule h).congr fun o => ⟨?_, fun ⟨_, e, hcalls⟩ => hcalls.eq_of_byRule hrule⟩
  rintro rfl
  exact ⟨hrule, d, .self⟩

/-- What is applied in an expansion is applied by one of its operators. -/
theorem applied_iff_of_expanded {depth : Nat} {d₁ d₂ : Draft} {c : Composite} {w : Int}
    (hc : r.composite? (.str op.type) = some c) (hexpands : keepsComposites exportType = false)
    (hg : EStateM.run (expand c op) d = .ok g d₁)
    (hcheck : EStateM.run (checkSupport r g.types d₁.opset false) d₁ = .ok w d₂) (o : OpNode) :
    (∃ b e, ReachedBy (mapUpTo r exportType depth) (g.nodes.map Prod.snd) d₂ b e ∧
      Applied r exportType depth b e o) ↔ Applied r exportType (depth + 1) op d o := by
  constructor
  · rintro ⟨b, e, hreached, hrule, e', hcalls⟩
    exact ⟨hrule, e', .nested hc hexpands hg hcheck hreached hcalls⟩
  · rintro ⟨hrule, e, hcalls⟩
    cases hcalls with
    | self => exact absurd hexpands (hrule.not_expands hc)
    | nested hc' _ hg' hcheck' hreached hcalls =>
      obtain rfl := Option.some.inj (hc.symm.trans hc')
      obtain ⟨rfl, rfl⟩ := EStateM.Result.ok.inj (hg.symm.trans hg')
      obtain ⟨rfl, rfl⟩ := EStateM.Result.ok.inj (hcheck.symm.trans hcheck')
      exact ⟨_, _, hreached, hrule, e, hcalls⟩

/-- **Mapping assigns only what some operator assigns**, in the graph or in an expansion. -/
theorem weightsBy_mapUpTo (depth : Nat) [op.Plain]
    (h : EStateM.run (mapUpTo (Registry.withComposites composites) exportType depth op) d = .ok () d') :
    WeightsBy (Applied (Registry.withComposites composites) exportType depth op d) d d' := by
  induction depth generalizing op d d' with
  | zero => cases seenFrom_ok h
  | succ depth ih =>
    rcases mapUpTo_ok h with ⟨hrule, hrun⟩ | ⟨c, g, w, d₁, d₂, hc, hexpands, hg, hcheck, hloop, rfl⟩
    · exact weightsBy_of_byRule _ hrule hrun
    · have hparts : ∀ o ∈ g.nodes.map Prod.snd, o.Plain := forall_mem_map.2 (plain_expand hg)
      have hweights : d₁.weights = d.weights := by
        obtain ⟨expansions, rfl⟩ := expand_frame hg
        rfl
      -- each part starts from the draft that the parts before it leave
      have hloop := WeightsBy.forIn (A := Applied _ exportType depth)
        (fun o ho _ _ hstep => have := hparts o ho; ih hstep) hloop
      exact (hloop.between hweights rfl).congr (applied_iff_of_expanded hc hexpands hg hcheck)

theorem weightsBy_mapNode [op.Plain]
    (h : EStateM.run (mapNode (Registry.withComposites composites) exportType op) d = .ok () d') :
    WeightsBy (Applied (Registry.withComposites composites) exportType
      (depthOf (Registry.withComposites composites)) op d) d d' := by
  obtain ⟨d₁, hrun, hkeep⟩ := mapNode_ok h
  refine (weightsBy_mapUpTo _ hrun).between rfl ?_
  rw [modify_ok hkeep]
  split <;> rfl

/-! ## Graphs -/

/-- **An operator that a rule is applied to while a graph is built**, at any depth. -/
def AppliedIn (r : Registry) (exportType : ExportType) (g : SourceGraph) (d₀ : Draft) (op : OpNode) :
    Prop :=
  ByRule r exportType op ∧ ∃ version e, BuildMaps r exportType g d₀ version op e

/-- **The stages of building a graph.** -/
theorem build_stages (h : EStateM.run (build r exportType g) d = .ok () d') :
    ∃ d₁ d₂ d₃, EStateM.run (chooseVersion r (g.nodes.map Prod.snd)) d = .ok () d₁ ∧
      EStateM.run (addWeights g.weights) d₁ = .ok () d₂ ∧ d₃.weights = d₂.weights ∧
      EStateM.run (do addWeights g.weights; addInputs g.inputs; addOutputs g.outputs) d₁ = .ok () d₃ ∧
      Succeeds (checkSupport r ((g.nodes.map Prod.snd).map OpNode.type) d₃.opset false) d₃ ∧
      EStateM.run (do for op in g.nodes.map Prod.snd do mapNode r exportType op : Emit Unit) d₃ =
        .ok () d' := by
  obtain ⟨_, d₁, hversion, h₁⟩ := bind_ok h
  obtain ⟨_, d₂, hweights, h₂⟩ := bind_ok h₁
  obtain ⟨_, d₃, hinputs, h₃⟩ := bind_ok h₂
  obtain ⟨_, d₄, houtputs, hmapAll⟩ := bind_ok h₃
  have hterminals : d₄.weights = d₂.weights := by
    obtain ⟨ins, rfl, -⟩ := addInputs_ok hinputs
    obtain ⟨outs, rfl, -⟩ := addOutputs_ok houtputs
    rfl
  have hparts : EStateM.run (do addWeights g.weights; addInputs g.inputs; addOutputs g.outputs) d₁ =
      .ok () d₄ := by
    rw [run_bind_of_ok hweights, run_bind_of_ok hinputs, houtputs]
  obtain ⟨⟨w, hcheck⟩, hloop⟩ := checked_ok hmapAll
  exact ⟨d₁, d₂, d₄, hversion, hweights, hterminals, hparts, ⟨w, d₄, hcheck⟩, hloop⟩

/-- **Building a graph** adds its weights, and then only operators assign others. -/
theorem weightsBy_build (hg : ∀ e ∈ g.nodes, e.2.Plain)
    (h : EStateM.run (build (Registry.withComposites composites) exportType g) d = .ok () d') :
    ∃ d₁ d₂, d₁.weights = d.weights ∧ EStateM.run (addWeights g.weights) d₁ = .ok () d₂ ∧
      WeightsBy (AppliedIn (Registry.withComposites composites) exportType g d) d₂ d' := by
  obtain ⟨d₁, d₂, d₃, hversion, hweights, hterminals, hparts, hcheck, hloop⟩ := build_stages h
  have hkept : d₁.weights = d.weights := by
    obtain ⟨opset, notices, expansions, rfl⟩ := chooseVersion_frame hversion
    rfl
  have hloop := WeightsBy.forIn (A := Applied _ exportType _)
    (fun o ho _ _ hstep => have := forall_mem_map.2 hg o ho; weightsBy_mapNode hstep) hloop
  refine ⟨d₁, d₂, hkept, hweights, (hloop.between hterminals rfl).congr fun o => ⟨?_, ?_⟩⟩
  · rintro ⟨b, e, hreached, hrule, e', hcalls⟩
    exact ⟨hrule, _, e', d₁, d₃, hversion, rfl, hparts, hcheck, b, e, hreached, hcalls⟩
  · rintro ⟨hrule, version, e', d₁', d₃', hversion', -, hparts', -, b, e, hreached, hcalls⟩
    obtain rfl := (EStateM.Result.ok.inj (hversion.symm.trans hversion')).2
    obtain rfl := (EStateM.Result.ok.inj (hparts.symm.trans hparts')).2
    exact ⟨b, e, hreached, hrule, e', hcalls⟩

theorem appliedIn_iff_mem (hg : ∀ o ∈ g.nodes.map Prod.snd, ByRule r exportType o)
    (h : EStateM.run (build r exportType g) d = .ok () d') (op : OpNode) :
    AppliedIn r exportType g d op ↔ op ∈ g.nodes.map Prod.snd := by
  constructor
  · rintro ⟨-, _, _, _, _, -, -, -, -, o, _, hreached, hcalls⟩
    rw [hcalls.eq_of_byRule (hg o hreached.mem)]
    exact hreached.mem
  · intro hop
    obtain ⟨d₁, d₂, d₃, hversion, -, -, hparts, hcheck, hloop⟩ := build_stages h
    obtain ⟨e, -, hreached, -⟩ := reachedBy_of_ok hloop hop
    exact ⟨hg op hop, _, e, d₁, d₃, hversion, rfl, hparts, hcheck, op, e, hreached, .self⟩

end Emit

/-- **How the weights of a conversion come about**: those of its graph, and what operators assign. -/
theorem Session.weightsBy_convert (s : Session) {composites : List (Value × Composite)} {c : Conversion}
    {product : Product}
    (h : EStateM.run (convert (Registry.withComposites composites) c) (s.draft c.options.opset) =
      .ok product d) :
    (∀ e ∈ d.weights, e.2.outputs = [.str e.1]) ∧ (Assoc.keys d.weights).Nodup ∧
    product.theModel.nodes = d.weights.map Prod.snd ++ d.nodes.filterMap (fun e => e.2.record) ∧
    ∃ g d₁ d₂, c.graph = .ok g ∧ d₁.weights = [] ∧ EStateM.run (addWeights g.weights) d₁ = .ok () d₂ ∧
      WeightsBy (AppliedIn (Registry.withComposites composites) c.options.exportType g
        (s.draft c.options.opset)) d₂ d := by
  obtain ⟨g, d₁, d₂, hg, hbuild, hrename, hmodel, notices, rfl⟩ := convert_ok h
  obtain ⟨p, weights, inputs, outputs, -, -, rfl⟩ := Conversion.graph_ok hg
  have hplain := (SourceGraph.lists_build p weights inputs outputs).plain
  have htidy := (builtInTurn_of_ok (Draft.tidy_empty _ _ _) hplain hbuild).tidy
  obtain ⟨-, rfl⟩ := renameInPlace_ok htidy.kept hrename
  obtain ⟨e, e', hempty, hadd, hassigned⟩ := weightsBy_build hplain hbuild
  have hnodes := congrArg Model.nodes (EStateM.Result.ok.inj hmodel).1.symm
  exact ⟨htidy.weights, htidy.distinct, hnodes, _, e, e', hg, hempty, hadd, hassigned.between rfl rfl⟩

/-- **What becomes of persistable variables.**  The weights stand before all other nodes of a model.
A variable whose name ends like that of a holder has none, and any other has one that stores it;
unless an operator assigns the variable, when the one weight is what some operator assigns. -/
theorem weights_of_convert (s : Session) (composites : List (Value × Composite)) {c : Conversion}
    {p : Program} (hp : c.program = .program p) (hvars : (p.global.vars.map Variable.name).Nodup)
    {product : Product} {d : Draft}
    (h : EStateM.run (convert (Registry.withComposites composites) c) (s.draft c.options.opset) =
      .ok product d) :
    let weights := d.weights.map Prod.snd
    product.theModel.nodes = weights ++ d.nodes.filterMap (fun e => e.2.record) ∧
    ∃ g, c.graph = .ok g ∧
      let Applied := AppliedIn (Registry.withComposites composites) c.options.exportType g
        (s.draft c.options.opset)
      ∀ v ∈ p.global.vars, v.persistable = true →
        ((∀ op, Applied op → ¬ op.AssignsTo v.name) →
          (SourceGraph.isHolderName v.name = false → ∃ n, OnlyWriter weights v.name n ∧ v.StoredAs n) ∧
          (SourceGraph.isHolderName v.name = true → ∀ n ∈ weights, .str v.name ∉ n.outputs)) ∧
        ((∃ op, Applied op ∧ op.AssignsTo v.name) →
          ∃ op n, Applied op ∧ op.Assigns v.name n ∧ OnlyWriter weights v.name n) := by
  obtain ⟨hwrites, hkeys, hnodes, g, d₁, d₂, hg, hempty, hadd, hassigned⟩ := s.weightsBy_convert h
  refine ⟨hnodes, g, hg, fun v hv hpersistable => ?_⟩
  obtain ⟨p', ws, inputs, outputs, hp', hws, rfl⟩ := Conversion.graph_ok hg
  obtain rfl := ProgramOffer.program.inj (hp.symm.trans hp')
  rw [(SourceGraph.lists_build p ws inputs outputs).weights] at hadd
  obtain ⟨hholder, hother⟩ := get?_weightsOf hvars hws v hv hpersistable
  obtain ⟨hadd₁, hadd₂⟩ := get?_addWeights ((sublist_keys_weightsOf hws).nodup hvars) hadd v.name
  rcases hassigned v.name with ⟨hnone, hkept⟩ | ⟨op, n, hop, hassigns, hn⟩
  · refine ⟨fun _ => ⟨fun hname => ?_, fun hname => ?_⟩, ?_⟩
    · obtain ⟨w, hw, hget⟩ := hother hname
      obtain ⟨type, htype, hstored⟩ := hadd₂ w hget
      obtain ⟨elements, helements, hw⟩ := except_bind_ok hw
      obtain rfl := Except.ok.inj hw
      exact ⟨_, onlyWriter_of_get? hkeys hwrites (hkept.trans hstored), type, elements, htype,
        Variable.holds_of_elements helements, rfl⟩
    · refine not_writes_of_get? hwrites ?_
      rw [hkept, hadd₁ (hholder hname), hempty]
      rfl
    · rintro ⟨op, hop, hassigns⟩
      exact absurd hassigns (hnone op hop)
  · refine ⟨fun hnone => absurd hassigns.1 (hnone op hop), fun _ => ?_⟩
    exact ⟨op, n, hop, hassigns, onlyWriter_of_get? hkeys hwrites hn⟩

def pair (x : String) (a b : Int) : Variable :=
  { name := x, shape := [2], persistable := true, data := some (.list [.int a, .int b]) }

/-- Three parameters are added: one whose name ends like that of a holder, and one that is assigned. -/
def offsets : Conversion :=
  let add (x y z : String) : Operation :=
    { type := "elementwise_add", inputs := [("X", [x]), ("Y", [y])], outputs := [("Out", [z])],
      attrs := [("axis", .int (-1))] }
  { program := .program
      { global :=
          { vars := [pair "w" 1 2, pair "w_feed" 3 4, pair "k" 5 6, { name := "x", shape := [2] },
              { name := "s", shape := [2] }, { name := "t", shape := [2] }, { name := "y", shape := [2] }]
            ops := [{ type := "assign_value", inputs := [], outputs := [("Out", ["k"])],
                      attrs := [("fp32_values", .list []), ("int32_values", .list [.int 7, .int 8]),
                        ("int64_values", .list []), ("dtype", .int 2), ("shape", .list [.int 2])] },
                    add "x" "w" "s", add "s" "w_feed" "t", add "t" "k" "y"] } }
    feeds := .strs ["x"]
    fetches := .list [.object .variable "y"] }

/-- **A parameter is read that nothing gives**: `w` is stored, `w_feed` is left out though it is read,
and `k` is what is assigned. -/
theorem weights_of_convert_offsets :
    ∃ product d, EStateM.run (convert Registry.standard offsets) blank = .ok product d ∧
      (∃ n, OnlyWriter (d.weights.map Prod.snd) "w" n ∧ (pair "w" 1 2).StoredAs n) ∧
      (∀ n ∈ d.weights.map Prod.snd, .str "w_feed" ∉ n.outputs) ∧
      (∃ n ∈ product.theModel.nodes, .str "w_feed" ∈ n.inputs) ∧
      ∃ n, (∃ op : OpNode, op.Assigns "k" n) ∧ OnlyWriter (d.weights.map Prod.snd) "k" n := by
  have hpasses : offsets.passes (fun p g product _ => (p.global.vars.map Variable.name).Nodup ∧
      (∀ o ∈ g.nodes.map Prod.snd, Registry.standard.isComposite o.type = false) ∧
      (∀ o ∈ g.nodes.map Prod.snd, ¬ o.AssignsTo "w" ∧ ¬ o.AssignsTo "w_feed") ∧
      (∃ o ∈ g.nodes.map Prod.snd, o.AssignsTo "k") ∧
      ∃ n ∈ product.theModel.nodes, .str "w_feed" ∈ n.inputs) = true := by decide +kernel
  obtain ⟨p, g, product, d, hp, hg, hrun, hholds⟩ := Conversion.of_passes hpasses
  obtain ⟨hvars, hplain, hunassigned, ⟨o, ho, hassigns⟩, hreads⟩ := of_decide_eq_true hholds
  obtain ⟨-, g', hg', hweights⟩ := weights_of_convert { registry := Registry.standard }
    Registry.standard.composites hp hvars hrun
  obtain ⟨g'', _, _, hg'', hbuild, -⟩ := convert_ok hrun
  obtain rfl := Except.ok.inj (hg.symm.trans hg')
  obtain rfl := Except.ok.inj (hg.symm.trans hg'')
  obtain rfl := ProgramOffer.program.inj hp
  have happlied := appliedIn_iff_mem (r := Registry.standard) (fun o ho hcomposite => by
    rw [hplain o ho] at hcomposite
    cases hcomposite) hbuild
  have hstored := (hweights (pair "w" 1 2) (by simp) rfl).1 fun op hop =>
    (hunassigned op ((happlied op).1 hop)).1
  have hlost := (hweights (pair "w_feed" 3 4) (by simp) rfl).1 fun op hop =>
    (hunassigned op ((happlied op).1 hop)).2
  obtain ⟨op, n, -, hop, hwriter⟩ := (hweights (pair "k" 5 6) (by simp) rfl).2
    ⟨o, (happlied o).2 ho, hassigns⟩
  exact ⟨product, d, hrun, hstored.1 (by decide +kernel), hlost.2 (by decide +kernel), hreads, n,
    ⟨op, hop⟩, hwriter⟩

end ModelExport
