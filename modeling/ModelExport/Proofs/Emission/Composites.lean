import ModelExport.Proofs.Support.Coverage

/-!
# Proofs/Emission/Composites — mapping with composites only adds

    d ──rule──▸ d'        d ──expand──▸ d₁ ──part──▸ d₂ ──part──▸ … ──part──▸ d'

With the rules that come with the library and any composites, mapping leaves what a draft holds and
puts nodes behind it (`widens_mapNode`).  So the operators of a graph are mapped in turn, each adding
its own nodes (`MapsInTurn`), and building a graph takes inputs and outputs from the graph
(`builtInTurn_of_ok`).
-/

namespace ModelExport

open Emit List
open EStateM (run)

/-! ## Drafts that only grow -/

/-- **A draft that another one grows into.** -/
def Draft.Widens (d d' : Draft) : Prop := ∃ V, Growth V d d'

namespace Draft.Widens

variable {d d' d'' : Draft}

theorem tidy (h : d.Widens d') : d'.Tidy := h.choose_spec.tidy

theorem inputs (h : d.Widens d') : d'.inputs = d.inputs := h.choose_spec.inputs

theorem outputs (h : d.Widens d') : d'.outputs = d.outputs := h.choose_spec.outputs

/-- **New nodes stand behind the old ones.** -/
theorem nodes (h : d.Widens d') : ∃ ns, d'.nodes = d.nodes ++ NodeMap.ofNodes ns := by
  obtain ⟨b, hb⟩ := h.choose_spec.adds
  exact ⟨b.nodes, hb.nodes⟩

theorem trans (h₁ : d.Widens d') (h₂ : d'.Widens d'') : d.Widens d'' := by
  obtain ⟨V, hV⟩ := h₁
  obtain ⟨W, hW⟩ := h₂
  exact ⟨V ++ W, hV.trans hW⟩

theorem of_frame (h : d.Tidy) (hd : d' = { d with
    opset := d'.opset, domains := d'.domains, notices := d'.notices, edits := d'.edits,
    kept := d'.kept, expansions := d'.expansions }) : d.Widens d' :=
  ⟨[], .of_frame [] h hd⟩

theorem forIn {β : Type} {xs : List β} {f : β → Emit Unit}
    (hf : ∀ b ∈ xs, ∀ {d d'}, d.Tidy → run (f b) d = .ok () d' → d.Widens d') (hd : d.Tidy)
    (h : run (do for b in xs do f b : Emit Unit) d = .ok () d') : d.Widens d' := by
  induction xs generalizing d with
  | nil => exact of_frame hd (by rw [(pure_ok h).2])
  | cons b xs ih =>
    obtain ⟨hb, hxs⟩ := forall_mem_cons.1 hf
    simp only [forIn_cons, bind_assoc, pure_bind] at h
    obtain ⟨_, d₁, hstep, hrest⟩ := bind_ok h
    have hfirst := hb hd hstep
    exact hfirst.trans (ih hxs hfirst.tidy hrest)

end Draft.Widens

/-! ## Mapping -/

/-- The rules that come with the library, and other composites. -/
def Registry.withComposites (composites : List (Value × Composite)) : Registry :=
  { Registry.standard with composites }

namespace Emit

variable {composites : List (Value × Composite)} {exportType : ExportType} {op : OpNode} {d d' : Draft}

theorem expand_frame {c : Composite} {g : SourceGraph} (h : run (expand c op) d = .ok g d') :
    ∃ expansions, d' = { d with expansions } := by
  obtain ⟨stand, -, hrest⟩ := computed_ok h
  obtain ⟨scope, d₂, hscope, hgraph⟩ := bind_ok hrest
  cases hscope
  cases c with
  | recipe => cases hgraph
  | fragment f =>
    obtain ⟨-, rfl⟩ := fault_ok hgraph
    exact ⟨_, rfl⟩

theorem widens_applyRule [op.Plain] (hd : d.Tidy)
    (h : run (applyRule (Registry.withComposites composites) op) d = .ok () d') :
    d.Widens d' := by
  obtain ⟨rule, hfind, hrule⟩ := applyRule_ok h
  -- composites take no part in finding a rule
  have hfind : Registry.standard.ruleFor op.type d.opset = .ok rule := hfind
  exact ⟨_, ((maps_of_ruleFor hfind).grows op rfl).growth hd hrule⟩

theorem widens_mapUpTo (depth : Nat) {op : OpNode} [op.Plain] {d d' : Draft} (hd : d.Tidy)
    (h : run (mapUpTo (Registry.withComposites composites) exportType depth op) d = .ok () d') :
    d.Widens d' := by
  induction depth generalizing op d d' with
  | zero => cases seenFrom_ok h
  | succ depth ih =>
    rcases mapUpTo_ok h with ⟨-, hrun⟩ | ⟨c, g, w, d₁, d₂, -, -, hg, -, hloop, rfl⟩
    · exact widens_applyRule hd hrun
    · have hexpand : d.Widens d₁ := by
        obtain ⟨expansions, rfl⟩ := expand_frame hg
        exact .of_frame hd rfl
      have hparts : d₁.Widens d₂ := by
        refine .forIn (fun o ho _ _ htidy hrun => ?_) hexpand.tidy hloop
        have := forall_mem_map.2 (plain_expand hg) o ho
        exact ih htidy hrun
      exact (hexpand.trans hparts).trans (.of_frame hparts.tidy rfl)

/-- **An operator that is mapped** leaves what is there and adds its own nodes. -/
theorem widens_mapNode [op.Plain] (hd : d.Tidy)
    (h : run (mapNode (Registry.withComposites composites) exportType op) d = .ok () d') :
    d.Widens d' := by
  obtain ⟨d₁, hrun, hkeep⟩ := mapNode_ok h
  have hmap : d.Widens d₁ := widens_mapUpTo _ hd hrun
  refine hmap.trans (.of_frame hmap.tidy ?_)
  rw [modify_ok hkeep]
  split <;> rfl

/-! ## Operators in turn -/

/-- **Operators mapped one after another**, each with the nodes that it adds. -/
inductive MapsInTurn (r : Registry) (exportType : ExportType) :
    List OpNode → Draft → List (List Node) → Draft → Prop
  | done {d : Draft} : MapsInTurn r exportType [] d [] d
  | next {op : OpNode} {ops : List OpNode} {ns : List Node} {nss : List (List Node)} {d d₁ d' : Draft}
      (hmap : run (mapNode r exportType op) d = .ok () d₁)
      (hadds : d₁.nodes = d.nodes ++ NodeMap.ofNodes ns) (hrest : MapsInTurn r exportType ops d₁ nss d') :
      MapsInTurn r exportType (op :: ops) d (ns :: nss) d'

theorem MapsInTurn.nodes {r : Registry} {ops : List OpNode} {nss : List (List Node)}
    (h : MapsInTurn r exportType ops d nss d') :
    d'.nodes = d.nodes ++ NodeMap.ofNodes nss.flatten := by
  induction h with
  | done => exact (append_nil _).symm
  | next _ hadds _ ih =>
    rw [ih, hadds, NodeMap.ofNodes, NodeMap.ofNodes, NodeMap.ofNodes, flatten_cons,
      map_append, append_assoc]

theorem mapsInTurn_of_ok {ops : List OpNode} (hplain : ∀ op ∈ ops, op.Plain) (hd : d.Tidy)
    (h : run (do for op in ops do mapNode (Registry.withComposites composites) exportType op :
      Emit Unit) d = .ok () d') :
    ∃ nss, MapsInTurn (Registry.withComposites composites) exportType ops d nss d' ∧ d.Widens d' := by
  induction ops generalizing d with
  | nil =>
    obtain ⟨-, rfl⟩ := pure_ok h
    exact ⟨[], .done, .of_frame hd rfl⟩
  | cons op ops ih =>
    obtain ⟨hop, hops⟩ := forall_mem_cons.1 hplain
    simp only [forIn_cons, bind_assoc, pure_bind] at h
    obtain ⟨_, d₁, hmap, hrest⟩ := bind_ok h
    have hfirst := widens_mapNode hd hmap
    obtain ⟨ns, hns⟩ := hfirst.nodes
    obtain ⟨nss, hturn, hlater⟩ := ih hops hfirst.tidy hrest
    exact ⟨ns :: nss, .next hmap hns hturn, hfirst.trans hlater⟩

end Emit

/-! ## Graphs -/

namespace Emit

variable {r : Registry} {version w : Int} {d d' : Draft}

theorem checkSupport_frame {types : List String} {advise : Bool}
    (h : run (checkSupport r types version advise) d = .ok w d') :
    ∃ notices, d' = { d with notices } := by
  by_cases hknows : ∀ t ∈ types, r.Knows t
  · rw [run_checkSupport_of_known hknows] at h
    split at h
    · exact ⟨_, (EStateM.Result.ok.inj h).2.symm⟩
    · split at h
      · exact ⟨_, (EStateM.Result.ok.inj h).2.symm⟩
      · cases h
  · rw [run_checkSupport_of_unknown hknows] at h
    cases h

theorem recommendNested_frame {nodes : List OpNode} {best : Int}
    (h : run (recommendNested r version nodes best) d = .ok w d') :
    ∃ notices expansions, d' = { d with notices, expansions } := by
  induction nodes generalizing best d with
  | nil => exact ⟨_, _, (pure_ok h).2⟩
  | cons op rest ih =>
    unfold recommendNested at h
    split at h
    · exact ih h
    · obtain ⟨g, d₁, hg, hrest⟩ := bind_ok h
      obtain ⟨needed, d₂, hcheck, hlater⟩ := bind_ok hrest
      obtain ⟨expansions, rfl⟩ := expand_frame hg
      obtain ⟨notices, rfl⟩ := checkSupport_frame hcheck
      obtain ⟨notices', expansions', rfl⟩ := ih hlater
      exact ⟨_, _, rfl⟩

/-- **Choosing a version** adds no node. -/
theorem chooseVersion_frame {nodes : List OpNode} {u : Unit}
    (h : run (chooseVersion r nodes) d = .ok u d') :
    ∃ opset notices expansions, d' = { d with opset, notices, expansions } := by
  obtain ⟨v, d₁, hv, h₁⟩ := bind_ok h
  obtain ⟨-, rfl⟩ := opset_ok hv
  obtain ⟨w, d₂, hrecommend, hset⟩ := bind_ok h₁
  obtain rfl := modify_ok hset
  obtain ⟨x, d₃, hcheck, h₂⟩ := bind_ok hrecommend
  obtain ⟨notices, rfl⟩ := checkSupport_frame hcheck
  obtain ⟨y, d₄, hnested, h₃⟩ := bind_ok h₂
  obtain ⟨notices', expansions, rfl⟩ := recommendNested_frame hnested
  dsimp only at h₃
  split at h₃
  · obtain ⟨-, rfl⟩ := pure_ok h₃
    exact ⟨_, _, _, rfl⟩
  · obtain ⟨_, d₅, hsay, hpure⟩ := bind_ok h₃
    obtain ⟨-, rfl⟩ := pure_ok hpure
    obtain rfl := modify_ok hsay
    exact ⟨_, _, _, rfl⟩

end Emit

/-- **What building a graph makes of a draft**, with its operators mapped in turn. -/
structure BuiltInTurn (r : Registry) (exportType : ExportType) (g : SourceGraph) (d d' : Draft) : Prop where
  tidy : d'.Tidy
  inputs : d'.inputs.map ValueInfo.name =
    d.inputs.map ValueInfo.name ++ g.inputs.map fun t => .str t.name
  outputs : d'.outputs.map ValueInfo.name =
    d.outputs.map ValueInfo.name ++ g.outputs.map fun t => .str t.name
  turn : ∃ d₀ nss, d₀.nodes = d.nodes ∧ MapsInTurn r exportType (g.nodes.map Prod.snd) d₀ nss d'

theorem builtInTurn_of_ok {composites : List (Value × Composite)} {exportType : ExportType}
    {g : SourceGraph} {d d' : Draft} (hd : d.Tidy) (hg : ∀ e ∈ g.nodes, e.2.Plain)
    (h : run (build (Registry.withComposites composites) exportType g) d = .ok () d') :
    BuiltInTurn (Registry.withComposites composites) exportType g d d' := by
  obtain ⟨_, d₁, hversion, h₁⟩ := bind_ok h
  obtain ⟨_, d₂, hweights, h₂⟩ := bind_ok h₁
  obtain ⟨_, d₃, hinputs, h₃⟩ := bind_ok h₂
  obtain ⟨_, d₄, houtputs, hmapAll⟩ := bind_ok h₃
  obtain ⟨opset, notices, expansions, rfl⟩ := chooseVersion_frame hversion
  have hchosen : d.Widens { d with opset, notices, expansions } := .of_frame hd rfl
  have hweighted := hchosen.trans ⟨_, (Grows.addWeights g.weights).growth hchosen.tidy hweights⟩
  have hnodes : d₂.nodes = d.nodes := by rw [(addWeights_ok hweights).1]
  obtain ⟨ins, rfl, hins⟩ := addInputs_ok hinputs
  obtain ⟨outs, rfl, houts⟩ := addOutputs_ok houtputs
  -- inputs and outputs take no part in what is tidy
  obtain ⟨hkept, hrecorded, hnumbered, htexts, hdistinct⟩ := hweighted.tidy
  have htidy : Draft.Tidy
      { d₂ with inputs := d₂.inputs ++ ins, outputs := d₂.outputs ++ outs } :=
    ⟨hkept, hrecorded, hnumbered, htexts, hdistinct⟩
  obtain ⟨-, hloop⟩ := checked_ok hmapAll
  obtain ⟨nss, hturn, hmapped⟩ := mapsInTurn_of_ok (forall_mem_map.2 hg) htidy hloop
  have hstart : Draft.nodes { d₂ with inputs := d₂.inputs ++ ins, outputs := d₂.outputs ++ outs } =
      d.nodes := hnodes
  refine ⟨hmapped.tidy, ?_, ?_, _, nss, hstart, hturn⟩
  · rw [hmapped.inputs, map_append, hins, hweighted.inputs]
  · rw [hmapped.outputs, map_append, houts, hweighted.outputs]

end ModelExport
