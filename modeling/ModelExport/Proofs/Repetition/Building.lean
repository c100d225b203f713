import ModelExport.Proofs.Repetition.Settled
import ModelExport.Proofs.Support.Coverage

/-!
# Proofs/Repetition/Building — a graph mapped again

What the rules change stays with the operators, so a graph is mapped again with the attributes that
its rules have left.  `mapNode_again` compares one operator with itself, `mapEach_again` a list of
operators whose names differ, and `build_again` a whole graph: nodes come out the same if and only if
every operator has settled.
-/

namespace ModelExport

open Emit List
open EStateM (run)

variable {ops : List OpNode} {g : SourceGraph}

/-! ## Source graphs -/

/-- The attributes that an operator has been left with. -/
def OpNode.afterEdits (op : OpNode) (kept : List (String × Attrs)) : OpNode :=
  op.edited ((Assoc.get? kept op.name).getD [])

instance (op : OpNode) [op.Plain] (kept : List (String × Attrs)) : (op.afterEdits kept).Plain := by
  unfold OpNode.afterEdits; infer_instance

theorem types_afterEdits (ops : List OpNode) (kept : List (String × Attrs)) :
    (ops.map fun op => op.afterEdits kept).map OpNode.type = ops.map OpNode.type := by
  rw [map_map]
  rfl

namespace SourceGraph

/-- **A graph whose nodes stand under their own names**, each once. -/
structure Keyed (g : SourceGraph) : Prop where
  nodup : (Assoc.keys g.nodes).Nodup
  named : ∀ e ∈ g.nodes, e.1 = e.2.name
  plain : ∀ e ∈ g.nodes, e.2.Plain

theorem Keyed.addOperation (h : g.Keyed) (b : Block) (op : Operation) : (addOperation b g op).Keyed := by
  by_cases hop : Node.isInterface op.type = true
  · rwa [SourceGraph.addOperation, if_pos hop]
  have hnodes : (SourceGraph.addOperation b g op).nodes = Assoc.insert g.nodes
      (g.counts.next op.type).1 (nodeOf b (g.counts.next op.type).1 op) := by
    rw [SourceGraph.addOperation, if_neg hop]
    exact congrArg SourceGraph.nodes (if_neg hop)
  refine ⟨?_, ?_, ?_⟩ <;> rw [hnodes]
  · exact Assoc.nodup_keys_insert _ _ _ h.nodup
  · intro e he
    rcases Assoc.eq_or_mem_of_mem_insert he with rfl | he
    · rfl
    · exact h.named e he
  · intro e he
    rcases Assoc.eq_or_mem_of_mem_insert he with rfl | he
    · exact plain_nodeOf b _ op
    · exact h.plain e he

theorem keyed_build (p : Program) (weights : List (String × Weight)) (inputs outputs : List Terminal) :
    (build p weights inputs outputs).Keyed := by
  have hempty : Keyed { empty with inputs, outputs, weights } :=
    ⟨nodup_nil, fun _ he => absurd he not_mem_nil, fun _ he => absurd he not_mem_nil⟩
  have hblock : ∀ (b : Block) {g : SourceGraph}, g.Keyed → (b.ops.foldl (SourceGraph.addOperation b) g).Keyed :=
    fun b _ hg => List.foldlRecOn b.ops _ hg fun _ hg op _ => hg.addOperation b op
  exact List.foldlRecOn p.blocks _ hempty fun _ hg b _ => hblock b hg

theorem Keyed.nodes_withEdits (h : g.Keyed) (kept : List (String × Attrs)) :
    (g.withEdits kept).nodes = g.nodes.map fun e => (e.1, e.2.afterEdits kept) := by
  refine map_congr_left fun e he => ?_
  rw [OpNode.afterEdits, ← h.named e he]
  split
  · rename_i changed hchanged
    rw [hchanged]
    rfl
  · rename_i hnone
    rw [hnone]
    rfl

theorem Keyed.withEdits (h : g.Keyed) (kept : List (String × Attrs)) : (g.withEdits kept).Keyed := by
  have hnodes := h.nodes_withEdits kept
  refine ⟨?_, ?_, ?_⟩
  · rw [hnodes, Assoc.keys, map_map]
    exact h.nodup
  · rw [hnodes]
    exact forall_mem_map.2 fun e he => h.named e he
  · rw [hnodes]
    refine forall_mem_map.2 fun e he => ?_
    have := h.plain e he
    exact inferInstanceAs (e.2.afterEdits kept).Plain

end SourceGraph

/-! ## Operators -/

namespace Progress

variable {S : Prop} {d d' e e' : Draft}

theorem keeping (h : Progress S d d' e e') (x y : Attrs) (k l : List (String × Attrs)) :
    Progress S { d with edits := x, kept := k } { d' with edits := x, kept := k }
      { e with edits := y, kept := l } { e' with edits := y, kept := l } := by
  obtain ⟨⟨htidy, hopset, hcounts, hdomains, hweights, hterminals⟩, hleft, hright, hadds⟩ := h
  exact ⟨⟨⟨htidy.1.congr rfl rfl rfl, htidy.2.congr rfl rfl rfl⟩, hopset, hcounts, hdomains, hweights,
    hterminals⟩, ⟨hleft.opset, rfl, rfl, hleft.renames⟩, ⟨hright.opset, rfl, rfl, hright.renames⟩, hadds⟩

end Progress

namespace Emit

variable {exportType : ExportType} {op : OpNode} {d d' e e' : Draft}

theorem mapUpTo_eq_of_ok {depth : Nat}
    (h : run (mapUpTo Registry.standard exportType depth op) d = .ok () d') :
    mapUpTo Registry.standard exportType depth op = seenFrom op (applyRule Registry.standard op) := by
  cases depth with
  | zero => cases seenFrom_ok h
  | succ depth =>
    have hrun := seenFrom_ok h
    unfold mapUpTo
    split at hrun
    · rename_i c hc
      obtain rfl := composite?_standard hc
      split at hrun
      · rename_i hkeeps
        exact congrArg (seenFrom op) (if_pos hkeeps)
      · obtain ⟨d₁, hnested, -⟩ := withoutEdits_ok hrun
        obtain ⟨g, d₂, hg, -⟩ := bind_ok hnested
        exact absurd hg expand_recipe_ne
    · rfl

theorem applyRule_of_mapUpTo {depth : Nat}
    (h : run (mapUpTo Registry.standard exportType depth op) d = .ok () d') :
    ∃ rule, Registry.standard.ruleFor op.type d.opset = .ok rule ∧ run (rule op) d = .ok () d' := by
  have hseen := h
  rw [mapUpTo_eq_of_ok h] at hseen
  exact applyRule_ok (seenFrom_ok hseen)

theorem keepEdits_ok (h : run (keepEdits op) d = .ok () d') :
    d' = { d with edits := [], kept := d'.kept } ∧
      d'.kept = if d.edits = [] then d.kept else Assoc.insert d.kept op.name d.edits := by
  rw [modify_ok h]
  cases hedits : d.edits with
  | nil =>
    refine ⟨?_, (if_pos rfl).symm⟩
    change d = { d with edits := [] }
    rw [← hedits]
  | cons a rest => exact ⟨rfl, rfl⟩

/-- **An operator is mapped by its rule, and keeps its changes.** -/
theorem mapNode_standard_ok (h : run (mapNode Registry.standard exportType op) d = .ok () d') :
    ∃ rule d₁, Registry.standard.ruleFor op.type d.opset = .ok rule ∧
      run (rule op) d = .ok () d₁ ∧ d' = { d₁ with edits := [], kept := d'.kept } ∧
      d'.kept = if d₁.edits = [] then d₁.kept else Assoc.insert d₁.kept op.name d₁.edits := by
  obtain ⟨d₁, hmap, hkeep⟩ := mapNode_ok h
  obtain ⟨rule, hrule, hrun⟩ := applyRule_of_mapUpTo hmap
  exact ⟨rule, d₁, hrule, hrun, keepEdits_ok hkeep⟩

/-- **An operator mapped again**, with the attributes that it has been left with. -/
theorem mapNode_again [op.Plain] (hde : Abreast d e) (hd : d.edits = []) (he : e.edits = [])
    (hnew : Assoc.get? d.kept op.name = none)
    (h : run (mapNode Registry.standard exportType op) d = .ok () d')
    (h' : run (mapNode Registry.standard exportType (op.afterEdits d'.kept)) e = .ok () e') :
    Progress (op.Settled d.opset) { d with kept := d'.kept } d' { e with kept := e'.kept } e' := by
  obtain ⟨rule, d₁, hrule, hrun, hd', hkept⟩ := mapNode_standard_ok h
  obtain ⟨rule', e₁, hrule', hrun', he', -⟩ := mapNode_standard_ok h'
  have hrevisits := revisits_of_ruleFor hrule
  obtain rfl : rule = rule' := Except.ok.inj (hrule.symm.trans (hde.opset ▸ hrule'))
  -- what is kept of the operator are the changes of this time
  have hsame : d₁.kept = d.kept := (hrevisits.spares hde.tidy.1 hrun).kept
  have hchanges : (Assoc.get? d'.kept op.name).getD [] = d₁.edits := by
    rw [hkept, hsame]
    split
    · rename_i hnone
      rw [hnew, hnone]
      rfl
    · rw [Assoc.get?_insert, if_pos rfl]
      rfl
  rw [OpNode.afterEdits, hchanges] at hrun'
  have hprogress := (hrevisits.progress hde hd hrun hrun').keeping [] [] d'.kept e'.kept
  rw [← hd', ← he'] at hprogress
  rwa [hd, he]

theorem kept_mapNode [op.Plain] (hd : d.Tidy) {x : String} (hx : x ≠ op.name)
    (h : run (mapNode Registry.standard exportType op) d = .ok () d') :
    Assoc.get? d'.kept x = Assoc.get? d.kept x := by
  obtain ⟨rule, d₁, hrule, hrun, -, hkept⟩ := mapNode_standard_ok h
  rw [hkept, ((revisits_of_ruleFor hrule).spares hd hrun).kept]
  split
  · rfl
  · rw [Assoc.get?_insert, if_neg hx]

/-! ## Lists of operators -/

def mapEach (exportType : ExportType) (ops : List OpNode) : Emit Unit := do
  for op in ops do mapNode Registry.standard exportType op

theorem mapEach_cons (h : run (mapEach exportType (op :: ops)) d = .ok () d') :
    ∃ d₁, run (mapNode Registry.standard exportType op) d = .ok () d₁ ∧
      run (mapEach exportType ops) d₁ = .ok () d' := by
  unfold mapEach at h
  simp only [forIn_cons, bind_assoc, pure_bind] at h
  obtain ⟨_, d₁, hop, hops⟩ := bind_ok h
  exact ⟨d₁, hop, hops⟩

theorem tidy_mapNode [op.Plain] (hd : d.Tidy)
    (h : run (mapNode Registry.standard exportType op) d = .ok () d') : d'.Tidy :=
  ((Grows.mapNode exportType op).growth hd h).tidy

theorem kept_mapEach (hd : d.Tidy) (hplain : ∀ op ∈ ops, op.Plain) {x : String} (hx : x ∉ ops.map OpNode.name)
    (h : run (mapEach exportType ops) d = .ok () d') : Assoc.get? d'.kept x = Assoc.get? d.kept x := by
  induction ops generalizing d with
  | nil => rw [(pure_ok h).2]
  | cons op ops ih =>
    obtain ⟨d₁, hop, hops⟩ := mapEach_cons h
    obtain ⟨hplain₁, hplain⟩ := forall_mem_cons.1 hplain
    obtain ⟨hne, hx⟩ := not_or.1 (mt mem_cons.2 hx)
    rw [ih (tidy_mapNode hd hop) hplain hx hops, kept_mapNode hd hne hop]

/-- **Operators mapped again**, with the attributes that they have been left with. -/
theorem mapEach_again (hplain : ∀ op ∈ ops, op.Plain) (hnames : (ops.map OpNode.name).Nodup) (hde : Abreast d e)
    (hd : d.edits = []) (he : e.edits = []) (hnew : ∀ op ∈ ops, Assoc.get? d.kept op.name = none)
    (h : run (mapEach exportType ops) d = .ok () d')
    (h' : run (mapEach exportType (ops.map fun op => op.afterEdits d'.kept)) e = .ok () e') :
    Progress (∀ op ∈ ops, op.Settled d.opset) { d with kept := d'.kept } d'
      { e with kept := e'.kept } e' := by
  induction ops generalizing d e with
  | nil =>
    obtain ⟨-, rfl⟩ := pure_ok h
    obtain ⟨-, rfl⟩ := pure_ok h'
    exact (Progress.refl hde).congr (by simp)
  | cons op ops ih =>
    obtain ⟨hplain₁, hplain⟩ := forall_mem_cons.1 hplain
    obtain ⟨hnew₁, hnew⟩ := forall_mem_cons.1 hnew
    obtain ⟨hne, hnames⟩ := nodup_cons.1 hnames
    obtain ⟨d₁, hop, hops⟩ := mapEach_cons h
    obtain ⟨e₁, hop', hops'⟩ := mapEach_cons h'
    have htidy : d₁.Tidy := tidy_mapNode hde.tidy.1 hop
    -- what is kept of the first operator stays so until the end
    have hkept : op.afterEdits d'.kept = op.afterEdits d₁.kept := by
      rw [OpNode.afterEdits, kept_mapEach htidy hplain hne hops, OpNode.afterEdits]
    dsimp only at hop'
    rw [hkept] at hop'
    have hfirst := mapNode_again hde hd he hnew₁ hop hop'
    have hopset : d₁.opset = d.opset := hfirst.left.opset
    have hd₁ : d₁.edits = d.edits := hfirst.left.edits
    have he₁ : e₁.edits = e.edits := hfirst.right.edits
    have hothers : ∀ op' ∈ ops, Assoc.get? d₁.kept op'.name = none := fun op' hop' => by
      rw [kept_mapNode hde.tidy.1 (fun h => hne (h ▸ mem_map_of_mem hop')) hop, hnew op' hop']
    have hrest := ih hplain hnames hfirst.abreast (hd₁.trans hd) (he₁.trans he) hothers hops hops'
    rw [← hd₁, ← he₁]
    refine ((hfirst.keeping d₁.edits e₁.edits d'.kept e'.kept).trans hrest).congr ?_
    rw [hopset]
    exact forall_mem_cons.symm

/-! ## A whole graph -/

theorem twin_recommendNested {version : Int} : ∀ {ops ops' : List OpNode} {best : Int},
    ops.map OpNode.type = ops'.map OpNode.type →
      Twin True (recommendNested Registry.standard version ops best)
        (recommendNested Registry.standard version ops' best)
  | [], [], _, _ => .pure _
  | op :: ops, op' :: ops', best, htypes => by
    obtain ⟨htype, htypes⟩ := List.cons.inj htypes
    unfold recommendNested
    rw [htype]
    split
    · exact twin_recommendNested htypes
    · rename_i c hc
      obtain rfl := composite?_standard hc
      refine .of_failing fun h => ?_
      obtain ⟨g, d₁, hg, -⟩ := bind_ok h
      exact expand_recipe_ne hg

theorem twin_recommend {version : Int} {ops' : List OpNode}
    (htypes : ops.map OpNode.type = ops'.map OpNode.type) :
    Twin True (recommend Registry.standard ops version) (recommend Registry.standard ops' version) := by
  unfold recommend
  rw [htypes]
  refine .step (Emits.again (V := [])) fun best => ?_
  refine ((twin_recommendNested htypes).bind fun v => ?_).congr (iff_of_eq (and_true True))
  exact Emits.again (V := [])

theorem chooseVersion_again {ops' : List OpNode} (htypes : ops.map OpNode.type = ops'.map OpNode.type)
    (hde : Abreast d e) (h : run (chooseVersion Registry.standard ops) d = .ok () d')
    (h' : run (chooseVersion Registry.standard ops') e = .ok () e') :
    ∃ version, Progress True { d with opset := version } d' { e with opset := version } e' := by
  obtain ⟨v, d₀, hv, h₁⟩ := bind_ok h
  obtain ⟨rfl, rfl⟩ := opset_ok hv
  obtain ⟨v', e₀, hv', h₁'⟩ := bind_ok h'
  obtain ⟨rfl, rfl⟩ := opset_ok hv'
  obtain ⟨version, d₁, hfind, h₂⟩ := bind_ok h₁
  obtain ⟨version', e₁, hfind', h₂'⟩ := bind_ok h₁'
  obtain rfl := modify_ok h₂
  obtain rfl := modify_ok h₂'
  rw [← hde.opset] at hfind'
  obtain ⟨rfl, hstep⟩ := (twin_recommend htypes).progress hde hfind hfind'
  obtain ⟨⟨htidy, -, hcounts, hdomains, hweights, hterminals⟩, hleft, hright, hadds⟩ := hstep
  exact ⟨version, ⟨⟨htidy.1.congr rfl rfl rfl, htidy.2.congr rfl rfl rfl⟩, rfl, hcounts, hdomains,
    hweights, hterminals⟩, ⟨rfl, hleft.edits, hleft.kept, hleft.renames⟩,
    ⟨rfl, hright.edits, hright.kept, hright.renames⟩, hadds⟩

theorem twin_addInputs : ∀ ts : List Terminal, Twin True (addInputs ts) (addInputs ts)
  | [] => .pure ()
  | t :: ts => by
    refine Twin.step (.known fun info _ => ?_) fun _ => twin_addInputs ts
    refine .modify (fun hde => ?_) (fun _ => ⟨rfl, rfl, rfl, rfl⟩) fun _ => rfl
    exact hde.with_terminals ⟨congrArg (· ++ [info]) hde.terminals.1, hde.terminals.2⟩

theorem twin_addOutputs : ∀ ts : List Terminal, Twin True (addOutputs ts) (addOutputs ts)
  | [] => .pure ()
  | t :: ts => by
    refine Twin.step (.known fun info _ => ?_) fun _ => twin_addOutputs ts
    refine .modify (fun hde => ?_) (fun _ => ⟨rfl, rfl, rfl, rfl⟩) fun _ => rfl
    exact hde.with_terminals ⟨hde.terminals.1, congrArg (· ++ [info]) hde.terminals.2⟩

theorem mapAll_again (hplain : ∀ op ∈ ops, op.Plain) (hnames : (ops.map OpNode.name).Nodup) (hde : Abreast d e)
    (hd : d.edits = []) (he : e.edits = []) (hnew : d.kept = [])
    (h : run (mapAll Registry.standard exportType ops) d = .ok () d')
    (h' : run (mapAll Registry.standard exportType (ops.map fun op => op.afterEdits d'.kept)) e =
      .ok () e') :
    Progress (∀ op ∈ ops, op.Settled d.opset) { d with kept := d'.kept } d'
      { e with kept := e'.kept } e' := by
  obtain ⟨v, d₀, hv, h₁⟩ := bind_ok h
  obtain ⟨rfl, rfl⟩ := opset_ok hv
  obtain ⟨v', e₀, hv', h₁'⟩ := bind_ok h'
  obtain ⟨rfl, rfl⟩ := opset_ok hv'
  obtain ⟨_, d₁, hcheck, h₂⟩ := bind_ok h₁
  obtain ⟨_, e₁, hcheck', h₂'⟩ := bind_ok h₁'
  rw [types_afterEdits, ← hde.opset] at hcheck'
  have hchecked := ((Emits.again (V := [])).progress hde hcheck hcheck').2
  have hkept : d₁.kept = [] := hchecked.left.kept.trans hnew
  have hmapped := mapEach_again hplain hnames hchecked.abreast (hchecked.left.edits.trans hd)
    (hchecked.right.edits.trans he) (fun op _ => by rw [hkept]; rfl) h₂ h₂'
  rw [← hchecked.left.edits, ← hchecked.right.edits]
  refine ((hchecked.keeping d₁.edits e₁.edits d'.kept e'.kept).trans hmapped).congr ?_
  rw [true_and, hchecked.left.opset]

/-- **A graph mapped again**, with the attributes that its operators have been left with: it gives the
same nodes if and only if all operators have settled. -/
theorem build_again (hg : g.Keyed) (hde : Abreast d e) (hd : d.edits = []) (he : e.edits = [])
    (hnew : d.kept = []) (h : run (build Registry.standard exportType g) d = .ok () d')
    (h' : run (build Registry.standard exportType (g.withEdits d'.kept)) e = .ok () e') :
    Progress (∀ x ∈ g.nodes, x.2.Settled d'.opset) { d with opset := d'.opset, kept := d'.kept } d'
      { e with opset := d'.opset, kept := e'.kept } e' := by
  have hnodes : (g.withEdits d'.kept).nodes.map Prod.snd =
      (g.nodes.map Prod.snd).map fun op => op.afterEdits d'.kept := by
    rw [hg.nodes_withEdits, map_map, map_map]
    rfl
  have hplain : ∀ op ∈ g.nodes.map Prod.snd, op.Plain := forall_mem_map.2 hg.plain
  have hnames : ((g.nodes.map Prod.snd).map OpNode.name).Nodup := by
    have hkeys : (g.nodes.map Prod.snd).map OpNode.name = Assoc.keys g.nodes := by
      rw [map_map]
      exact map_congr_left fun e he => (hg.named e he).symm
    rw [hkeys]
    exact hg.nodup
  unfold build at h h'
  dsimp only at h h'
  rw [hnodes] at h'
  obtain ⟨_, d₁, hversion, h₁⟩ := bind_ok h
  obtain ⟨_, e₁, hversion', h₁'⟩ := bind_ok h'
  obtain ⟨version, hchosen⟩ := chooseVersion_again (types_afterEdits _ _).symm hde hversion hversion'
  obtain ⟨_, d₂, hweights, h₂⟩ := bind_ok h₁
  obtain ⟨_, e₂, hweights', h₂'⟩ := bind_ok h₁'
  have hkept := ((twin_addWeights g.weights).progress hchosen.abreast hweights hweights').2
  obtain ⟨_, d₃, hinputs, h₃⟩ := bind_ok h₂
  obtain ⟨_, e₃, hinputs', h₃'⟩ := bind_ok h₂'
  have hread := ((twin_addInputs g.inputs).progress hkept.abreast hinputs hinputs').2
  obtain ⟨_, d₄, houtputs, h₄⟩ := bind_ok h₃
  obtain ⟨_, e₄, houtputs', h₄'⟩ := bind_ok h₃'
  have hwritten := ((twin_addOutputs g.outputs).progress hread.abreast houtputs houtputs').2
  have hready := ((hchosen.trans hkept).trans hread).trans hwritten
  have hmapped := mapAll_again hplain hnames hready.abreast (hready.left.edits.trans hd)
    (hready.right.edits.trans he) (hready.left.kept.trans hnew) h₄ h₄'
  rw [hmapped.left.opset, hready.left.opset, ← hready.left.edits, ← hready.right.edits]
  refine ((hready.keeping d₄.edits e₄.edits d'.kept e'.kept).trans hmapped).congr ?_
  simp only [true_and, forall_mem_map, hready.left.opset]

end Emit

end ModelExport
