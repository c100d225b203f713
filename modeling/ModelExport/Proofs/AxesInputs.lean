import ModelExport.Proofs.Emission.Asked
import ModelExport.Proofs.Wiring.Conditions

/-!
# Proofs/AxesInputs — axes as attributes, and as inputs

    before   x ─────────▸ T [axes := a] ──▸ y
    since    x, axes a ─▸ T ──────────────▸ y

From version 13 on, the nodes that take axes read them from a constant.  `Recast op L ns ms` says that the
nodes `ms` are the nodes `ns` up to that and to the names that are made up; `Parallel op L x y` says that
two runs fail alike or add such nodes.
-/

namespace ModelExport

open Emit List Rules
open EStateM (run)

/-! ## Nodes that differ in how they take axes -/

/-- **What two lists of nodes have made so far**: names that stand for each other, and constants of axes that
only the second list has, the last of which may be still to be read. -/
structure Ledger where
  pairs : List (Value × Value) := []
  axes : List (Value × List Int) := []
  unread : Bool := false

namespace Ledger

/-- An input of a node and that of its counterpart: made by counterparts, or an input of the operator. -/
@[simp] def Stands (L : Ledger) (op : OpNode) (v w : Value) : Prop :=
  (v, w) ∈ L.pairs ∨ v = w ∧ (v = .none ∨ v ∈ op.sources)

@[simp] def pair (L : Ledger) (outs outs' : List Value) : Ledger := { L with pairs := outs.zip outs' ++ L.pairs }

@[simp] def hold (L : Ledger) (v : Value) (axes : List Int) : Ledger :=
  { L with axes := (v, axes) :: L.axes, unread := true }

@[simp] def read (L : Ledger) : Ledger := { L with unread := false }

end Ledger

/-- Outputs of a node and of its counterpart: the same, or each its own name. -/
def SameOutputs (type : String) (k j : Nat) (outs outs' : List Value) : Prop :=
  outs = outs' ∨ outs = [.str (numbered type k)] ∧ outs' = [.str (numbered type j)]

/-- **The same nodes in the same order**, but that axes which are an attribute in the first list are read from
a constant in the second. -/
inductive Recast (op : OpNode) : Ledger → List Node → List Node → Prop
  | nil {L : Ledger} (hread : L.unread = false) : Recast op L [] []
  | kept {L : Ledger} {type : String} {k j : Nat} {ins ins' outs outs' : List Value} {attrs : Attrs} {ns ms : List Node}
      (hins : List.Forall₂ (L.Stands op) ins ins') (houts : SameOutputs type k j outs outs')
      (h : Recast op (L.pair outs outs') ns ms) :
      Recast op L (.asked type k ins outs attrs :: ns) (.asked type j ins' outs' attrs :: ms)
  | passed {L : Ledger} {type : String} {k j : Nat} {x y v : Value} {outs outs' : List Value} {attrs : Attrs}
      {axes : List Int} {ns ms : List Node} (haxes : (v, axes) ∈ L.axes) (hins : L.Stands op x y)
      (houts : SameOutputs type k j outs outs') (h : Recast op (L.read.pair outs outs') ns ms) :
      Recast op L (.asked type k [x] outs (("axes", .ints axes) :: attrs) :: ns)
        (.asked type j [y, v] outs' attrs :: ms)
  | constant {L : Ledger} {axes : List Int} {j : Nat} {ns ms : List Node} (hread : L.unread = false)
      (h : Recast op (L.hold (.str (numbered "Constant" j)) axes) ns ms) :
      Recast op L ns (.asked "Constant" j [] [.str (numbered "Constant" j)]
        [("dtype", .int ElementType.INT64), ("value", .ints axes)] :: ms)

/-- A node other than a constant has a counterpart. -/
theorem Recast.exists_type {op : OpNode} {L : Ledger} {ns ms : List Node} (h : Recast op L ns ms) {n : Node}
    (hn : n ∈ ns) : ∃ m ∈ ms, m.type = n.type := by
  induction h with
  | nil => cases hn
  | constant _ _ ih => exact (ih hn).imp fun m hm => ⟨mem_cons_of_mem _ hm.1, hm.2⟩
  | kept _ _ _ ih | passed _ _ _ _ ih =>
    rcases mem_cons.1 hn with rfl | hn
    · exact ⟨_, mem_cons_self, rfl⟩
    · exact (ih hn).imp fun m hm => ⟨mem_cons_of_mem _ hm.1, hm.2⟩

/-! ## Runs side by side -/

/-- **Runs that agree**: both fail, or the nodes they add are the same but for the way of axes. -/
def Agree (op : OpNode) (L : Ledger) (x y : Emit Unit) (d e : Draft) : Prop :=
  (∃ d' e' ns ms, Emission x d d' () ns ∧ Emission y e e' () ms ∧ Recast op L ns ms) ∨
    ∃ f f' d' e', run x d = .error f d' ∧ run y e = .error f' e'

/-- Whatever names there are, the runs agree. -/
def Parallel (op : OpNode) (L : Ledger) (x y : Emit Unit) : Prop := ∀ d e, Agree op L x y d e

namespace Parallel

variable {op : OpNode} {L : Ledger} {α : Type} {x : Emit Unit} {f g : Value → Emit Unit} {type : String}
  {inputs inputs' : Value} {ins ins' : List Value} {attrs : Attrs} {axes : List Int} {v : Value}

theorem computed {u : Except Slip α} {f g : α → Emit Unit} (h : ∀ a, u = .ok a → Parallel op L (f a) (g a)) :
    Parallel op L (liftM u >>= f) (liftM u >>= g) := by
  cases hu : u with
  | error s => exact fun d e => Or.inr ⟨.slip s, .slip s, d, e, rfl, rfl⟩
  | ok a =>
    rw [computed_bind, computed_bind]
    exact h a hu

theorem refused (r : Refusal) {f g : α → Emit Unit} : Parallel op L (refuse r >>= f) (refuse r >>= g) :=
  fun d e => Or.inr ⟨.refusal r, .refusal r, d, e, rfl, rfl⟩

/-- A constant that only the second run makes. -/
theorem constant (hread : L.unread = false) (h : ∀ s, Parallel op (L.hold (.str s) axes) x (g (.str s))) :
    Parallel op L x (Emit.constant ElementType.INT64 (.ints axes) >>= g) := fun d e => by
  have hnew : Emission (Emit.constant ElementType.INT64 (.ints axes)) e _ _ _ := emission_node e rfl (Or.inl rfl)
  rcases h _ d _ with ⟨d', e', ns, ms, hx, hy, hrecast⟩ | ⟨f, f', d', e', hx, hy⟩
  · exact Or.inl ⟨d', e', ns, _, hx, hnew.bind hy, .constant hread hrecast⟩
  · exact Or.inr ⟨f, f', d', e', hx, (run_bind_of_ok (hnew.puts e.nodes)).trans hy⟩

/-- Nodes that both runs make. -/
theorem step {L' : Ledger} {attrs' : Attrs} (hin : Node.inputList (givenInputs inputs) = .ok ins)
    (hin' : Node.inputList (givenInputs inputs') = .ok ins')
    (hrecast : ∀ {k j : Nat} {outs outs' : List Value} {ns ms : List Node}, SameOutputs type k j outs outs' →
      Recast op (L'.pair outs outs') ns ms →
        Recast op L (.asked type k ins outs attrs :: ns) (.asked type j ins' outs' attrs' :: ms))
    (h : ∀ s t, Parallel op (L'.pair [.str s] [.str t]) (f (.str s)) (g (.str t)))
    (hattrs : Node.isConstant type = true ∨ ∀ a ∈ attrs, a.1 ∉ Node.reserved := by
      simp [Node.isConstant, Node.reserved])
    (hattrs' : Node.isConstant type = true ∨ ∀ a ∈ attrs', a.1 ∉ Node.reserved := by
      simp [Node.isConstant, Node.reserved]) :
    Parallel op L (Emit.node type inputs attrs >>= f) (Emit.node type inputs' attrs' >>= g) := fun d e => by
  have hold := emission_node d hin hattrs
  have hnew := emission_node e hin' hattrs'
  rcases h _ _ _ _ with ⟨d', e', ns, ms, hx, hy, hns⟩ | ⟨f, f', d', e', hx, hy⟩
  · exact Or.inl ⟨d', e', _, _, hold.bind hx, hnew.bind hy, hrecast (Or.inr ⟨rfl, rfl⟩) hns⟩
  · exact Or.inr ⟨f, f', d', e', (run_bind_of_ok (hold.puts d.nodes)).trans hx,
      (run_bind_of_ok (hnew.puts e.nodes)).trans hy⟩

/-- The node at the end of both runs. -/
theorem last [op.Plain] {attrs' : Attrs} {slot : String} (hin : Node.inputList (givenInputs inputs) = .ok ins)
    (hin' : Node.inputList (givenInputs inputs') = .ok ins')
    (hrecast : ∀ {k j : Nat} {outs outs' : List Value}, SameOutputs type k j outs outs' →
      Recast op L [.asked type k ins outs attrs] [.asked type j ins' outs' attrs'])
    (hattrs : Node.isConstant type = true ∨ ∀ a ∈ attrs, a.1 ∉ Node.reserved := by
      simp [Node.isConstant, Node.reserved])
    (hattrs' : Node.isConstant type = true ∨ ∀ a ∈ attrs', a.1 ∉ Node.reserved := by
      simp [Node.isConstant, Node.reserved]) :
    Parallel op L (do discard <| nodeTo type inputs (← op.output slot) attrs)
      (do discard <| nodeTo type inputs' (← op.output slot) attrs') :=
  computed fun o ho d e => by
    obtain ⟨xs, rfl⟩ := OpNode.Plain.output op ho
    cases xs with
    | nil => exact Or.inl ⟨_, _, _, _, (emission_node d hin hattrs).discarded,
        (emission_node e hin' hattrs').discarded, hrecast (Or.inr ⟨rfl, rfl⟩)⟩
    | cons o os => exact Or.inl ⟨_, _, _, _, (emission_nodeTo d hin o os hattrs).discarded,
        (emission_nodeTo e hin' o os hattrs').discarded, hrecast (Or.inl rfl)⟩

end Parallel

/-! ## Rules -/

section Rules

variable (op : OpNode) [op.Plain] [op.Fed]

@[simp] theorem Node.endpoint_str (s : String) : Node.endpoint (.str s) = .str s := rfl

omit [op.Plain] in
theorem OpNode.Fed.inputAt_mem {slot : String} {v : Value} (h : op.inputAt slot 0 = .ok v) :
    Node.endpoint v = v ∧ (v = .none ∨ v ∈ op.sources) := by
  by_cases hfilled : op.Filled slot
  · obtain ⟨x, xs, hxs⟩ := hfilled.names
    obtain rfl := Except.ok.inj ((OpNode.inputAt_of_strs hxs).symm.trans h)
    exact ⟨rfl, Or.inr (mem_cons_of_mem _ (OpNode.subset_reads hxs mem_cons_self))⟩
  · obtain rfl := Except.ok.inj ((op.inputAt_of_not_filled hfilled).symm.trans h)
    exact ⟨rfl, Or.inl rfl⟩

omit [op.Plain] in
theorem OpNode.Fed.firstInput_mem {slot : String} {v : Value} (h : op.firstInput slot = .ok v) :
    Node.endpoint v = v ∧ v ∈ op.sources := by
  obtain ⟨x, xs, rfl, hxs⟩ := OpNode.Fed.firstInput h
  exact ⟨rfl, mem_cons_of_mem _ (OpNode.subset_reads hxs mem_cons_self)⟩

omit [op.Plain] in
theorem OpNode.Fed.inputList_mem (slot : String) (L : Ledger) :
    ∃ ins, Node.inputList (givenInputs (op.input slot)) = .ok ins ∧ ∀ v ∈ ins, L.Stands op v v := by
  rcases OpNode.Fed.input op slot with hnone | ⟨xs, hxs⟩
  · exact ⟨[], by rw [hnone]; rfl, by simp⟩
  · refine ⟨xs.map .str, by rw [hxs]; simp [givenInputs, Value.strs, Node.inputList], fun v hv => ?_⟩
    exact Or.inr ⟨rfl, Or.inr (mem_cons_of_mem _ (OpNode.subset_reads hxs hv))⟩

theorem parallel_dot : Parallel op {} (dot false op) (dot true op) := by
  unfold dot
  simp only [Bool.false_eq_true, if_false, if_true]
  refine .computed fun x hx => .computed fun y hy => ?_
  have hx := OpNode.Fed.inputAt_mem op hx
  have hy := OpNode.Fed.inputAt_mem op hy
  refine .step rfl rfl (.kept (by simp [hx, hy])) fun product product' => ?_
  refine .computed fun dims _ => .constant rfl fun axes => ?_
  exact .last rfl rfl fun houts => .passed (by simp) (by simp) houts (.nil rfl)

theorem parallel_pNorm (h : isPlainNorm true (op.attr "porder") (op.attr "keepdim") =
    isPlainNorm false (op.attr "porder") (op.attr "keepdim")) :
    Parallel op {} (pNorm false op) (pNorm true op) := by
  unfold pNorm
  simp only [h, sumOverSecond, Bool.false_eq_true, if_false, if_true, bind_assoc]
  refine .computed fun x hx => ?_
  have hx := OpNode.Fed.inputAt_mem op hx
  split
  · split
    · exact .last rfl rfl fun houts => .kept (by simp [hx]) houts (.nil rfl)
    · refine .step rfl rfl (.kept .nil) fun order order' => ?_
      refine .step rfl rfl (.kept (by simp [hx])) fun powers powers' => .constant rfl fun axes => ?_
      refine .step rfl rfl (.passed (by simp) (by simp)) fun sum sum' => .computed fun inverse _ => ?_
      refine .step rfl rfl (.kept .nil) fun inverseOrder inverseOrder' => ?_
      exact .last rfl rfl fun houts => .kept (by simp) houts (.nil rfl)
  · exact .refused _

theorem parallel_prelu : Parallel op {} (prelu false op) (prelu true op) := by
  unfold prelu
  simp only [insertAxes, Bool.false_eq_true, if_false, if_true, bind_assoc, pure_bind]
  refine .computed fun slopeShape _ => .computed fun inputShape _ => .computed fun slope hslope => ?_
  have hslope := OpNode.Fed.firstInput_mem op hslope
  split
  · split
    · exact .refused _
    · obtain ⟨ins, hin, hins⟩ := OpNode.Fed.inputList_mem op "X" {}
      refine .step hin hin (.kept (forall₂_same.2 hins)) fun shape shape' => ?_
      refine .computed fun axes _ => .constant rfl fun c => ?_
      refine .step rfl rfl (.passed (by simp) (by simp [hslope])) fun spread spread' => ?_
      refine .step rfl rfl (.kept (by simp)) fun wide wide' => .computed fun x hx => ?_
      have hx := OpNode.Fed.firstInput_mem op hx
      exact .last rfl rfl fun houts => .kept (by simp [hx]) houts (.nil rfl)
  · refine .computed fun x hx => ?_
    have hx := OpNode.Fed.firstInput_mem op hx
    exact .last rfl rfl fun houts => .kept (by simp [hx, hslope]) houts (.nil rfl)

theorem parallel_groupNorm : Parallel op {} (groupNorm false op) (groupNorm true op) := by
  unfold groupNorm
  simp only [channelWeights, Bool.false_eq_true, if_false, if_true, bind_assoc, pure_bind]
  refine .computed fun x hx => .computed fun dims _ => ?_
  have hx := OpNode.Fed.firstInput_mem op hx
  split
  · refine .computed fun scale hscale => .computed fun bias hbias => ?_
    have hscale := OpNode.Fed.firstInput_mem op hscale
    have hbias := OpNode.Fed.firstInput_mem op hbias
    refine .step rfl rfl (.kept .nil) fun shape shape' => ?_
    refine .step rfl rfl (.kept (by simp [hx])) fun grouped grouped' => .computed fun _ _ => ?_
    refine .step rfl rfl (.kept .nil) fun ones ones' => .computed fun _ _ => ?_
    refine .step rfl rfl (.kept .nil) fun zeros zeros' => ?_
    refine .step rfl rfl (.kept (by simp)) fun normed normed' => ?_
    refine .step rfl rfl (.kept (by simp [hx])) fun inputShape inputShape' => ?_
    refine .step rfl rfl (.kept (by simp)) fun output output' => .constant rfl fun axes => ?_
    refine .step rfl rfl (.passed (by simp) (by simp [hscale])) fun weight weight' => ?_
    refine .step rfl rfl (.passed (by simp) (by simp [hbias])) fun shift shift' => ?_
    refine .step rfl rfl (.kept (by simp)) fun scaled scaled' => ?_
    exact .last rfl rfl fun houts => .kept (by simp) houts (.nil rfl)
  · exact .refused _

/-! ## A norm that differs -/

/-- **A norm of order 1 that keeps its axis**, and has an output. -/
structure OpNode.KeepsFirstNorm (op : OpNode) : Prop where
  type : op.type = "p_norm"
  axis : (op.attr "axis").same (.int 1) = true
  order : (op.attr "porder").same (.int 1) = true
  keeps : (op.attr "keepdim").truthy = true
  output : ∃ v, op.output "Out" = .ok v

/-- A norm as one node. -/
def plainNorm (op : OpNode) (x : Value) : Emit Unit := do
  discard <| nodeTo "LpNormalization" (.list [x]) (← op.output "Out") [("axis", .int 1), ("p", op.attr "porder")]

/-- A norm as the root of a sum of powers. -/
def powerNorm (op : OpNode) (x : Value) : Emit Unit := do
  let order ← Emit.constant ElementType.FLOAT (.list [op.attr "porder"])
  let powers ← node "Pow" (.list [x, order])
  let sum ← sumOverSecond true powers (op.attr "keepdim")
  let inverse ← Value.div (.float 1.0) (op.attr "porder")
  let inverseOrder ← Emit.constant ElementType.FLOAT (.list [inverse])
  discard <| nodeTo "Pow" (.list [sum, inverseOrder]) (← op.output "Out")

omit [op.Plain] in
theorem pNorm_eq (horder : (op.attr "porder").same (.int 1) = true) (hkeeps : (op.attr "keepdim").truthy = true)
    (haxis : (op.attr "axis").same (.int 1) = true) :
    ∃ x, Node.endpoint x = x ∧ pNorm false op = plainNorm op x ∧ pNorm true op = powerNorm op x := by
  have hplain : isPlainNorm false (op.attr "porder") (op.attr "keepdim") = true := by simp [isPlainNorm, horder]
  have hpower : isPlainNorm true (op.attr "porder") (op.attr "keepdim") = false := by simp [isPlainNorm, hkeeps]
  obtain ⟨x, hx⟩ : ∃ x, op.inputAt "X" 0 = .ok x := by
    by_cases hfilled : op.Filled "X"
    · obtain ⟨x, xs, hxs⟩ := hfilled.names
      exact ⟨_, OpNode.inputAt_of_strs hxs⟩
    · exact ⟨_, op.inputAt_of_not_filled hfilled⟩
  refine ⟨x, (OpNode.Fed.inputAt_mem op hx).1, ?_, ?_⟩
  · rw [pNorm, hx, computed_bind]
    simp only [haxis, hplain, if_true]
    rfl
  · rw [pNorm, hx, computed_bind]
    simp only [haxis, hpower, if_true, Bool.false_eq_true, if_false]
    rfl

omit [op.Plain] [op.Fed] in
theorem isPlainNorm_eq (h : ¬ ((op.attr "porder").same (.int 1) = true ∧ (op.attr "keepdim").truthy = true)) :
    isPlainNorm true (op.attr "porder") (op.attr "keepdim") =
      isPlainNorm false (op.attr "porder") (op.attr "keepdim") := by
  unfold isPlainNorm
  cases horder : (op.attr "porder").same (.int 1) <;> cases hkeeps : (op.attr "keepdim").truthy <;> simp_all

omit [op.Plain] [op.Fed] in
/-- The sum of powers needs an output, and is written without the node of the other form. -/
theorem powerNorm_ok {x : Value} {d d' : Draft} (h : run (powerNorm op x) d = .ok () d') :
    (∃ v, op.output "Out" = .ok v) ∧ d'.count "LpNormalization" = d.count "LpNormalization" := by
  have hnode : ∀ {type : String} {inputs outputs v : Value} {attrs : Attrs} {d d' : Draft},
      run (nodeTo type inputs outputs attrs) d = .ok v d' → "LpNormalization" ≠ type →
        d'.count "LpNormalization" = d.count "LpNormalization" := fun hrun hne => by
    obtain ⟨n, hn, -⟩ := nodeNamed_ok hrun
    exact hn.other _ hne
  unfold powerNorm sumOverSecond Emit.constant Emit.node at h
  obtain ⟨order, d₁, h₁, h⟩ := bind_ok h
  obtain ⟨powers, d₂, h₂, h⟩ := bind_ok h
  obtain ⟨sum, d₄, hsum, h⟩ := bind_ok h
  obtain ⟨axes, d₃, h₃, h₄⟩ := bind_ok hsum
  obtain ⟨inverse, -, h⟩ := computed_ok h
  obtain ⟨inverseOrder, d₅, h₅, h⟩ := bind_ok h
  obtain ⟨v, hv, h⟩ := computed_ok h
  obtain ⟨_, d₆, h₆, h⟩ := bind_ok h
  obtain ⟨-, rfl⟩ := pure_ok h
  refine ⟨⟨v, hv⟩, ?_⟩
  rw [hnode h₆ (by decide), hnode h₅ (by decide), hnode h₄ (by decide), hnode h₃ (by decide), hnode h₂ (by decide),
    hnode h₁ (by decide)]

end Rules

/-- **A norm of order 1 that keeps its axis** is one node, and a root of a sum of powers from version 13 on. -/
theorem OpNode.KeepsFirstNorm.not_agree {op : OpNode} [op.Plain] [op.Fed] (h : op.KeepsFirstNorm) (d e : Draft) :
    ¬ Agree op {} (pNorm false op) (pNorm true op) d e := by
  obtain ⟨x, hx, hplain, hpower⟩ := pNorm_eq op h.order h.keeps h.axis
  obtain ⟨v, hv⟩ := h.output
  obtain ⟨os, rfl⟩ := OpNode.Plain.output op hv
  obtain ⟨n, htype, hem⟩ : ∃ n, n.type = "LpNormalization" ∧ Emission (plainNorm op x) d (d.adding n) () [n] := by
    cases os with
    | nil => exact ⟨_, rfl, .computed hv (emission_node d rfl (by simp [Node.reserved])).discarded⟩
    | cons o os => exact ⟨_, rfl, .computed hv (emission_nodeTo d rfl o os (by simp [Node.reserved])).discarded⟩
  rw [hplain, hpower]
  rintro (⟨d', e', ns, ms, hns, hms, hrecast⟩ | ⟨f, f', d', e', hrun, -⟩)
  · have hlast := (EStateM.Result.ok.inj ((hns.puts []).symm.trans (hem.puts []))).2
    cases ns with
    | nil => simp [NodeMap.keep, htype, Node.isInterface, Assoc.insert] at hlast
    | cons a ns =>
      obtain ⟨m, hm, hsame⟩ := hrecast.exists_type mem_cons_self
      obtain ⟨k, -, hle, hlt⟩ := hns.numbered a mem_cons_self
      obtain ⟨j, -, hle', hlt'⟩ := hms.numbered m hm
      have hown : a.type = "LpNormalization" := by
        by_contra hne
        have hcount := congrArg (Draft.count · a.type) hlast
        change d'.count a.type = (d.adding n).count a.type at hcount
        rw [hcount, d.count_adding_other n (htype ▸ hne)] at hlt
        exact hle.not_gt hlt
      rw [hsame, hown] at hle' hlt'
      have hkept : e'.count "LpNormalization" = e.count "LpNormalization" := (powerNorm_ok op (hms.puts e.nodes)).2
      rw [hkept] at hlt'
      exact hle'.not_gt hlt'
  · cases hrun.symm.trans (hem.puts d.nodes)

theorem agree_pNorm_iff (op : OpNode) [op.Plain] [op.Fed] (htype : op.type = "p_norm") (d e : Draft) :
    Agree op {} (pNorm false op) (pNorm true op) d e ↔ ¬ op.KeepsFirstNorm := by
  refine ⟨fun hagree h => h.not_agree d e hagree, fun h => ?_⟩
  by_cases hkeeps : (op.attr "porder").same (.int 1) = true ∧ (op.attr "keepdim").truthy = true
  · by_cases haxis : (op.attr "axis").same (.int 1) = true
    · obtain ⟨x, -, hplain, hpower⟩ := pNorm_eq op hkeeps.1 hkeeps.2 haxis
      cases hout : op.output "Out" with
      | error s =>
        -- without an output both forms fail in the end
        have hfails : run (plainNorm op x) d = .error (.slip s) d := by
          rw [plainNorm, hout]
          rfl
        rw [hplain, hpower]
        cases hrun : run (powerNorm op x) e with
        | error f e' => exact Or.inr ⟨.slip s, f, d, e', hfails, hrun⟩
        | ok a e' =>
          obtain ⟨⟨v, hv⟩, -⟩ := powerNorm_ok op hrun
          cases hout.symm.trans hv
      | ok v => exact absurd ⟨htype, haxis, hkeeps.1, hkeeps.2, v, hout⟩ h
    · unfold pNorm
      simp only [haxis]
      exact Parallel.computed (fun _ _ => .refused _) d e
  · exact parallel_pNorm op (isPlainNorm_eq op hkeeps) d e

/-- Of two rules for one type, each is for the versions up to the next. -/
theorem Registry.ruleFor_pair {r : Registry} {t : String} {first last v w : Int} {older newer : Rule}
    (hrules : r.rulesOf (.str t) = some [(first, older), (last, newer)]) (hfirst : first ≤ v) (hlast : v < last)
    (hw : last ≤ w) : r.ruleFor t v = .ok older ∧ r.ruleFor t w = .ok newer := by
  have hlow : first ≠ last := by omega
  exact ⟨ruleFor_of_latest hrules (by simp) hfirst (by simp; omega),
    ruleFor_of_latest hrules (by simp [hlow]) hw (by simp; omega)⟩

/-- **Newer rules write what older ones wrote**, with axes as inputs, but for the norms of order 1 that keep
their axis. -/
theorem agree_newer_iff (op : OpNode) [op.Plain] [op.Fed] {first v w : Int}
    (htype : (op.type, first) ∈ [("prelu", 9), ("group_norm", 11), ("dot", 7), ("p_norm", 1)])
    (hfirst : first ≤ v) (hlast : v < 13) (hw : 13 ≤ w) :
    ∃ older newer, Registry.standard.ruleFor op.type v = .ok older ∧
      Registry.standard.ruleFor op.type w = .ok newer ∧
      ∀ d e, Agree op {} (older op) (newer op) d e ↔ ¬ op.KeepsFirstNorm := by
  have hno : op.type ≠ "p_norm" → ¬ op.KeepsFirstNorm := fun hne h => hne h.type
  simp only [mem_cons, Prod.mk.injEq, not_mem_nil, or_false] at htype
  rcases htype with ⟨ht, rfl⟩ | ⟨ht, rfl⟩ | ⟨ht, rfl⟩ | ⟨ht, rfl⟩
  · have hrules : Registry.standard.rulesOf (.str op.type) = some [(9, prelu false), (13, prelu true)] := by
      rw [ht]
      rfl
    obtain ⟨holder, hnewer⟩ := Registry.ruleFor_pair hrules hfirst hlast hw
    exact ⟨_, _, holder, hnewer, fun d e => iff_of_true (parallel_prelu op d e) (hno (by simp [ht]))⟩
  · have hrules : Registry.standard.rulesOf (.str op.type) = some [(11, groupNorm false), (13, groupNorm true)] := by
      rw [ht]
      rfl
    obtain ⟨holder, hnewer⟩ := Registry.ruleFor_pair hrules hfirst hlast hw
    exact ⟨_, _, holder, hnewer, fun d e => iff_of_true (parallel_groupNorm op d e) (hno (by simp [ht]))⟩
  · have hrules : Registry.standard.rulesOf (.str op.type) = some [(7, dot false), (13, dot true)] := by
      rw [ht]
      rfl
    obtain ⟨holder, hnewer⟩ := Registry.ruleFor_pair hrules hfirst hlast hw
    exact ⟨_, _, holder, hnewer, fun d e => iff_of_true (parallel_dot op d e) (hno (by simp [ht]))⟩
  · have hrules : Registry.standard.rulesOf (.str op.type) = some [(1, pNorm false), (13, pNorm true)] := by
      rw [ht]
      rfl
    obtain ⟨holder, hnewer⟩ := Registry.ruleFor_pair hrules hfirst hlast hw
    exact ⟨_, _, holder, hnewer, agree_pNorm_iff op ht⟩

/-- The sums of absolute values along the second axis. -/
def OpNode.absoluteSums : OpNode :=
  { name := "p_norm_0", type := "p_norm", inputs := [("X", .strs ["x"])], outputs := [("Out", .strs ["y"])]
    attrs := [("axis", .int 1), ("porder", .int 1), ("keepdim", .bool true)], block := none }

theorem agree_newer_iff_absoluteSums : ∃ older newer, Registry.standard.ruleFor "p_norm" 9 = .ok older ∧
    Registry.standard.ruleFor "p_norm" 13 = .ok newer ∧
    ∀ d e, ¬ Agree .absoluteSums {} (older .absoluteSums) (newer .absoluteSums) d e := by
  have hplain : OpNode.absoluteSums.Plain := ⟨forall_mem_singleton.2 ⟨["y"], rfl⟩⟩
  have hfed : OpNode.absoluteSums.Fed := ⟨forall_mem_singleton.2 ⟨["x"], rfl⟩⟩
  have hkeeps : OpNode.absoluteSums.KeepsFirstNorm := ⟨rfl, rfl, rfl, rfl, _, rfl⟩
  have htype : (OpNode.absoluteSums.type, (1 : Int)) ∈ [("prelu", 9), ("group_norm", 11), ("dot", 7), ("p_norm", 1)] := by
    decide
  obtain ⟨older, newer, holder, hnewer, hagree⟩ :=
    agree_newer_iff .absoluteSums htype (by decide : (1 : Int) ≤ 9) (by decide) (le_refl 13)
  exact ⟨older, newer, holder, hnewer, fun d e h => (hagree d e).1 h hkeeps⟩

end ModelExport
