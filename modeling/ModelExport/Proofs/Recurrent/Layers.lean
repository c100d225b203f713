import ModelExport.Proofs.Appending
import ModelExport.Proofs.Recurrent.Parameters

/-!
# Proofs/Recurrent/Layers — a stack of recurrent layers, node by node

    parameters ──┐
    states ──────┤
    sequence ── cell ── Transpose ── Reshape ── the next cell …

The nodes of a layer are those that prepare (`Prepares`), one cell, and those that bring its sequence into the
form that the next cell reads.  So a stack of layers is a list of cells, each with its own part of the
parameters and states (`Recurrence.IsCell`), and only the last one writes the final states.
-/

namespace ModelExport

open Emit List Rules

variable {α β : Type}

/-! ## Names that are counted -/

/-- **Names that are counted** from one draft to another, each once. -/
structure Draft.Counted (d d' : Draft) (names : List String) : Prop where
  distinct : names.Nodup
  counted : ∀ s ∈ names, ∃ type k, s = numbered type k ∧ d.count type ≤ k ∧ k < d'.count type

namespace Draft.Counted

variable {d d₁ d' : Draft} {xs ys : List String}

theorem nil (d d' : Draft) : d.Counted d' [] := ⟨nodup_nil, forall_mem_nil _⟩

/-- **Names that are counted later are others.** -/
theorem append (hx : d.Counted d₁ xs) (hy : d₁.Counted d' ys) (h₁ : ∀ t, d.count t ≤ d₁.count t)
    (h₂ : ∀ t, d₁.count t ≤ d'.count t) : d.Counted d' (xs ++ ys) where
  distinct := by
    refine nodup_append.2 ⟨hx.distinct, hy.distinct, ?_⟩
    rintro s hs t ht rfl
    obtain ⟨type, i, hi, -, hlt⟩ := hx.counted s hs
    obtain ⟨type', j, hj, hle, -⟩ := hy.counted s ht
    obtain ⟨rfl, rfl⟩ := numbered_inj.1 (hi.symm.trans hj)
    exact absurd hlt (Nat.not_lt.2 hle)
  counted s hs := by
    rcases mem_append.1 hs with hs | hs
    · obtain ⟨type, k, hk, hle, hlt⟩ := hx.counted s hs
      exact ⟨type, k, hk, hle, hlt.trans_le (h₂ type)⟩
    · obtain ⟨type, k, hk, hle, hlt⟩ := hy.counted s hs
      exact ⟨type, k, hk, (h₁ type).trans hle, hlt⟩

theorem of_numberedFrom {type : String} {i n : Nat} (hle : d.count type ≤ i) (hlt : i + n ≤ d'.count type) :
    d.Counted d' (numberedFrom type i n) where
  distinct := nodup_numberedFrom type i n
  counted s hs := by
    obtain ⟨k, rfl, hik, hk⟩ := mem_numberedFrom.1 hs
    exact ⟨type, k, rfl, hle.trans hik, hk.trans_le hlt⟩

end Draft.Counted

/-! ## Runs with cells -/

/-- **What a run builds**: which nodes are cells, and which names are written: some that are given and, each once,
names that are counted on the way. -/
structure Builds (cell : Cell) (base : Draft) (sources ws : List Value) (x : Emit α) (d d' : Draft) (a : α)
    (named : List String) (cells ns : List Node) : Prop extends Reading base sources ws x d d' a ns where
  cells : (ns.filter fun n => n.type == cell.type) = cells
  names : ∃ made, d.Counted d' made ∧ (ns.flatMap Node.outputs).Perm ((named ++ made).map Value.str)

namespace Builds

variable {cell : Cell} {base : Draft} {sources ws ws' : List Value} {x : Emit α} {f : α → Emit β} {d d₁ d' : Draft}
  {a : α} {b : β} {named named' : List String} {cells cells' ns ms : List Node}

/-- **What runs build stands in a row.** -/
theorem bind (hx : Builds cell base sources ws x d d₁ a named cells ns)
    (hf : Builds cell base sources ws' (f a) d₁ d' b named' cells' ms) :
    Builds cell base sources (ws ++ ws') (x >>= f) d d' b (named ++ named') (cells ++ cells') (ns ++ ms) where
  toReading := hx.toReading.bind hf.toReading
  cells := by rw [filter_append, hx.cells, hf.cells]
  names := by
    obtain ⟨made, hmade, hperm⟩ := hx.names
    obtain ⟨made', hmade', hperm'⟩ := hf.names
    refine ⟨made ++ made', hmade.append hmade' hx.emission.counts hf.emission.counts, ?_⟩
    rw [flatMap_append]
    refine (hperm.append hperm').trans ?_
    rw [← map_append]
    exact (Batch.append_append_perm _ _ _ _).map _

theorem computed {e : Except Slip α} (ha : e = .ok a)
    (h : Builds cell base sources ws (f a) d d' b named cells ns) :
    Builds cell base sources ws (liftM e >>= f) d d' b named cells ns :=
  { h with emission := h.emission.computed ha }

/-- One node. -/
theorem single {n : Node} {made : List String} (hx : Reading base sources ws x d d' a [n])
    (hcells : (if n.type == cell.type then [n] else []) = cells) (hmade : d.Counted d' made)
    (hout : n.outputs.Perm ((named ++ made).map .str)) : Builds cell base sources ws x d d' a named cells [n] where
  toReading := hx
  cells := by rw [filter_cons, filter_nil, hcells]
  names := ⟨made, hmade, by rwa [flatMap_singleton]⟩

theorem texts (h : Builds cell base sources ws x d d' a named cells ns) :
    ∀ v ∈ ns.flatMap Node.outputs, ∃ s, v = .str s := fun v hv => by
  obtain ⟨made, -, hperm⟩ := h.names
  obtain ⟨s, -, rfl⟩ := mem_map.1 (hperm.subset hv)
  exact ⟨s, rfl⟩

/-- **Every tensor is written once**, where the names that are given are different, and not made up. -/
theorem nodup_outputs (h : Builds cell base sources ws x d d' a named cells ns) (hdistinct : named.Nodup)
    (hunmade : ∀ s ∈ named, d.Unmade (.str s)) : (ns.flatMap Node.outputs).Nodup := by
  obtain ⟨made, hmade, hperm⟩ := h.names
  have hnames : (named ++ made).Nodup := by
    refine nodup_append.2 ⟨hdistinct, hmade.distinct, ?_⟩
    rintro s hs t ht rfl
    obtain ⟨type, k, hk, hle, -⟩ := hmade.counted s ht
    exact hunmade s hs type k hle (congrArg Value.str hk)
  exact hperm.nodup_iff.2 (hnames.map fun _ _ => Value.str.inj)

end Builds

/-- **Nodes that prepare are no cells**, and write the names that they are given. -/
theorem Prepares.builds {base : Draft} {sources ws : List Value} {x : Emit α} {d d' : Draft} {a : α} {ns : List Node}
    (h : Prepares base sources ws x d d' a ns) (cell : Cell) : Builds cell base sources ws x d d' a [] [] ns where
  toReading := h.toReading
  cells := filter_eq_nil_iff.2 fun n hn htype => h.noCell n hn (by
    rw [eq_of_beq htype]
    cases cell <;> decide)
  names := by
    refine ⟨ns.map Node.name, ⟨h.emission.distinct, fun s hs => ?_⟩, ?_⟩
    · obtain ⟨n, hn, rfl⟩ := mem_map.1 hs
      exact ⟨n.type, h.emission.numbered n hn⟩
    · rw [flatMap_congr h.own, nil_append, map_map]
      exact .of_eq (map_eq_flatMap ..).symm

/-! ## The node of a cell -/

theorem run_freshNames (type : String) (n : Nat) (d : Draft) : ∃ d', EStateM.run (freshNames type n) d =
    .ok ((numberedFrom type (d.count type) n).map .str) d' ∧ Advances type n d d' := by
  obtain ⟨vs, d', h⟩ := freshNames_total type n d
  obtain ⟨rfl, hadv⟩ := freshNames_ok h
  exact ⟨d', h, hadv⟩

/-- **A request for outputs** that stands for `m` new names and those that are given behind them. -/
def Asks (type : String) (outputs : Value) (m : Nat) (named : List String) : Prop :=
  ∀ (name : String) (d : Draft), ∃ d', EStateM.run (outputsFor type name outputs) d =
    .ok (.list ((numberedFrom type (d.count type) m ++ named).map .str)) d' ∧ Advances type m d d'

/-- A number asks for new names. -/
theorem asks_int (type : String) (n : Nat) : Asks type (.int n) n [] := fun name d => by
  obtain ⟨d', h, hadv⟩ := run_freshNames type n d
  rw [append_nil]
  exact ⟨d', run_bind_of_ok h, hadv⟩

/-- A number in front of names asks for one more. -/
theorem asks_cons (type : String) (named : List String) :
    Asks type (.list (.int 1 :: named.map .str)) 1 named := fun name d => by
  obtain ⟨-, hadv⟩ := freshName_ok (d := d) (rfl : EStateM.run (freshName type) d = .ok _ _)
  have hrest := outputNames_strs type named { d with counts := (d.counts.next type).2 }
  have hfirst : EStateM.run (outputName type (.int 1)) d =
      .ok (.str (numbered type (d.count type))) { d with counts := (d.counts.next type).2 } := rfl
  exact ⟨_, run_bind_of_ok ((run_bind_of_ok hfirst).trans (run_bind_of_ok hrest)), hadv⟩

/-- **A node that writes new names and given ones.** -/
theorem emission_asks {type : String} {ins : List Value} {attrs : Attrs} {outputs : Value} {m : Nat}
    {named : List String} (hasks : Asks type outputs m named) (d : Draft) (htexts : ∀ v ∈ ins, ∃ s, v = .str s)
    (hattrs : ∀ a ∈ attrs, a.1 ∉ Node.reserved) :
    let os := (numberedFrom type (d.count type + 1) m ++ named).map Value.str
    ∃ d', Emission (nodeTo type (.list ins) outputs attrs) d d' (result os) [.asked type (d.count type) ins os attrs] ∧
      d'.opset = d.opset ∧ d'.count type = d.count type + 1 + m := by
  intro os
  have hfresh : EStateM.run (freshName type) d =
      .ok (numbered type (d.count type)) { d with counts := (d.counts.next type).2 } := rfl
  obtain ⟨-, hadv⟩ := freshName_ok hfresh
  obtain ⟨d', hrun, hadv'⟩ := hasks (numbered type (d.count type)) { d with counts := (d.counts.next type).2 }
  rw [hadv.own] at hrun
  have hends : os.map Node.endpoint = os := by
    rw [map_map]
    rfl
  have hrecorded : Node.recorded type (numbered type (d.count type)) (givenInputs (.list ins)) (.list os) attrs .none =
      .ok (.asked type (d.count type) ins os attrs) :=
    recorded_asked _ (inputList_texts htexts) hends (Or.inr hattrs)
  refine ⟨_, emission_of_parts hfresh rfl hrun hrecorded, ?_, ?_⟩
  · rw [hadv'.only]
  · exact hadv'.own.trans (congrArg (· + m) hadv.own)

/-! ## One layer -/

/-- What nodes of a stack may read, besides its parameters and what they make up: the sequence, no lengths, and the
initial states. -/
def Recurrence.sources (r : Recurrence) : List Value := .str r.input :: .str "" :: r.initial.map .str

namespace Recurrence

variable (r : Recurrence) (layer : Nat)

/-- **What a layer is asked to write**: by its cell, and in the end.  The last one writes the results of the stack. -/
def requested : Value × Value :=
  if layer + 1 = r.layers then (.list (.int 1 :: r.final.map .str), .strs [r.out]) else (.int r.cell.outputCount, .none)

/-- How many names the cell of a layer makes up. -/
def fresh : Nat := if layer + 1 = r.layers then 1 else r.cell.outputCount

/-- The names that the cell of a layer is given to write. -/
def finals : List String := if layer + 1 = r.layers then r.final else []

/-- The names that are given for the sequence of a layer. -/
def ends : List String := if layer + 1 = r.layers then [r.out] else []

/-- **The outputs of a cell**: its sequence, under the first name that it makes up, and its states. -/
theorem outputs_eq (k : Nat) : ∃ vs, (numberedFrom r.cell.type k (r.fresh layer) ++ r.finals layer).map Value.str =
    .str (numbered r.cell.type k) :: vs ∧ vs.length + 1 = r.cell.outputCount ∧
      (layer + 1 = r.layers → vs = r.final.map .str) := by
  unfold fresh finals
  split
  · exact ⟨r.final.map .str, rfl, by rw [length_map, r.final_length], fun _ => rfl⟩
  · have hcount : r.cell.outputCount = r.cell.outputCount - 1 + 1 := by cases r.cell <;> rfl
    refine ⟨(numberedFrom r.cell.type (k + 1) (r.cell.outputCount - 1)).map .str, ?_, ?_, fun h => absurd h ‹_›⟩
    · rw [append_nil, hcount, numberedFrom, range'_succ]
      rfl
    · rw [length_map, numberedFrom, length_map, length_range', ← hcount]

theorem asks_requested : Asks r.cell.type (r.requested layer).1 (r.fresh layer) (r.finals layer) := by
  unfold requested fresh finals
  split
  · exact asks_cons r.cell.type r.final
  · exact asks_int r.cell.type r.cell.outputCount

theorem layerOutputs_eq {op : OpNode} (h : op.Recurs r) :
    layerOutputs r.cell op (layer + 1 == r.layers) = .ok (r.requested layer) := by
  have hfinal : op.output "State" = .ok (.strs r.final) := by simp only [OpNode.output, h.final]
  have hout : op.output "Out" = .ok (.strs [r.out]) := by simp only [OpNode.output, h.output]
  unfold layerOutputs requested
  by_cases hlast : layer + 1 = r.layers
  · rw [if_pos (beq_iff_eq.2 hlast), if_pos hlast, hfinal, hout]
    rfl
  · rw [if_neg (mt beq_iff_eq.1 hlast), if_neg hlast]

end Recurrence

/-- In how many directions a cell goes over its sequence. -/
def Node.directions (n : Node) : Nat := if (n.attr "direction").same (.str "bidirectional") then 2 else 1

/-- **The cell of a layer**, among the nodes of a stack. -/
structure Recurrence.IsCell (r : Recurrence) (version : Int) (ns : List Node) (layer : Nat) (n : Node) : Prop where
  reads : ∃ v ps ss, n.inputs = v :: (ps ++ ss) ∧ r.Parameters version ns layer ps ∧
    List.Forall₂ (fun s u => (r.stateCut layer).Made version ns (.str s) u) r.initial ss
  directions : n.directions = r.directions
  outputs : n.outputs.length = r.cell.outputCount
  final : layer + 1 = r.layers → n.outputs.tail = r.final.map .str

theorem Recurrence.IsCell.mono {r : Recurrence} {version : Int} {ns ms : List Node} {layer : Nat} {n : Node}
    (hsub : ns ⊆ ms) (h : r.IsCell version ns layer n) : r.IsCell version ms layer n := by
  obtain ⟨v, ps, ss, hins, hps, hss⟩ := h.reads
  exact { h with reads := ⟨v, ps, ss, hins, hps.mono hsub, hss.imp fun _ _ hs => hs.mono hsub⟩ }

section Layer

variable {op : OpNode} {r : Recurrence} {base d : Draft}

theorem cellAttrs_unreserved (cell : Cell) (op : OpNode) : ∀ a ∈ cellAttrs cell op, a.1 ∉ Node.reserved := by
  cases cell <;> simp [cellAttrs, Node.reserved]

theorem direction_cellAttrs (h : op.Recurs r) :
    ((Assoc.get? (cellAttrs r.cell op) "direction").getD .none).same (.str "bidirectional") = r.bidirectional := by
  have hdirection : (Assoc.get? (cellAttrs r.cell op) "direction").getD .none =
      .str (if (op.attr "is_bidirec").truthy then "bidirectional" else "forward") := by cases r.cell <;> rfl
  rw [hdirection, h.directions]
  cases r.bidirectional <;> rfl

/-- Outputs that are more than one are given as a list. -/
theorem result_cons {v : Value} {vs : List Value} (hvs : vs ≠ []) : result (v :: vs) = .list (v :: vs) := by
  obtain ⟨w, ws, rfl⟩ := exists_cons_of_ne_nil hvs
  rfl

/-- **The node of a cell.**  Its sequence is under the first name that it makes up. -/
theorem builds_cell (hbase : ∀ t, base.count t ≤ d.count t) (op : OpNode) (r : Recurrence) (layer : Nat)
    {sources ins : List Value} (htexts : ∀ v ∈ ins, ∃ s, v = .str s) (hins : ∀ v ∈ ins, v ∈ sources ∨ base.MadeUp v) :
    ∃ d' n v vs, Builds r.cell base sources []
        (nodeTo r.cell.type (.list ins) (r.requested layer).1 (cellAttrs r.cell op)) d d' (.list (v :: vs))
        (r.finals layer) [n] [n] ∧
      n.inputs = ins ∧ n.attrs = cellAttrs r.cell op ∧ n.outputs = v :: vs ∧ base.MadeUp v ∧
      vs.length + 1 = r.cell.outputCount ∧ (layer + 1 = r.layers → vs = r.final.map .str) := by
  obtain ⟨vs, houtputs, hlength, hlast⟩ := r.outputs_eq layer (d.count r.cell.type + 1)
  obtain ⟨d', hemission, hversion, hcount⟩ := emission_asks (r.asks_requested layer) d htexts
    (cellAttrs_unreserved r.cell op)
  have hmade := Draft.Counted.of_numberedFrom (Nat.le_succ (d.count r.cell.type)) hcount.ge
  have hother : (if r.cell.type == "Unsqueeze" then ins else []) = [] := by cases r.cell <;> rfl
  have hmany : vs ≠ [] := by
    rintro rfl
    cases hcell : r.cell <;> simp [hcell, Cell.outputCount] at hlength
  have hperm : List.Perm
      ((numberedFrom r.cell.type (d.count r.cell.type + 1) (r.fresh layer) ++ r.finals layer).map Value.str)
      ((r.finals layer ++ numberedFrom r.cell.type (d.count r.cell.type + 1) (r.fresh layer)).map .str) :=
    perm_append_comm.map _
  rw [houtputs] at hemission hperm
  rw [result_cons hmany] at hemission
  have hreading := Reading.single hemission hversion hother fun _ => hins
  exact ⟨d', .asked r.cell.type (d.count r.cell.type) ins _ _, _, vs,
    .single hreading (if_pos (beq_self_eq_true _)) hmade hperm, rfl, rfl, rfl,
    ⟨r.cell.type, _, Nat.le_succ_of_le (hbase _), rfl⟩, hlength, hlast⟩

/-- The sequence of a layer, with its directions side by side. -/
def joinDirections (cell : Cell) (target results : Value) : Emit Value :=
  match results with
  | .list (sequence :: rest) => do
    unless rest.length + 1 == cell.outputCount do slip .badValue
    let sequence ← node "Transpose" (.list [sequence]) [("perm", .ints [0, 2, 1, 3])]
    let shape ← constant ElementType.INT64 (.ints [0, 0, -1])
    nodeTo "Reshape" (.list [sequence, shape]) target
  | _ => slip .badValue

theorem recurrentLayer_eq (cell : Cell) (op : OpNode) (layers layer : Nat) (input : Value) :
    recurrentLayer cell op layers layer input = (do
      let parameters ← parameterInputs cell op layer (op.attr "hidden_size")
      let states ← initialStates cell op layer
      let outputs ← layerOutputs cell op (layer + 1 == layers)
      let results ← nodeTo cell.type (.list (input :: (parameters ++ states))) outputs.1 (cellAttrs cell op)
      joinDirections cell outputs.2 results) := rfl

/-- **Behind a cell**, its sequence is brought into the form of its input. -/
theorem builds_joinDirections (hbase : ∀ t, base.count t ≤ d.count t) (sources : List Value) (cell : Cell)
    {v : Value} {vs : List Value} (hv : base.MadeUp v) (hlength : vs.length + 1 = cell.outputCount) {target : Value}
    {named : List String} {Q : Value → Prop} (htarget : ∀ (d : Draft) (us : List Value),
      (∀ t, base.count t ≤ d.count t) → (∀ u ∈ us, base.MadeUp u) → ∃ d' ns w,
        Builds cell base sources [] (nodeTo "Reshape" (.list us) target) d d' w named [] ns ∧ Q w) :
    ∃ d' ns w, Builds cell base sources [] (joinDirections cell target (.list (v :: vs))) d d' w named [] ns ∧ Q w := by
  obtain ⟨d₁, n₁, u₁, htranspose, -, hu₁⟩ := prepares_join hbase sources "Transpose" [("perm", .ints [0, 2, 1, 3])]
    (forall_mem_singleton.2 hv) (Or.inr (by simp [Node.reserved]))
  have hbase₁ := htranspose.counts hbase
  obtain ⟨d₂, n₂, u₂, hshape, -, hu₂⟩ := prepares_node hbase₁ sources "Constant" (.list [])
    [("dtype", .int ElementType.INT64), ("value", .ints [0, 0, -1])] rfl (Or.inl rfl) rfl fun _ => forall_mem_nil _
  obtain ⟨d₃, n₃, w, hreshape, hw⟩ := htarget d₂ [u₁, u₂] (hshape.counts hbase₁) (by simp [hu₁, hu₂])
  refine ⟨d₃, n₁ ++ (n₂ ++ n₃), w, ?_, hw⟩
  have heq : joinDirections cell target (.list (v :: vs)) = (do
      let sequence ← node "Transpose" (.list [v]) [("perm", .ints [0, 2, 1, 3])]
      let shape ← constant ElementType.INT64 (.ints [0, 0, -1])
      nodeTo "Reshape" (.list [sequence, shape]) target) := by
    rw [joinDirections, hlength, beq_self_eq_true]
    rfl
  rw [heq]
  exact (htranspose.builds cell).bind ((hshape.builds cell).bind hreshape)

/-- The sequence of a layer goes to the next one, or to the result of the stack. -/
theorem builds_target (r : Recurrence) (layer : Nat) (sources : List Value) (d : Draft) (us : List Value)
    (hbase : ∀ t, base.count t ≤ d.count t) (hus : ∀ u ∈ us, base.MadeUp u) : ∃ d' ns w,
      Builds r.cell base sources [] (nodeTo "Reshape" (.list us) (r.requested layer).2) d d' w (r.ends layer) [] ns ∧
        (layer + 1 ≠ r.layers → base.MadeUp w) := by
  unfold Recurrence.requested Recurrence.ends
  split
  case isTrue hlast =>
    have hin : Node.inputList (givenInputs (.list us)) = .ok us := inputList_texts fun u hu => (hus u hu).text
    let n := Node.asked "Reshape" (d.count "Reshape") us [.str r.out] []
    have hreading : Reading base sources [] (nodeTo "Reshape" (.list us) (.strs [r.out])) d (d.adding n) (.str r.out)
        [n] :=
      .single (emission_nodeTo d hin r.out [] (Or.inr (forall_mem_nil _))) rfl rfl fun _ u hu => Or.inr (hus u hu)
    exact ⟨d.adding n, [n], .str r.out, .single hreading (by cases r.cell <;> rfl) (.nil _ _) (.refl _), absurd hlast⟩
  case isFalse =>
    obtain ⟨d', ns, w, hreshape, -, hw⟩ := prepares_join hbase sources "Reshape" [] hus (Or.inr (forall_mem_nil _))
    exact ⟨d', ns, w, hreshape.builds r.cell, fun _ => hw⟩

theorem text_of_sources {v : Value} (hv : v ∈ r.sources ∨ base.MadeUp v) : ∃ s, v = .str s := by
  rcases hv with hv | hv
  · simp only [Recurrence.sources, mem_cons, mem_map] at hv
    rcases hv with rfl | rfl | ⟨s, -, rfl⟩
    · exact ⟨_, rfl⟩
    · exact ⟨_, rfl⟩
    · exact ⟨s, rfl⟩
  · exact hv.text

/-- **One layer**: the nodes that prepare what its cell reads, the cell, and those that bring its sequence into the
form of its input. -/
theorem builds_layer (h : op.Recurs r) (hbase : ∀ t, base.count t ≤ d.count t) {layer : Nat} (hlayer : layer < r.layers)
    {v : Value} (hv : v ∈ r.sources ∨ base.MadeUp v) : ∃ d' ns n w,
      Builds r.cell base r.sources (r.ofLayer layer) (recurrentLayer r.cell op r.layers layer v) d d' w
        (r.finals layer ++ r.ends layer) [n] ns ∧
      r.IsCell d.opset ns layer n ∧ (layer + 1 ≠ r.layers → base.MadeUp w) := by
  obtain ⟨d₁, n₁, ps, hparameters, hps, hpsMade⟩ := prepares_parameterInputs hbase r.sources hlayer h
  have hbase₁ := hparameters.counts hbase
  obtain ⟨d₂, n₂, ss, hstates, hss, hssMade⟩ := prepares_initialStates hbase₁ r.sources h
    (fun s hs => by simp [Recurrence.sources, hs]) layer
  have hbase₂ := hstates.counts hbase₁
  have hins : ∀ u ∈ v :: (ps ++ ss), u ∈ r.sources ∨ base.MadeUp u := by
    refine forall_mem_cons.2 ⟨hv, forall_mem_append.2 ⟨fun u hu => ?_, fun u hu => Or.inr (hssMade u hu)⟩⟩
    exact (hpsMade u hu).imp_left fun he => by simp [Recurrence.sources, he]
  obtain ⟨d₃, n, u, us, hcell, hinputs, hattrs, houtputs, hu, hlength, hlast⟩ := builds_cell hbase₂ op r layer
    (fun u hu => text_of_sources (hins u hu)) hins
  obtain ⟨d₄, n₄, w, hjoin, hw⟩ := builds_joinDirections (hcell.counts hbase₂) r.sources r.cell hu hlength
    (builds_target r layer r.sources)
  refine ⟨d₄, n₁ ++ (n₂ ++ ([n] ++ n₄)), n, w, ?_, ?_, hw⟩
  · have hall : Builds r.cell base r.sources (r.ofLayer layer ++ ([] ++ ([] ++ [])))
        (recurrentLayer r.cell op r.layers layer v) d d₄ w ([] ++ ([] ++ (r.finals layer ++ r.ends layer)))
        ([] ++ ([] ++ ([n] ++ []))) (n₁ ++ (n₂ ++ ([n] ++ n₄))) := by
      rw [recurrentLayer_eq, h.hidden]
      exact (hparameters.builds r.cell).bind ((hstates.builds r.cell).bind
        (.computed (r.layerOutputs_eq layer h) (hcell.bind hjoin)))
    simpa only [nil_append, append_nil] using hall
  · rw [hparameters.version] at hss
    constructor
    case reads =>
      exact ⟨v, ps, ss, hinputs, hps.mono (by simp), hss.imp fun _ _ h => h.mono fun _ hn => by simp [hn]⟩
    case directions => rw [Node.directions, Node.attr, hattrs, direction_cellAttrs h, Recurrence.directions]
    case outputs => rw [houtputs, length_cons, hlength]
    case final => exact fun h => by rw [houtputs, tail_cons, hlast h]

/-- **Layers in a row.**  Each has one cell, and what it reads is its own part of the parameters and states. -/
theorem builds_layers (h : op.Recurs r) (hbase : ∀ t, base.count t ≤ d.count t) {first n : Nat}
    (hfits : first + n = r.layers) {v : Value} (hv : 0 < n → v ∈ r.sources ∨ base.MadeUp v) : ∃ d' ns cells,
      Builds r.cell base r.sources ((List.range' first n).flatMap r.ofLayer)
        (recurrentLayers r.cell op r.layers (List.range' first n) v) d d' () 
        ((List.range' first n).flatMap fun layer => r.finals layer ++ r.ends layer)
        cells ns ∧
      List.Forall₂ (r.IsCell d.opset ns) (List.range' first n) cells := by
  induction n generalizing first d v with
  | zero => exact ⟨d, [], [], (Prepares.pure base r.sources () d).builds r.cell, .nil⟩
  | succ n ih =>
    obtain ⟨d₁, n₁, c, w, hlayer, hcell, hw⟩ := builds_layer h hbase (show first < r.layers by omega) (hv n.succ_pos)
    have hnext : 0 < n → w ∈ r.sources ∨ base.MadeUp w := fun hn => Or.inr (hw (by omega))
    obtain ⟨d₂, n₂, cs, hrest, hcells⟩ := ih (hlayer.counts hbase) (show first + 1 + n = r.layers by omega) hnext
    rw [hlayer.version] at hcells
    refine ⟨d₂, n₁ ++ n₂, c :: cs, ?_, ?_⟩
    · exact hlayer.bind hrest
    · exact .cons (hcell.mono (by simp)) (hcells.imp fun _ _ h => h.mono (by simp))

/-! ## The whole stack -/

theorem Recurrence.flatMap_named (hlayers : 0 < r.layers) :
    (List.range r.layers).flatMap (fun layer => r.finals layer ++ r.ends layer) = r.final ++ [r.out] := by
  obtain ⟨n, hn⟩ := Nat.exists_eq_succ_of_ne_zero hlayers.ne'
  have hinner : ∀ layer ∈ List.range n, r.finals layer ++ r.ends layer = [] := fun layer hlayer => by
    have hne : layer + 1 ≠ r.layers := by
      have := mem_range.1 hlayer
      omega
    rw [finals, ends, if_neg hne, if_neg hne, append_nil]
  rw [hn, range_succ, flatMap_append, flatMap_eq_nil_iff.2 hinner, nil_append,
    flatMap_singleton, finals, ends, if_pos hn.symm, if_pos hn.symm]

theorem builds_recurrent (h : op.Recurs r) (hlayers : 0 < r.layers) (d : Draft) : ∃ d' ns cells,
    Builds r.cell d r.sources ((List.range r.layers).flatMap r.ofLayer) (recurrent op) d d' () (r.final ++ [r.out])
      cells ns ∧
    List.Forall₂ (r.IsCell d.opset ns) (List.range r.layers) cells := by
  have hinput : op.inputAt "Input" 0 = .ok (.str r.input) := by
    rw [OpNode.inputAt, h.input]
    rfl
  have hcell : Cell.of? (op.attr "mode") = some r.cell := by
    rw [h.mode]
    cases r.cell <;> rfl
  have hexact : (op.attr "num_layers").exact = .ok (r.layers : Int) := by
    rw [h.layers]
    rfl
  obtain ⟨d', ns, cells, hbuilds, hcells⟩ := builds_layers h (fun t => le_refl (d.count t)) (Nat.zero_add r.layers)
    fun _ => Or.inl (mem_cons_self : .str r.input ∈ r.sources)
  rw [← range_eq_range'] at hbuilds hcells
  rw [r.flatMap_named hlayers] at hbuilds
  refine ⟨d', ns, cells, .computed hinput ?_, hcells⟩
  rw [hcell]
  exact .computed hexact hbuilds

/-- **An operator that asks for a stack of layers** is mapped to the nodes of these layers. -/
theorem emission_recurrent (exportType : ExportType) (depth : Nat) (h : op.Recurs r) (hlayers : 0 < r.layers)
    (hversion : 9 ≤ d.opset) : ∃ d' ns cells,
      Builds r.cell d r.sources ((List.range r.layers).flatMap r.ofLayer)
        (mapUpTo Registry.standard exportType (depth + 1) op) d d' () (r.final ++ [r.out]) cells ns ∧
      List.Forall₂ (r.IsCell d.opset ns) (List.range r.layers) cells := by
  have hno : Registry.standard.composite? (.str op.type) = none := by rw [h.type]; rfl
  have hrules : Registry.standard.rulesOf (.str op.type) = some [(9, recurrent)] := by rw [h.type]; rfl
  have hrule := Registry.ruleFor_of_latest hrules rfl hversion (by simp)
  obtain ⟨d', ns, cells, hbuilds, hcells⟩ := builds_recurrent h hlayers d
  exact ⟨d', ns, cells, { hbuilds with emission := emission_mapUpTo_of_rule hno hrule hbuilds.emission }, hcells⟩

end Layer

end ModelExport
