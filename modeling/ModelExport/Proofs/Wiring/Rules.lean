import ModelExport.Proofs.Emission.Shaping
import ModelExport.Proofs.Wiring.Yields

/-!
# Proofs/Wiring/Rules — what the rules of layers and functions read

Each rule reads what its operator reads, provided that the slots hold names whose first name it asks for
without looking (`OpNode.Filled`).  Slots that are joined stay within what is known (`Joined`), and so
does what comes out of the layers of a recurrent stack (`wires_recurrentLayers`).
-/

namespace ModelExport

open Emit List Rules

-- the size of an instance grows with the number of steps
set_option synthInstance.maxSize 1000000000

/-! ## Pieces that many rules share -/

/-- A bound that is known, if it is a name at all. -/
class Bound (A : List Value) (v : Value) : Prop where
  reads : ∀ {s : String}, v = .str s → Known A (.str s)

namespace Bound

variable {A : List Value} {v : Value}

instance cons (w : Value) [h : Bound A v] : Bound (w :: A) v :=
  ⟨fun hs => have := h.reads hs; inferInstance⟩

instance float (x : Float) : Bound A (.float x) := ⟨fun h => nomatch h⟩

end Bound

namespace Yields

variable {A : List Value}

instance cut (s : String) (axes starts ends : Value) [Known A (.str s)] :
    Yields A .name (Emit.cut (.str s) axes starts ends) := by
  unfold Emit.cut cutTo; infer_instance

instance boundInput (v : Value) [h : Bound A v] : Yields A .name (Emit.boundInput v) := by
  unfold Emit.boundInput
  cases v with
  | str s =>
    have := h.reads rfl
    exact inferInstanceAs (Yields A .name (Emit.node "Squeeze" (.str s) _))
  | _ => exact inferInstanceAs (Yields A .name (Emit.constant ElementType.FLOAT _))

instance bound (s : String) (upper lower outputs : Value) [Known A (.str s)] [Bound A upper]
    [Bound A lower] : Wires A (Emit.bound (.str s) upper lower outputs) := by
  unfold Emit.bound; infer_instance

instance bound_name (s : String) (upper lower : Value) [Known A (.str s)] [Bound A upper]
    [Bound A lower] : Yields A .name (Emit.bound (.str s) upper lower (.list [])) := by
  unfold Emit.bound; infer_instance

instance insertAxes (asInput : Bool) (s : String) (axes : List Int) [Known A (.str s)] :
    Yields A .name (Rules.insertAxes asInput (.str s) axes) := by
  unfold Rules.insertAxes; infer_instance

instance transposedIf (flag : Value) (op : OpNode) (slot s : String) [Known A (.str s)] :
    Yields A .name (Rules.transposedIf flag op slot (.str s)) := by
  unfold Rules.transposedIf; infer_instance

instance alignedOperand (axis : Value) (xShape yShape : List Int) (s : String) [Known A (.str s)] :
    Yields A .name (Rules.alignedOperand axis xShape yShape (.str s)) := by
  unfold Rules.alignedOperand; infer_instance

instance sumOverSecond (axesAsInput : Bool) (s : String) (keepdims : Value) [Known A (.str s)] :
    Yields A .name (Rules.sumOverSecond axesAsInput (.str s) keepdims) := by
  unfold Rules.sumOverSecond; infer_instance

instance channelWeights (axesAsInput : Bool) (s t : String) [Known A (.str s)] [Known A (.str t)] :
    Yields A .pair (Rules.channelWeights axesAsInput (.str s) (.str t)) := by
  unfold Rules.channelWeights; infer_instance

instance unsqueezeTimes (n : Nat) (s : String) [Known A (.str s)] :
    Yields A .name (Rules.unsqueezeTimes n (.str s)) := by
  induction n generalizing A s with
  | zero => exact pure_name s
  | succ n ih => exact bind_name _ _

instance clampAxis (size : Int) (paddings kernel : Value) (i : Int) :
    Wires A (Rules.clampAxis size paddings kernel i) := by
  unfold Rules.clampAxis
  refine known fun padded _ => ?_
  cases padded <;> infer_instance

end Yields

/-! ## Slots one after another -/

/-- No slot, or names that are known. -/
def Joined (A : List Value) (v : Value) : Prop := v = .none ∨ ∃ xs, v = .strs xs ∧ xs.map Value.str ⊆ A

namespace Joined

variable {A : List Value} {op : OpNode} [op.Fed] [Holds A op]

theorem input (slot : String) : Joined A (op.input slot) :=
  (OpNode.Fed.input op slot).imp_right fun ⟨xs, hxs⟩ => ⟨xs, hxs, Holds.input_subset hxs⟩

omit [op.Fed] [Holds A op] in
theorem add {v w u : Value} (hv : Joined A v) (hw : Joined A w) (h : v.add w = .ok u) : Joined A u := by
  obtain rfl | ⟨xs, rfl, hxs⟩ := hv
  · cases h
  · obtain rfl | ⟨ys, rfl, hys⟩ := hw
    · cases h
    · obtain rfl := Except.ok.inj h
      refine Or.inr ⟨xs ++ ys, by rw [Value.strs, map_append], ?_⟩
      rw [map_append]
      exact append_subset.2 ⟨hxs, hys⟩

omit [op.Fed] [Holds A op] in
theorem reads {v : Value} (hv : Joined A v) : Reads A v := by
  obtain rfl | ⟨xs, rfl, hxs⟩ := hv
  · infer_instance
  · exact .strs hxs

theorem foldlM {slots : List String} {v w : Value} (hv : Joined A v)
    (h : slots.foldlM (fun acc s => acc.add (op.input s)) v = .ok w) : Joined A w := by
  induction slots generalizing v with
  | nil =>
    obtain rfl := Except.ok.inj h
    exact hv
  | cons slot slots ih =>
    obtain ⟨u, hu, hrest⟩ := except_bind_ok h
    exact ih (hv.add (input slot) hu) hrest

theorem joinedInputs {slots : List String} {v : Value} (h : joinedInputs op slots = .ok v) :
    Joined A v := by
  cases slots with
  | nil =>
    obtain rfl := Except.ok.inj h
    exact Or.inr ⟨[], rfl, nil_subset _⟩
  | cons slot slots => exact foldlM (input slot) h

end Joined

namespace Yields

variable {A : List Value} (op : OpNode) [op.Fed] [Holds A op]

instance add (s t : String) : Yields A .input (liftM ((op.input s).add (op.input t))) :=
  ofSlip_of fun h => ((Joined.input s).add (Joined.input t) h).reads

instance joinedInputs (slots : List String) : Yields A .input (liftM (Rules.joinedInputs op slots)) :=
  ofSlip_of fun h => (Joined.joinedInputs h).reads

end Yields

/-! ## Choices -/

section Rules

variable (op : OpNode) [op.Fed]

instance (type second : String) [op.Filled "X"] [op.Filled second] :
    Wires op.sources (binary type second op) := by
  unfold binary; infer_instance

instance (wide : Option String) [op.Filled "X"] [op.Filled "Index"] : Wires op.sources (gather wide op) := by
  unfold gather
  cases wide <;> infer_instance

theorem OpNode.filled_of_length {slot : String} {n : Nat} (h : (op.input slot).length = .ok n)
    (hn : n > 0) : op.Filled slot := by
  rcases OpNode.Fed.input op slot with hnone | ⟨xs, hxs⟩
  · rw [hnone] at h
    cases h
  · cases xs with
    | nil =>
      rw [hxs] at h
      exact absurd (Except.ok.inj h) hn.ne
    | cons x xs => exact ⟨x, xs, hxs⟩

/-- The count is read from its slot only if it is there. -/
instance : Yields op.sources .name (pickCount op) := by
  unfold pickCount
  cases op.hasInput "K" with
  | false =>
    simp only [Bool.false_eq_true, if_false, pure_bind]
    infer_instance
  | true =>
    simp only [if_true, bind_assoc, pure_bind]
    refine .known fun n hn => ?_
    by_cases hpos : n > 0
    · have := op.filled_of_length hn hpos
      infer_instance
    · simp only [hpos, decide_false, Bool.false_eq_true, if_false]
      infer_instance

end Rules

/-! ## Recurrent layers -/

section Parameters

variable {A : List Value}

theorem everySecond_subset {α : Type} : ∀ xs : List α, everySecond xs ⊆ xs
  | [] => List.Subset.refl _
  | [_] => List.Subset.refl _
  | x :: y :: xs => cons_subset_cons x (subset_cons_of_subset y (everySecond_subset xs))

theorem layerParameters_subset {α : Type} (ws : List α) (perLayer layer : Nat) :
    layerParameters ws perLayer layer ⊆ ws := by
  have hown : ∀ xs : List α, (xs.drop (layer * perLayer)).take perLayer ⊆ xs := fun xs =>
    List.Subset.trans (take_subset _ _) (drop_subset _ _)
  exact append_subset.2 ⟨List.Subset.trans (hown _) (take_subset _ _),
    List.Subset.trans (hown _) (drop_subset _ _)⟩

variable (ws : List Value) [h : Reads A (.list ws)]

instance : Reads A (.list (everySecond ws)) := h.of_subset (everySecond_subset ws)

instance (n : Nat) : Reads A (.list (ws.take n)) := h.of_subset (take_subset n ws)

instance (n : Nat) : Reads A (.list (ws.drop n)) := h.of_subset (drop_subset n ws)

instance (perLayer layer : Nat) : Reads A (.list (layerParameters ws perLayer layer)) :=
  h.of_subset (layerParameters_subset ws perLayer layer)

instance (v : Value) : Reads (v :: A) (.list ws) := h.mono (subset_cons_self v A)

instance (vs : List Value) : Reads (vs ++ A) (.list ws) := h.mono (subset_append_right vs A)

instance (vs : List Value) [hvs : Reads A (.list vs)] : Reads A (.list (vs ++ ws)) := by
  rw [Reads.list_iff, map_append]
  exact append_subset.2 ⟨Reads.list_iff.1 hvs, Reads.list_iff.1 h⟩

end Parameters

section Layers

variable {A : List Value}

instance (vs : List Value) [Reads A (.list vs)] : Yields A .inputs (withDirectionAxis vs) := by
  induction vs generalizing A with
  | nil => unfold withDirectionAxis; infer_instance
  | cons v vs ih =>
    rename_i h
    have hfirst : Reads A (.list [v]) := h.of_subset (by simp)
    have hrest : Reads A (.list vs) := h.of_subset (subset_cons_self v vs)
    unfold withDirectionAxis
    infer_instance

instance (s : String) (hidden : Value) (ranges : List (Int × Int)) [Known A (.str s)] :
    Yields A .inputs (gateBlocks (.str s) hidden ranges) := by
  induction ranges generalizing A with
  | nil => unfold gateBlocks; infer_instance
  | cons r ranges ih => unfold gateBlocks; infer_instance

instance (cell : Cell) (hidden : Value) (s : String) [Known A (.str s)] :
    Yields A .name (reorderGates cell hidden (.str s)) := by
  unfold reorderGates; infer_instance

variable (op : OpNode) [op.Fed] [Holds A op]

theorem OpNode.Fed.members {slot : String} {vs : List Value} (h : (op.input slot).members = .ok vs)
    {v : Value} (hv : v ∈ vs) : ∃ s, v = .str s ∧ Known A (.str s) := by
  rcases OpNode.Fed.input op slot with hnone | ⟨xs, hxs⟩
  · rw [hnone] at h
    cases h
  · rw [hxs] at h
    obtain rfl := Except.ok.inj h
    have hmem := Holds.input_subset (A := A) hxs hv
    obtain ⟨s, -, rfl⟩ := mem_map.1 hv
    exact ⟨s, rfl, ⟨hmem⟩⟩

instance (slot : String) : Yields A .inputs (liftM (op.input slot).members) :=
  .ofSlip_of fun h => Reads.list_iff.2 fun w hw => by
    obtain ⟨v, hv, rfl⟩ := mem_map.1 hw
    obtain ⟨s, rfl, hs⟩ := OpNode.Fed.members (A := A) op h hv
    exact hs.mem

instance (cell : Cell) (layer : Nat) (hidden : Value) [Known A (.str "")] :
    Yields A .inputs (parameterInputs cell op layer hidden) := by
  unfold parameterInputs; infer_instance

omit [op.Fed] [Holds A op] in
instance (layer : Nat) (s : String) [Known A (.str s)] :
    Yields A .name (layerState op layer (.str s)) := by
  unfold layerState; infer_instance

instance (cell : Cell) (layer : Nat) [op.Filled "PreState"] :
    Yields A .inputs (initialStates cell op layer) := by
  cases cell with
  | gru => unfold initialStates; infer_instance
  | lstm =>
    unfold initialStates
    refine .known fun vs hvs => ?_
    have hmember := fun v => OpNode.Fed.members (A := A) op hvs (v := v)
    split
    · rename_i h c
      obtain ⟨s, rfl, hs⟩ := hmember h (by simp)
      obtain ⟨t, rfl, ht⟩ := hmember c (by simp)
      infer_instance
    · infer_instance

/-- The sequence that comes out of a layer's node is the first of its outputs. -/
theorem yields_sequence {type : String} {inputs outputs : Value} {attrs : Attrs} [Reads A inputs]
    (h : ∀ v ∈ outputs.given, ∃ s, v = .str s) : Yields A .sequence (nodeTo type inputs outputs attrs) := by
  refine .nodeTo_of fun {d d' n} hn w ws hresult => ?_
  obtain ⟨m, own, -, -, hperm⟩ := hn.writes
  have htext : ∀ v ∈ n.outputs, ∃ s, v = .str s := by
    intro v hv
    rcases mem_append.1 (hperm.subset hv) with hv | hv
    · exact h v hv
    · obtain ⟨s, -, rfl⟩ := mem_map.1 hv
      exact ⟨s, rfl⟩
  have hw : w ∈ n.outputs := by
    unfold result at hresult
    split at hresult
    · rename_i x hx
      obtain ⟨s, rfl⟩ := htext x (hx ▸ mem_singleton_self x)
      cases hresult
    · rw [Value.list.inj hresult]
      exact mem_cons_self
  obtain ⟨s, rfl⟩ := htext w hw
  exact ⟨s, rfl, mem_append_right A hw⟩

variable [op.Plain] [op.Filled "PreState"] [Known A (.str "")] (cell : Cell)

omit [op.Fed] [Holds A op] [op.Filled "PreState"] [Known A (.str "")] in
theorem text_layerOutputs {isLast : Bool} {o t : Value} (h : layerOutputs cell op isLast = .ok (o, t)) :
    ∀ v ∈ o.given, ∃ s, v = .str s := by
  intro v hv
  have hslots := op.slots_subperm_written (by decide : ["State", "Out"].Nodup)
  have hmem := (given_layerOutputs op h).subset (mem_append_left _ hv)
  unfold layerNames at hmem
  split at hmem
  · exact text_of_mem_slots OpNode.Plain.names (hslots.subset (by simpa using hmem))
  · cases hmem

/-- **A layer reads the sequence before it**, its parameters and its states. -/
theorem yields_recurrentLayer {P : Promise Value} (layers layer : Nat) (s : String) [Known A (.str s)]
    (htarget : ∀ {B : List Value} {x y : String} {o t : Value} [Known B (.str x)] [Known B (.str y)],
      layerOutputs cell op (layer + 1 == layers) = .ok (o, t) →
        Yields B P (nodeTo "Reshape" (.list [.str x, .str y]) t)) :
    Yields A P (recurrentLayer cell op layers layer (.str s)) := by
  unfold recurrentLayer
  refine .after_inputs fun parameters => .after_inputs fun states => .known fun (o, t) hslots => ?_
  have hnode : ∀ (B : List Value) (inputs : Value) (attrs : Attrs) [Reads B inputs],
      Yields B .sequence (nodeTo cell.type inputs o attrs) :=
    fun _ _ _ => yields_sequence (text_layerOutputs op cell hslots)
  have hlast : ∀ (B : List Value) (x y : String) [Known B (.str x)] [Known B (.str y)],
      Yields B P (nodeTo "Reshape" (.list [.str x, .str y]) t) := fun _ _ _ => htarget hslots
  refine .after_sequence (fun q rest => inferInstance) fun v hv => ?_
  split
  · exact absurd rfl (hv _ _)
  · infer_instance

/-- **Layers read what comes out of the ones before them.**  The induction is on how many are left. -/
theorem wires_recurrentLayers (layers n layer : Nat) (s : String) [Known A (.str s)]
    (h : layer + n = layers) :
    Wires A (recurrentLayers cell op layers (List.range' layer n) (.str s)) := by
  induction n generalizing A layer s with
  | zero => exact .pure ()
  | succ n ih =>
    rw [range'_succ]
    unfold recurrentLayers
    -- only the last layer writes under the operator's own names, and no layer reads those
    by_cases hlast : layer + 1 = layers
    · obtain rfl : n = 0 := by omega
      have := yields_recurrentLayer (A := A) (P := .any) op cell layers layer s fun _ => inferInstance
      have hdone : ∀ v, Wires A (recurrentLayers cell op layers (List.range' (layer + 1) 0) v) :=
        fun _ => .pure ()
      infer_instance
    · have hfalse : (layer + 1 == layers) = false := by simpa using hlast
      have hname := yields_recurrentLayer (A := A) (P := .name) op cell layers layer s fun h => by
        rw [hfalse] at h
        obtain ⟨-, rfl⟩ := Prod.mk.inj (Except.ok.inj h)
        infer_instance
      have hrest := fun t => ih (A := .str t :: A) (layer + 1) t (by omega)
      infer_instance

instance [op.Filled "Input"] : Wires op.sources (recurrent op) := by
  unfold recurrent
  refine @Yields.bind_name _ _ _ _ _ inferInstance fun s => ?_
  split
  · infer_instance
  · refine .known fun layers _ => ?_
    simp only [range_eq_range']
    exact wires_recurrentLayers op _ _ _ _ s (Nat.zero_add _)

end Layers

end ModelExport
