import ModelExport.Proofs.Emission.Elementwise

/-!
# Proofs/Emission/Shaping — what rules for shapes, layers and fillings write

A stack of recurrent layers writes the operator's names in its last layer only
(`emits_recurrentLayers`).  Given values become a weight under the name of the output
(`grows_keepWeight`).
-/

namespace ModelExport

open Emit List Rules

-- the size of an instance grows with the number of steps
set_option synthInstance.maxSize 1000000000

/-! ## Building blocks -/

section Building

variable {V : List Value} (op : OpNode)

instance (slot : String) : Emits V (alignedInputs op slot) := by unfold alignedInputs; infer_instance

instance (axis : Value) (xs : List Value) : Emits V (unsqueezeEach axis xs) := by
  induction xs generalizing V with
  | nil => unfold unsqueezeEach; infer_instance
  | cons x xs ih => unfold unsqueezeEach; infer_instance

instance : Emits V (repeats op) := by unfold repeats; infer_instance

instance (names : Value) (i n : Nat) : Emits V (castWide names i n) := by
  induction n generalizing i V with
  | zero => unfold castWide; infer_instance
  | succ n ih => unfold castWide; infer_instance

instance : Emits V (paddingsOf op) := by unfold paddingsOf; infer_instance

instance : Emits V (mergedShape op) := by unfold mergedShape; infer_instance

instance : Emits V (paddingMode op) := by unfold paddingMode; infer_instance

instance (asAttributes : Bool) (shape : Value) : Emits V (outerDims asAttributes shape) := by
  unfold outerDims; infer_instance

instance (asAttributes : Bool) : Emits V (shapesByTensor op asAttributes) := by
  unfold shapesByTensor; infer_instance

instance : Emits V (shapeBySize op) := by unfold shapeBySize; infer_instance

instance (input output : Value) : Emits V (scalesOfShapes input output) := by
  unfold scalesOfShapes; infer_instance

instance : Emits V (requireCornerScaling op) := by unfold requireCornerScaling; infer_instance

instance : Emits V (pickCount op) := by unfold pickCount; infer_instance

instance (axesAsInput : Bool) (scale bias : Value) : Emits V (channelWeights axesAsInput scale bias) := by
  unfold channelWeights; infer_instance

end Building

section Rules

variable (op : OpNode) [op.Plain]

/-! ## Slicing and selection -/

instance (inputs : Value) (attrs : Attrs) (dropped : Option Value) :
    Emits op.written (cutAndDrop op inputs attrs dropped) := by
  cases dropped <;> (unfold cutAndDrop; infer_instance)

instance (wide : Option String) : Emits op.written (gather wide op) := by
  cases wide <;> (unfold gather; infer_instance)

/-! ## Layers -/

instance : Emits op.written (adaptivePool op) := by unfold adaptivePool; infer_instance

instance : Emits op.written (layerNorm op) := by
  unfold layerNorm
  cases op.hasInput "Scale" <;> cases op.hasInput "Bias" <;> infer_instance

instance : Emits op.written (windows op) := by
  unfold windows
  refine .of_append_nil (.step fun shape => ?_)
  dsimp only
  split <;> infer_instance

end Rules

/-! ## Given values -/

theorem Assoc.eq_or_mem_of_mem_insert {α : Type} {t : List (String × α)} {k : String} {a : α}
    {e : String × α} (h : e ∈ Assoc.insert t k a) : e = (k, a) ∨ e ∈ t := by
  unfold Assoc.insert at h
  split at h
  · obtain ⟨e', he', rfl⟩ := mem_map.1 h
    split
    · exact Or.inl rfl
    · exact Or.inr he'
  · exact (mem_append.1 h).symm.imp_left mem_singleton.1

/-- **A text names the weight that is kept under it.** -/
instance grows_keepWeight (s : String) (dtype dims : Value) (elements : List Value) :
    Grows [.str s] (keepWeight (.str s) dtype dims elements) where
  growth {d _ _} hd h := by
    obtain ⟨type, -, h₁⟩ := computed_ok h
    obtain rfl := modify_ok h₁
    have hkeys := Assoc.keys_insert d.weights s
    refine ⟨⟨hd.kept, hd.recorded, hd.numbered, fun e he => ?_, Assoc.nodup_keys_insert _ _ _ hd.distinct⟩,
      fun _ => le_rfl, rfl, rfl, rfl, ?_⟩
    · rcases Assoc.eq_or_mem_of_mem_insert he with rfl | he
      · rfl
      · exact hd.weights e he
    · by_cases hold : Assoc.contains d.weights s = true
      · refine ⟨{}, { Batch.leads_empty _ rfl rfl with weights := ?_ }⟩
        exact (hkeys _).trans (by rw [if_pos hold]; exact (append_nil _).symm)
      · refine ⟨{ weights := [s], given := [.str s] },
          { Batch.leads_empty _ rfl rfl with weights := ?_, written := .refl _, given := .refl _ }⟩
        exact (hkeys _).trans (by rw [if_neg hold])
  version h := by
    obtain ⟨type, -, h₁⟩ := computed_ok h
    rw [modify_ok h₁]

theorem twin_keepWeight (s : String) (dtype dims : Value) (elements : List Value) :
    Twin True (keepWeight (.str s) dtype dims elements) (keepWeight (.str s) dtype dims elements) where
  progress hde hx hy := by
    have hgrows := grows_keepWeight s dtype dims elements
    have htidy := And.intro (hgrows.growth hde.tidy.1 hx).tidy (hgrows.growth hde.tidy.2 hy).tidy
    obtain ⟨type, d₁, hlift, hx₁⟩ := bind_ok hx
    obtain ⟨type', e₁, hlift', hy₁⟩ := bind_ok hy
    obtain ⟨htype, rfl⟩ := slip_ok hlift
    obtain ⟨htype', rfl⟩ := slip_ok hlift'
    obtain rfl := Except.ok.inj (htype.symm.trans htype')
    obtain rfl := modify_ok hx₁
    obtain rfl := modify_ok hy₁
    exact ⟨rfl, .of_quiet ⟨htidy, hde.opset, hde.counts, hde.domains, by simp only [hde.weights],
      hde.terminals⟩ ⟨rfl, rfl, rfl, rfl⟩ ⟨rfl, rfl, rfl, rfl⟩ rfl rfl⟩

instance (op : OpNode) [op.Plain] : Grows op.written (assignValue op) := by
  have hkeep : ∀ elements, Grows op.written (do
      keepWeight (← op.outputAt "Out" 0) (op.attr "dtype") (op.attr "shape") elements) := by
    refine fun elements => .known fun v hv => ?_
    obtain ⟨x, rfl, hx⟩ := OpNode.Plain.outputAt op hv
    have hslot := singleton_subperm_iff.2 hx
    exact (grows_keepWeight x _ _ _).mono (hslot.trans (Names.slot op "Out").given)
  unfold assignValue
  infer_instance

theorem twin_assignValue (op : OpNode) [op.Plain] : Twin True (assignValue op) (assignValue op) := by
  have hkeep : ∀ elements, Twin True (do
      keepWeight (← op.outputAt "Out" 0) (op.attr "dtype") (op.attr "shape") elements) (do
      keepWeight (← op.outputAt "Out" 0) (op.attr "dtype") (op.attr "shape") elements) := by
    refine fun elements => .known fun v hv => ?_
    obtain ⟨x, rfl, -⟩ := OpNode.Plain.outputAt op hv
    exact twin_keepWeight x _ _ _
  unfold assignValue
  split
  · refine .step (Emits.again (V := [])) fun singles => ?_
    dsimp only
    split
    · exact .step (Emits.again (V := [])) hkeep
    · exact hkeep singles
  · exact Emits.again (V := op.written)

/-! ## Recurrent layers -/

section Layers

variable {V : List Value} (op : OpNode)

instance (xs : List Value) : Emits V (withDirectionAxis xs) := by
  induction xs generalizing V with
  | nil => unfold withDirectionAxis; infer_instance
  | cons x xs ih => unfold withDirectionAxis; infer_instance

instance (w hidden : Value) (gates : List (Int × Int)) : Emits V (gateBlocks w hidden gates) := by
  induction gates generalizing V with
  | nil => unfold gateBlocks; infer_instance
  | cons gate gates ih => unfold gateBlocks; infer_instance

instance (cell : Cell) (hidden w : Value) : Emits V (reorderGates cell hidden w) := by
  unfold reorderGates; infer_instance

instance (cell : Cell) (layer : Nat) (hidden : Value) :
    Emits V (parameterInputs cell op layer hidden) := by unfold parameterInputs; infer_instance

instance (layer : Nat) (state : Value) : Emits V (layerState op layer state) := by
  unfold layerState; infer_instance

instance (cell : Cell) (layer : Nat) : Emits V (initialStates cell op layer) := by
  unfold initialStates
  cases cell with
  | lstm =>
    refine .step fun states => ?_
    split <;> infer_instance
  | gru => infer_instance

variable [op.Plain]

/-- What a layer writes of the operator's names: states and output in the last one. -/
def layerNames (isLast : Bool) : List Value :=
  if isLast then (op.slot "State").given ++ (op.slot "Out").given else []

theorem given_layerOutputs {cell : Cell} {isLast : Bool} {o t : Value}
    (h : layerOutputs cell op isLast = .ok (o, t)) :
    (o.given ++ t.given).Subperm (layerNames op isLast) := by
  unfold layerOutputs at h
  cases isLast with
  | false =>
    obtain ⟨rfl, rfl⟩ := Prod.mk.inj (Except.ok.inj h)
    exact .refl _
  | true =>
    obtain ⟨states, hstate, h₁⟩ := except_bind_ok h
    obtain ⟨w, hw, h₂⟩ := except_bind_ok h₁
    obtain ⟨out, hout, h₃⟩ := except_bind_ok h₂
    obtain ⟨rfl, rfl⟩ := Prod.mk.inj (Except.ok.inj h₃)
    have hstates : w.given = (op.slot "State").given := by
      obtain ⟨xs, rfl⟩ := OpNode.Plain.output op hstate
      rw [op.slot_eq hstate, ← Except.ok.inj hw]
      rfl
    rw [hstates, ← op.slot_eq hout]
    exact .refl _

/-- Each layer writes its own share, whatever comes out of its node. -/
theorem emits_recurrentLayer (cell : Cell) (layers layer : Nat) (input : Value) :
    Emits (layerNames op (layer + 1 == layers)) (recurrentLayer cell op layers layer input) := by
  unfold recurrentLayer
  refine .step fun parameters => .step fun states => .known fun (o, t) hslots => ?_
  refine Emits.mono (V := o.given ++ t.given) ?_ (given_layerOutputs op hslots)
  refine .share fun results => ?_
  split <;> infer_instance

theorem emits_recurrentLayers (cell : Cell) (layers : Nat) (ls : List Nat) (input : Value) :
    Emits (ls.flatMap fun l => layerNames op (l + 1 == layers))
      (recurrentLayers cell op layers ls input) := by
  induction ls generalizing input with
  | nil => unfold recurrentLayers; infer_instance
  | cons l ls ih =>
    have := emits_recurrentLayer op cell layers l input
    unfold recurrentLayers
    exact .share ih

omit [op.Plain] in
/-- Only one of the layers is the last. -/
theorem layerNames_range (layers : Nat) :
    ((List.range layers).flatMap fun l => layerNames op (l + 1 == layers)).Subperm
      (layerNames op true) := by
  cases layers with
  | zero => exact nil_subperm
  | succ n =>
    have hbefore : (List.range n).flatMap (fun l => layerNames op (l + 1 == n + 1)) = [] := by
      refine flatMap_eq_nil_iff.2 fun l hl => ?_
      have : (l + 1 == n + 1) = false := by simpa using (mem_range.1 hl).ne
      rw [this]
      rfl
    rw [range_succ, flatMap_append, hbefore, flatMap_singleton, beq_self_eq_true]
    exact .refl _

instance : Emits (layerNames op true) (recurrent op) := by
  unfold recurrent
  refine .step fun input => ?_
  split
  · infer_instance
  · refine .step fun layers => ?_
    exact (emits_recurrentLayers op _ _ _ input).mono (layerNames_range op _)

end Layers

/-! ## Rules that change attributes -/

section Editing

variable {V : List Value} (op : OpNode)

instance (i : Int) (n : Nat) (shape : Value) : Alters V (knownShape i n shape) := by
  induction n generalizing i shape V with
  | zero => unfold knownShape; infer_instance
  | succ n ih => unfold knownShape; infer_instance

instance : Alters V (targetShape op) := by unfold targetShape; infer_instance

instance (size : Int) (paddings kernel : Value) (i : Int) :
    Alters V (clampAxis size paddings kernel i) := by
  unfold clampAxis
  refine .step fun clamped => ?_
  cases clamped <;> infer_instance

instance (attr : String) (adjust : Value → Value → Except Slip (Option Value)) (axes : Value)
    (i : Int) (bs : List Value) (bounds : Value) :
    Alters V (adjustBounds attr adjust axes i bs bounds) := by
  induction bs generalizing i bounds V with
  | nil => unfold adjustBounds; infer_instance
  | cons b bs ih =>
    unfold adjustBounds
    refine .step fun axis => .step fun adjusted => ?_
    cases adjusted <;> infer_instance

variable [op.Plain]

instance : Alters op.written (expand op) := by unfold expand; infer_instance

instance : Alters op.written (fixedPool op) := by unfold fixedPool; infer_instance

instance : Alters op.written (pool op) := by unfold pool; infer_instance

instance : Alters op.written (sliceAttributes op) := by unfold sliceAttributes; infer_instance

instance : Alters op.written (sliceConstants op) := by unfold sliceConstants; infer_instance

instance : Alters op.written (fillBatchLike op) := by
  unfold fillBatchLike
  dsimp only
  split <;> infer_instance

end Editing

end ModelExport
