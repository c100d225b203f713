import ModelExport.Proofs.Emission.Detection

/-!
# Proofs/Emission/Catalogue — what the rules of the catalogue write

A rule writes the names in the output slots of its operator, and names derived from one of them by a
mark when it decodes boxes (`OpNode.derived`); applied again it does the same, unless it changes
attributes (`editingTypes`); and it makes no weights, unless it assigns given values
(`assigningType`).  `Maps type rule` says so of one rule; `maps_of_mem_entries` says it of every rule
that comes with the library.
-/

namespace ModelExport

open Emit Rules

-- the size of an instance grows with the number of steps
set_option synthInstance.maxSize 1000000000

/-! ## Derived names -/

/-- The output slot whose first name is marked by the rule of a type, and the marks. -/
def markedSlot (type : String) : Option (String × List String) :=
  if type = "yolo_box" then some ("Boxes", cellMarks)
  else if type = "box_coder" then some ("OutputBox", coderMarks)
  else none

/-- **The names that an operator's rule may derive from its outputs.** -/
def OpNode.derived (op : OpNode) : List Value :=
  match markedSlot op.type with
  | some (slot, marks) => (op.slotAt slot 0).marks marks
  | none => []

/-! ## One rule -/

/-- The types whose rules change attributes of their operators. -/
def editingTypes : List String :=
  ["pool2d", "expand_v2", "slice", "strided_slice", "fill_constant_batch_size_like"]

/-- The type whose rule makes weights. -/
def assigningType : String := "assign_value"

/-- **A rule for operators of a type**: it writes what they write, and what is derived from that; the
same again, unless it changes attributes; and makes no weights, unless it assigns given values. -/
class Maps (type : String) (rule : Rule) : Prop where
  grows : ∀ (op : OpNode) [op.Plain], op.type = type → Grows (op.written ++ op.derived) (rule op)
  again : type ∉ editingTypes → ∀ (op : OpNode) [op.Plain], op.type = type →
    Twin True (rule op) (rule op)
  weights : type ≠ assigningType → ∀ (op : OpNode) [op.Plain], op.type = type → ∀ {d d' : Draft},
    EStateM.run (rule op) d = .ok () d' → d'.weights = d.weights

namespace Maps

variable {type : String} {rule : Rule}

theorem of_emits (h : ∀ (op : OpNode) [op.Plain], op.type = type →
    Emits (op.written ++ op.derived) (rule op)) : Maps type rule :=
  ⟨fun op _ htype => (h op htype).toGrows, fun _ op _ htype => (h op htype).again,
    fun _ op _ htype => (h op htype).weights⟩

theorem of_subperm {V : OpNode → List Value} (hV : ∀ (op : OpNode) [op.Plain], Emits (V op) (rule op))
    (h : ∀ (op : OpNode) [op.Plain], (V op).Subperm op.written) : Maps type rule :=
  of_emits fun op _ _ => (hV op).mono ((h op).trans (List.sublist_append_left _ _).subperm)

instance (op : { op : OpNode // op.Plain }) : op.1.Plain := op.2

instance (priority := low) of_written
    [h : ∀ op : { op : OpNode // op.Plain }, Emits op.1.written (rule op.1)] : Maps type rule :=
  of_subperm (fun op hop => h ⟨op, hop⟩) fun _ _ => .refl _

/-- A rule that changes attributes. -/
theorem of_editing (htype : type ∈ editingTypes) (h : ∀ (op : OpNode) [op.Plain],
    Alters op.written (rule op)) : Maps type rule where
  grows op _ _ := (h op).toGrows.mono (List.sublist_append_left _ _).subperm
  again hno := absurd htype hno
  weights _ op _ _ := (h op).weights

instance : Maps "pool2d" pool := of_editing (by decide) fun _ _ => inferInstance

instance : Maps "expand_v2" expand := of_editing (by decide) fun _ _ => inferInstance

instance : Maps "slice" sliceAttributes := of_editing (by decide) fun _ _ => inferInstance

instance : Maps "slice" sliceConstants := of_editing (by decide) fun _ _ => inferInstance

instance : Maps "strided_slice" sliceAttributes := of_editing (by decide) fun _ _ => inferInstance

instance : Maps "strided_slice" sliceConstants := of_editing (by decide) fun _ _ => inferInstance

instance : Maps "fill_constant_batch_size_like" fillBatchLike :=
  of_editing (by decide) fun _ _ => inferInstance

/-- The rule that assigns given values makes weights of them. -/
instance : Maps "assign_value" assignValue where
  grows op _ _ := (inferInstance : Grows op.written (assignValue op)).mono
    (List.sublist_append_left _ _).subperm
  again _ op _ _ := twin_assignValue op
  weights hno := absurd rfl hno

/-- A rule that writes different slots. -/
theorem of_slots (ss : List String) (hss : ss.Nodup) (h : ∀ (op : OpNode) [op.Plain],
    Emits (ss.flatMap fun s => (op.slot s).given) (rule op)) : Maps type rule :=
  of_subperm h fun op _ => op.slots_subperm_written hss

theorem of_first_two (s t : String) (hst : s ≠ t) (h : ∀ (op : OpNode) [op.Plain],
    Emits ((op.slotAt s 0).given ++ (op.slotAt t 0).given) (rule op)) : Maps type rule :=
  of_slots [s, t] (by simpa using hst) fun op _ => (h op).mono (by
    simpa using (OpNode.Plain.given_slotAt op s 0).append (OpNode.Plain.given_slotAt op t 0))

instance : Maps type softmaxCrossEntropy := of_first_two "Loss" "Softmax" (by decide) fun _ _ => inferInstance

instance (attrs : OpNode → Attrs) : Maps type (largest attrs) :=
  of_first_two "Out" "Indices" (by decide) fun _ _ => by unfold largest; infer_instance

instance : Maps type argSort :=
  of_first_two "Out" "Indices" (by decide) fun _ _ => by unfold argSort; infer_instance

instance : Maps type argSortDescending :=
  of_first_two "Out" "Indices" (by decide) fun _ _ => by unfold argSortDescending; infer_instance

instance : Maps type recurrent :=
  of_slots ["State", "Out"] (by decide) fun op _ => by
    simpa [layerNames] using (inferInstance : Emits (layerNames op true) (recurrent op))

instance : Maps type priorBox :=
  of_slots ["Boxes", "Variances"] (by decide) fun op _ => by
    simpa using (inferInstance : Emits ((op.slot "Boxes").given ++ (op.slot "Variances").given)
      (priorBox op))

instance : Maps type densityPriorBox :=
  of_slots ["Boxes", "Variances"] (by decide) fun op _ => by
    simpa using (inferInstance : Emits ((op.slot "Boxes").given ++ (op.slot "Variances").given)
      (densityPriorBox op))

instance : Maps type multiclassSuppression :=
  of_slots ["Out", "Index", "NmsRoisNum", "RoisNum"] (by decide) fun op _ =>
    (inferInstance : Emits ((op.slotAt "Out" 0).given ++ extraNames op)
      (multiclassSuppression op)).mono (by
        simpa [extraNames] using (OpNode.Plain.given_slotAt op "Out" 0).append (.refl (extraNames op)))

instance (asConstants : Bool) : Maps "yolo_box" (yoloBox asConstants) :=
  of_emits fun op _ htype => by
    have hslots := op.slots_subperm_written (by decide : ["Boxes", "Scores"].Nodup)
    have hderived : op.derived = (op.slotAt "Boxes" 0).marks cellMarks := by
      rw [OpNode.derived, htype]
      rfl
    refine Emits.mono (V := op.derived ++ ((op.slot "Boxes").given ++ (op.slot "Scores").given)) ?_ ?_
    · rw [hderived]
      infer_instance
    · refine List.perm_append_comm.subperm.trans (List.Subperm.append ?_ (.refl _))
      simpa using hslots

instance : Maps "box_coder" boxCoder :=
  of_emits fun op _ htype => by
    have hslots := op.slots_subperm_written (List.nodup_singleton "OutputBox")
    have hderived : op.derived = (op.slotAt "OutputBox" 0).marks coderMarks := by
      rw [OpNode.derived, htype]
      rfl
    refine Emits.mono (V := op.derived ++ (op.slot "OutputBox").given) ?_ ?_
    · rw [hderived]
      infer_instance
    · refine List.perm_append_comm.subperm.trans (List.Subperm.append ?_ (.refl _))
      simpa using hslots

end Maps

/-! ## All rules -/

/-- Entries whose rules are for operators of their type. -/
class Mapped (es : List Catalogue.Entry) : Prop where
  maps : ∀ e ∈ es, ∀ v ∈ e.2, Maps e.1 v.2

namespace Mapped

variable {es fs : List Catalogue.Entry}

instance nil : Mapped [] := ⟨fun _ he => absurd he List.not_mem_nil⟩

/-- Rules of an entry, one after another. -/
instance done (type : String) [h : Mapped es] : Mapped ((type, []) :: es) :=
  ⟨List.forall_mem_cons.2 ⟨fun _ hv => absurd hv List.not_mem_nil, h.maps⟩⟩

instance cons (type : String) (version : Int) (rule : Rule) (rules : List (Int × Rule))
    [hrule : Maps type rule] [h : Mapped ((type, rules) :: es)] :
    Mapped ((type, (version, rule) :: rules) :: es) := by
  obtain ⟨hrules, hes⟩ := List.forall_mem_cons.1 h.maps
  exact ⟨List.forall_mem_cons.2 ⟨List.forall_mem_cons.2 ⟨hrule, hrules⟩, hes⟩⟩

instance append [hes : Mapped es] [hfs : Mapped fs] : Mapped (es ++ fs) :=
  ⟨fun e he => (List.mem_append.1 he).elim (hes.maps e) (hfs.maps e)⟩

end Mapped

namespace Catalogue

-- the rules of an entry are opened in their place: what they do themselves is found step by step

instance : Mapped activation := by
  unfold activation unary leakyRelu softplus prelu relu6 gelu selu hardSigmoid swish hardSwish elu hardShrink
    logSigmoid logSoftmax dropout
  infer_instance

instance : Mapped arithmetic := by
  unfold arithmetic unary matmul matmulV2 isNan binary logarithm logSumExp elementwise floorDivide power square
    cumulativeSum mul affineChannel log1p boundedRelu reciprocalRoot scaleIdentity scale
  dsimp only
  infer_instance

instance : Mapped reduction := by
  unfold reduction pNorm reduceTruth reduce mean argMax argMin dot softmax
  infer_instance

instance : Mapped layers := by
  unfold layers convolution convolutionTranspose Rules.norm batchNorm groupNorm instanceNorm roiAlign
  infer_instance

instance : Mapped comparison := by
  unfold comparison unary binary notEqual Rules.isFinite
  infer_instance

instance : Mapped selection := by
  unfold selection nonzeroRows indexSelect embedding
  infer_instance

instance : Mapped shaping := by
  unfold shaping resizing unary concat stack unstack expandAs shapeOf Rules.sizeOf Rules.split tile squeeze renamed
    flattenRange reshape Rules.cast clip padAttributes padConstants pixelShuffle upsample resizeByScales resize
  infer_instance

instance : Mapped filling := by
  unfold filling Rules.range fillConstant fillLike randomLike random
  infer_instance

instance : Mapped detection := by unfold detection; infer_instance

instance : Mapped kept where
  maps e he v hv := by
    have hslots : ∀ k ∈ keptOperators, k.outputs.Nodup := by decide
    obtain ⟨k, hk, rfl⟩ := List.mem_map.1 he
    rw [List.mem_singleton.1 hv]
    exact .of_slots k.outputs (hslots k hk) fun _ _ => inferInstance

/-- **Every rule of the catalogue** writes the names of its operator, and names derived from them. -/
theorem maps_of_mem_entries {e : Entry} (he : e ∈ entries) {v : Int × Rule} (hv : v ∈ e.2) :
    Maps e.1 v.2 := by
  have : Mapped entries := by unfold entries; infer_instance
  exact this.maps e he v hv

end Catalogue

end ModelExport
