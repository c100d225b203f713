import ModelExport.Rules.Building

/-!
# Rules/Fallback — operators kept as they are

An operator without a counterpart in a model can be kept as a node of its own type, in the domain
`custom`.
-/

namespace ModelExport.Rules

open Emit

/-- **How an operator is kept**: the slots it reads and writes, and its attributes, each under the
name it has on either side. -/
structure Kept where
  type : String
  inputs : List String
  outputs : List String
  /-- Name in the model, name in the program. -/
  attrs : List (String × String) := []

def joinSlots : List Value → Except Slip Value
  | [] => .ok (.list [])
  | v :: vs => vs.foldlM Value.add v

def joinOutputs (op : OpNode) (slots : List String) : Except Slip Value := do
  joinSlots (← slots.mapM op.output)

/-- Keeps an operator as a node of its own type. -/
def keep (k : Kept) : Rule := fun op => do
  let inputs ← joinSlots (k.inputs.map op.input)
  let outputs ← joinOutputs op k.outputs
  discard <| nodeNamed k.type inputs outputs (k.attrs.map fun a => (a.1, op.attr a.2)) none
    (.str "custom")

def keptAnchors : Kept :=
  { type := "anchor_generator", inputs := ["Input"], outputs := ["Anchors", "Variances"],
    attrs := [("anchor_sizes", "anchor_sizes"), ("aspect_ratios", "aspect_ratios"),
      ("offset", "offset"), ("strides", "stride"), ("variances", "variances")] }

def keptBoxClip : Kept :=
  { type := "box_clip", inputs := ["Input", "ImInfo"], outputs := ["Output"] }

def keptCollect : Kept :=
  { type := "collect_fpn_proposals", inputs := ["MultiLevelRois", "MultiLevelScores"],
    outputs := ["FpnRois"], attrs := [("post_nms_top_n", "post_nms_topN")] }

def keptDeformable : Kept :=
  { type := "deformable_conv", inputs := ["Input", "Filter", "Mask", "Offset"],
    outputs := ["Output"],
    attrs := [("stride", "strides"), ("padding", "paddings"), ("groups", "groups"),
      ("dilation", "dilations"), ("deformable_groups", "deformable_groups")] }

def keptDistribute : Kept :=
  { type := "distribute_fpn_proposals", inputs := ["FpnRois"],
    outputs := ["MultiFpnRois", "RestoreIndex"],
    attrs := [("max_level", "max_level"), ("min_level", "min_level"),
      ("refer_level", "refer_level"), ("refer_scale", "refer_scale")] }

def keptProposals : Kept :=
  { type := "generate_proposals",
    inputs := ["Anchors", "BboxDeltas", "ImInfo", "Scores", "Variances"],
    outputs := ["RpnRoiProbs", "RpnRois"],
    attrs := [("eta", "eta"), ("min_size", "min_size"), ("nms_thresh", "nms_thresh"),
      ("post_nms_topN", "post_nms_topN"), ("pre_nms_topN", "pre_nms_topN")] }

def keptOperators : List Kept :=
  [keptAnchors, keptBoxClip, keptCollect, keptDeformable, keptDistribute, keptProposals]

end ModelExport.Rules
