import ModelExport.Rules.Building

/-!
# Rules/Suppression — choosing among overlapping boxes

Boxes that overlap a better one are dropped class by class (`suppress`), then the best of those left
are kept and put in the order of their classes (`keepBest`).
-/

namespace ModelExport.Rules

open Emit

/-- Moves the far corners of boxes by one, for coordinates that count whole pixels. -/
def inclusiveBoxes (boxes : Value) : Emit Value := do
  let one ← constantShaped ElementType.FLOAT (.ints [1]) (.float 1.0)
  let parts ← nodeTo "Split" (.list [boxes]) (.int 4) [("axis", .int 2), ("split", .ints [1, 1, 1, 1])]
  let right ← node "Add" (.list [← parts.nth 2, one])
  let bottom ← node "Add" (.list [← parts.nth 3, one])
  node "Concat" (.list [← parts.nth 0, ← parts.nth 1, right, bottom]) [("axis", .int 2)]

def overlapThreshold (op : OpNode) : Emit Value := do
  if op.type == "matrix_nms" then
    notify (.warning ("Operator:" ++ op.type ++ " is not supported completely, so we use " ++
      "traditional NMS (nms_theshold=0.5) to instead it, which introduce some difference."))
    return .float 0.5
  return op.attr "nms_threshold"

/-- **Drops boxes that overlap better ones.**  The result lists batch, class and box; for the boxes of
a single class its number is put in. -/
def suppress (op : OpNode) (scores boxes : Value) (cls : Option Nat) : Emit Value := do
  let most := op.attr "nms_top_k"
  let overlap ← overlapThreshold op
  let most := if most.same (.int (-1)) then .int 100000 else most
  let score ← constant ElementType.FLOAT (.list [.float (← (op.attr "score_threshold").toFloat)])
  let overlap ← constant ElementType.FLOAT (.list [.float (← overlap.toFloat)])
  let most ← constant ElementType.INT64 (.list [.int (← most.toInt)])
  let boxes ← if (op.attr "normalized").truthy then pure boxes else inclusiveBoxes boxes
  let chosen ← node "NonMaxSuppression" (.list [boxes, scores, most, overlap, score])
  match cls with
  | some (k + 1) =>
    let shift ← constant ElementType.INT64 (.ints [0, (k + 1 : Nat), 0])
    let shift ← node "Unsqueeze" (.list [shift]) [("axes", .ints [0])]
    node "Add" (.list [chosen, shift])
  | _ => return chosen

def foreground (op : OpNode) (classes : Value) : Emit Value := do
  let background := op.attr "background_label"
  if background.same (.int 0) then node "NonZero" (.list [classes])
  else
    let label ← constant ElementType.INT32 (.list [background])
    let narrow ← node "Cast" (.list [classes]) [("to", .int ElementType.INT32)]
    let difference ← node "Sub" (.list [narrow, label])
    node "NonZero" (.list [difference])

/-- The least of the number of boxes left and the number asked for. -/
def keptCount (op : OpNode) (scores : Value) : Emit Value := do
  let asked ← node "Constant" .none
    [("dtype", .int ElementType.INT64), ("dims", .ints [1, 1]), ("value", .list [op.attr "keep_top_k"])]
  let shape ← node "Shape" (.list [scores])
  let zero ← constant ElementType.INT64 (.ints [0])
  let left ← node "Gather" (.list [shape, zero]) [("axis", .int 0)]
  let left ← node "Unsqueeze" (.list [left]) [("axes", .ints [0])]
  let both ← node "Concat" (.list [left, asked]) [("axis", .int 0)]
  let both ← node "Cast" (.list [both]) [("to", .int 6)]
  let least ← node "ReduceMin" (.list [both]) [("keepdims", .int 0)]
  let least ← node "Unsqueeze" (.list [least]) [("axes", .ints [0])]
  node "Cast" (.list [least]) [("to", .int 7)]

def countSlot (op : OpNode) : Except Slip (Option Value) := do
  if op.hasOutput "NmsRoisNum" then .ok (some (← op.output "NmsRoisNum"))
  else if op.hasOutput "RoisNum" then .ok (some (← op.output "RoisNum"))
  else .ok none

/-- The further outputs of the newer forms: positions, and the number of boxes. -/
def suppressionExtras (op : OpNode) (boxIds result : Value) : Emit Unit := do
  if ["multiclass_nms2", "matrix_nms", "multiclass_nms3"].contains op.type then
    discard <| nodeTo "Squeeze" (.list [boxIds]) (← op.output "Index") [("axes", .ints [0])]
    if ["matrix_nms", "multiclass_nms3"].contains op.type then
      let shape ← node "Shape" (.list [result])
      let shape ← node "Cast" (.list [shape]) [("to", .int ElementType.INT32)]
      let first ← constant ElementType.INT64 (.ints [0])
      if let some slot ← countSlot op then
        discard <| nodeTo "Gather" (.list [shape, first]) slot

/-- **Keeps the best boxes, in the order of their classes.** -/
def keepBest (op : OpNode) (chosen scores boxes : Value) (perClass : Bool) : Emit Unit := do
  let _zero ← constant ElementType.INT64 (.ints [0])
  let one ← constant ElementType.INT64 (.ints [1])
  let two ← constant ElementType.INT64 (.ints [2])
  let flat ← constant ElementType.INT64 (.ints [-1])
  let classes ← node "Gather" (.list [chosen, one]) [("axis", .int 1)]
  let classRow ← node "Squeeze" (.list [classes]) [("axes", .ints [1])]
  let boxIds ← node "Gather" (.list [chosen, two]) [("axis", .int 1)]
  let visible ← foreground op classRow
  let classes ← node "Gather" (.list [classes, visible]) [("axis", .int 0)]
  let boxIds ← node "Gather" (.list [boxIds, visible]) [("axis", .int 0)]
  let shape ← node "Shape" scores
  let perRow ← node "Gather" (.list [shape, two]) [("axis", .int 0)]
  let scores ← node "Reshape" (.list [scores, flat])
  let rowStarts ← node "Mul" (.list [classes, perRow])
  let places ← node "Add" (.list [rowStarts, boxIds])
  let placeRow ← node "Squeeze" (.list [places]) [("axes", .ints [0, 2])]
  let scores ← node "Gather" (.list [scores, placeRow]) [("axis", .int 0)]
  let count ← keptCount op scores
  let best ← nodeTo "TopK" (.list [scores, count]) (.int 2)
  let order ← best.nth 1
  let bestScores ← node "Gather" (.list [scores, order]) [("axis", .int 0)]
  let bestClasses ← node "Gather" (.list [classes, order]) [("axis", .int 1)]
  let bestIds ← node "Gather" (.list [if perClass then places else boxIds, order])
    [("axis", .int 1)]
  let idRow ← node "Squeeze" (.list [bestIds]) [("axes", .ints [0, 2])]
  let bestBoxes ← node "Gather" (.list [boxes, idRow]) [("axis", .int 1)]
  let labels ← node "Cast" (.list [bestClasses]) [("to", .int 1)]
  let scoreColumn ← node "Unsqueeze" (.list [bestScores]) [("axes", .ints [0, 2])]
  let byScore ← node "Concat" (.list [labels, scoreColumn, bestBoxes]) [("axis", .int 2)]
  let labelRow ← node "Squeeze" (.list [labels]) [("axes", .ints [0, 2])]
  let negated ← node "Neg" (.list [labelRow])
  let sorted ← nodeTo "TopK" (.list [negated, count]) (.int 2)
  let byClass ← node "Gather" (.list [byScore, ← sorted.nth 1]) [("axis", .int 1)]
  let result ← nodeTo "Squeeze" (.list [byClass]) (.list [← op.outputAt "Out" 0])
    [("axes", .ints [0])]
  suppressionExtras op boxIds result

/-- The choices of the classes from `k` on, one class after another. -/
def suppressClasses (op : OpNode) (scores boxes : Value) : Nat → Nat → Emit (List Value)
  | _, 0 => return []
  | k, n + 1 => do
    let chosen ← suppress op (← scores.nth k) (← boxes.nth k) (some k)
    return chosen :: (← suppressClasses op scores boxes (k + 1) n)

/-- Chooses among overlapping boxes of several classes.  Scores without a batch axis come with boxes
for each class. -/
def multiclassSuppression : Rule := fun op => do
  if (← memberAt (← op.inputShape "BBoxes" 0) 0) != 1 then
    notify (.warning ("Due to the operator:" ++ op.type ++ ", the converted ONNX model will only " ++
      "supports input[batch_size] == 1."))
  let scores ← op.inputAt "Scores" 0
  let boxes ← op.inputAt "BBoxes" 0
  let shape ← op.inputShape "Scores" 0
  let classes ← memberAt shape 1
  if shape.length == 2 then
    let ones : Value := .ints (List.replicate classes.toNat 1)
    let scores ← node "Transpose" (.list [scores]) [("perm", .ints [1, 0])]
    let scores ← node "Unsqueeze" (.list [scores]) [("axes", .ints [0])]
    let scoreParts ← nodeTo "Split" scores (.int classes) [("axis", .int 1), ("split", ones)]
    let boxes ← node "Transpose" boxes [("perm", .ints [1, 0, 2])]
    let boxParts ← nodeTo "Split" boxes (.int classes) [("axis", .int 0), ("split", ones)]
    let chosen ← suppressClasses op scoreParts boxParts 0 classes.toNat
    let chosen ← node "Concat" (.list chosen) [("axis", .int 0)]
    let rows ← constant ElementType.INT64 (.ints [1, -1, 4])
    let boxes ← node "Reshape" (.list [boxes, rows])
    keepBest op chosen scores boxes true
  else
    let chosen ← suppress op scores boxes none
    keepBest op chosen scores boxes false

end ModelExport.Rules
