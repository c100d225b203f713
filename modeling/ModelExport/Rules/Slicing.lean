import ModelExport.Rules.Building

/-!
# Rules/Slicing — ranges along axes

Bounds beyond the end of a known axis are brought to it, and from version 10 on negative starts are
counted from the front (`endWithin`, `startFromFront`).  The changed bounds stay with the operator.
-/

namespace ModelExport.Rules

open Emit

/-- An end beyond a known axis, brought to its size; nothing when it stays. -/
def endWithin (shape : List Int) (axis e : Value) : Except Slip (Option Value) := do
  let size ← memberAt shape (← axis.exact)
  if (← e.gt (.int size)) && size > 0 then return some (.int size)
  return none

/-- A negative start of a known axis, counted from the front; nothing when it stays. -/
def startFromFront (shape : List Int) (axis s : Value) : Except Slip (Option Value) := do
  if ← s.lt (.int 0) then
    let size ← memberAt shape (← axis.exact)
    if size > 0 then return some (← Value.add (.int size) s)
  return none

def adjustBounds (attr : String) (adjust : Value → Value → Except Slip (Option Value))
    (axes : Value) : Int → List Value → Value → Emit Value
  | _, [], bounds => return bounds
  | i, b :: rest, bounds => do
    let axis ← axes.nth i
    match ← adjust axis b with
    | none => adjustBounds attr adjust axes (i + 1) rest bounds
    | some b' =>
      let bounds ← bounds.set (.int i) b'
      editAttr attr bounds
      adjustBounds attr adjust axes (i + 1) rest bounds

/-- The axes to drop after a cut: those the operator names, when its output has a smaller rank. -/
def droppedAxes (op : OpNode) : Except Slip (Option Value) := do
  let axes := op.attr "decrease_axis"
  if (← axes.length) == 0 then return none
  let outputRank := (← op.outputShape "Out" 0).length
  if (← op.inputShape "Input" 0).length > outputRank then return some axes
  return none

def cutAndDrop (op : OpNode) (inputs : Value) (attrs : Attrs) (dropped : Option Value) :
    Emit Unit := do
  match dropped with
  | none => discard <| nodeTo "Slice" inputs (← op.output "Out") attrs
  | some axes =>
    let sliced ← node "Slice" inputs attrs
    discard <| nodeTo "Squeeze" (.list [sliced]) (← op.output "Out") [("axes", axes)]

def unitSteps (ends : Value) : Except Slip Value := do
  .ok (.ints (List.replicate (← ends.length) 1))

/-- Ranges as attributes; steps other than one cannot be expressed. -/
def sliceAttributes : Rule := fun op => do
  let axes := op.attr "axes"
  let starts := op.attr "starts"
  let ends := op.attr "ends"
  let units ← unitSteps ends
  let steps := op.attrOr "strides" units
  let shape ← op.inputShape "Input" 0
  let ends ← adjustBounds "ends" (endWithin shape) axes 0 (← ends.members) ends
  unless steps.same units do refuse .sliceStep
  let dropped ← droppedAxes op
  cutAndDrop op (.list [← op.firstInput "Input"])
    [("axes", axes), ("starts", starts), ("ends", ends)] dropped

def sliceConstants : Rule := fun op => do
  let axes := op.attr "axes"
  let starts := op.attr "starts"
  let ends := op.attr "ends"
  let steps := op.attrOr "strides" (← unitSteps ends)
  let shape ← op.inputShape "Input" 0
  let ends ← adjustBounds "ends" (endWithin shape) axes 0 (← ends.members) ends
  let starts ← adjustBounds "starts" (startFromFront shape) axes 0 (← starts.members) starts
  let axesNode ← constant ElementType.INT64 axes
  let startsNode ← constant ElementType.INT64 starts
  let endsNode ← constant ElementType.INT64 ends
  let stepsNode ← constant ElementType.INT64 steps
  let dropped ← droppedAxes op
  cutAndDrop op (.list [← op.firstInput "Input", startsNode, endsNode, axesNode, stepsNode]) []
    dropped

end ModelExport.Rules
