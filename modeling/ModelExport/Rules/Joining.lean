import ModelExport.Rules.Building

/-!
# Rules/Joining — joining, splitting and repeating tensors
-/

namespace ModelExport.Rules

open Emit

def inputTypes (op : OpNode) (slot : String) (n : Nat) : Except Slip Value := do
  .ok (.ints (← (List.range n).mapM fun (i : Nat) => op.inputType slot i))

def alignedInputs (op : OpNode) (slot : String) : Emit Value := do
  let inputs := op.input slot
  align inputs (← inputTypes op slot (← inputs.length))

def concat : Rule := fun op => do
  let inputs ← alignedInputs op "X"
  let axis := op.attr "axis"
  let axis ← if ← axis.lt (.int 0) then
      (do axis.add (.int (← op.inputShape "X" 0).length) : Emit Value)
    else pure axis
  discard <| nodeTo "Concat" inputs (← op.output "Out") [("axis", axis)]

def unsqueezeEach (axis : Value) : List Value → Emit (List Value)
  | [] => return []
  | x :: xs => do
    let y ← node "Unsqueeze" (.list [x]) [("axes", .list [axis])]
    return y :: (← unsqueezeEach axis xs)

def stack : Rule := fun op => do
  let inputs ← alignedInputs op "X"
  let axis := op.attr "axis"
  let spread ← unsqueezeEach axis (← inputs.members)
  discard <| nodeTo "Concat" (.list spread) (← op.output "Y") [("axis", axis)]

/-- An operator in one line: what it writes, its type, what it reads, its attributes. -/
def describe (op : OpNode) : String :=
  let attrs := (op.attrs.filter fun a => a.1 != "op_callstack").map fun a =>
    ", " ++ a.1 ++ "=" ++ a.2.plain
  "  " ++ (slotsValue op.outputs).plain ++ " = paddle::" ++ op.type ++ "(inputs=" ++
    (slotsValue op.inputs).plain ++ String.join attrs ++ ") \n"

/-- Takes a tensor apart along an axis, and says which operator asked for it. -/
def unstack : Rule := fun op => do
  notify (.line (describe op))
  discard <| nodeTo "Split" (op.input "X") (← op.output "Y") [("axis", op.attr "axis")]

/-- Takes a tensor apart into sections, equal ones when none are given. -/
def split : Rule := fun op => do
  let sections := op.attr "sections"
  let attrs := if (← sections.length) > 0 then [("axis", op.attr "axis"), ("split", sections)]
    else [("axis", op.attr "axis")]
  discard <| nodeTo "Split" (op.input "X") (← op.output "Out") attrs

def hasInputs (op : OpNode) (slot : String) : Except Slip Bool := do
  if op.hasInput slot then .ok ((← (op.input slot).length) > 0) else .ok false

/-- How often each axis is repeated: from tensors, else from an attribute. -/
def repeats (op : OpNode) : Emit Value := do
  let times := if (op.attr "expand_times").isNone then op.attr "repeat_times"
    else op.attr "expand_times"
  if ← hasInputs op "repeat_times_tensor" then
    if (← (op.input "repeat_times_tensor").length) > 1 then
      node "Concat" (← alignedInputs op "repeat_times_tensor") [("axis", .int (-1))]
    else op.inputAt "repeat_times_tensor" 0
  else if ← (do
      if op.hasInput "RepeatTimes" then return (← (op.input "RepeatTimes").length) == 1
      else return false : Emit Bool) then
    let given ← op.inputAt "RepeatTimes" 0
    convertTo given (.int (← op.inputType "RepeatTimes" 0)) (.str "int64")
  else if times.isNone then refuse .repeatTimesMissing
  else if ← times.has (.int (-1)) then refuse .repeatTimesIllegal
  else constant ElementType.INT64 times

def tile : Rule := fun op => do
  let times ← repeats op
  discard <| nodeTo "Tile" (.list [← op.inputAt "X" 0, times]) (← op.output "Out")

/-- Spreads a tensor to the shape of another one, or to a given shape. -/
def expandAs : Rule := fun op => do
  let target ← op.inputAt "target_tensor" 0
  let shape := op.attr "target_shape"
  let shape ← if !target.isNone then node "Shape" (.list [target])
    else if !shape.isNone then constant ElementType.INT64 shape
    else refuse .expandTarget
  discard <| nodeTo "Expand" (.list [← op.inputAt "X" 0, shape]) (← op.output "Out")

/-- Replaces unknown dimensions by one, for this and later exports. -/
def knownShape : Int → Nat → Value → Emit Value
  | _, 0, shape => return shape
  | i, n + 1, shape => do
    if (← shape.nth i).same (.int (-1)) then
      let shape ← shape.set (.int i) (.int 1)
      editAttr "shape" shape
      knownShape (i + 1) n shape
    else knownShape (i + 1) n shape

/-- The shape to spread to: from tensors, a tensor, or an attribute. -/
def targetShape (op : OpNode) : Emit Value := do
  let parts := op.input "expand_shapes_tensor"
  let fromParts ← if parts.isNone then pure false
    else (do return (← parts.length) > 0 : Emit Bool)
  if fromParts then
    let shape ← node "Concat" parts [("axis", .int (-1))]
    node "Cast" (.list [shape]) [("to", .int ElementType.INT64)]
  else if (← (op.input "Shape").length) > 0 then
    let given ← op.inputAt "Shape" 0
    convertTo given (.int (← op.inputType "Shape" 0)) (.str "int64")
  else
    let shape := op.attr "shape"
    let n ← shape.length
    if n > 0 then constant ElementType.INT64 (← knownShape 0 n shape)
    else slip .unsetVariable

def expand : Rule := fun op => do
  let shape ← targetShape op
  discard <| nodeTo "Expand" (.list [← op.inputAt "X" 0, shape]) (← op.output "Out")

end ModelExport.Rules
