import ModelExport.Rules.Building

/-!
# Rules/Selection — largest elements, sorting, picking by index
-/

namespace ModelExport.Rules

open Emit

/-- Positions of the elements that are not zero, one per row. -/
def nonzeroRows : Rule := fun op => do
  let columns ← node "NonZero" (op.input "Condition")
  discard <| nodeTo "Transpose" (.list [columns]) (← op.output "Out") [("perm", .ints [1, 0])]

/-- The number of elements to pick, as a 64-bit tensor: an input when there is one, else an
attribute. -/
def pickCount (op : OpNode) : Emit Value := do
  let given ← if op.hasInput "K" then (do return (← (op.input "K").length) > 0 : Emit Bool)
    else pure false
  if given then
    let count ← op.inputAt "K" 0
    let name ← ElementType.textOf (.int (← op.inputType "K" 0))
    if name.same (.str "int64") then return count
    else node "Cast" (.list [count]) [("to", .int ElementType.INT64)]
  else constant ElementType.INT64 (.list [op.attr "k"])

/-- The largest elements and their positions; `attrs` reads what the operator says about the order. -/
def largest (attrs : OpNode → Attrs) : Rule := fun op => do
  let count ← pickCount op
  discard <| nodeTo "TopK" (.list [← op.inputAt "X" 0, count])
    (.list [← op.outputAt "Out" 0, ← op.outputAt "Indices" 0]) (attrs op)

def orderAttrs (op : OpNode) : Attrs :=
  [("largest", op.attr "largest"), ("sorted", op.attr "sorted"), ("axis", op.attr "axis")]

/-- Sorting in either direction, as a choice of all elements. -/
def argSort : Rule := fun op => do
  let shape ← node "Shape" (← op.inputAt "X" 0)
  let axis ← constant ElementType.INT64 (.list [op.attr "axis"])
  let size ← node "Gather" (.list [shape, axis])
  let descending : Int := if (op.attr "descending").truthy then 1 else 0
  discard <| nodeTo "TopK" (.list [← op.inputAt "X" 0, size])
    (.list [← op.outputAt "Out" 0, ← op.outputAt "Indices" 0])
    [("axis", op.attr "axis"), ("largest", .int descending)]

/-- Sorting from the largest element down, for a known size. -/
def argSortDescending : Rule := fun op => do
  let shape ← op.inputShape "X" 0
  let size ← memberAt shape (← (op.attr "axis").exact)
  unless (op.attr "descending").truthy do refuse .ascendingSort
  discard <| nodeTo "TopK" (← op.inputAt "X" 0)
    (.list [← op.outputAt "Out" 0, ← op.outputAt "Indices" 0])
    [("axis", op.attr "axis"), ("k", .int size)]

def indexSelect : Rule := fun op => do
  discard <| nodeTo "Gather" (.list [← op.inputAt "X" 0, ← op.inputAt "Index" 0]) (← op.output "Out")
    [("axis", op.attr "dim")]

/-- Picks by indices; `wide` is the node for indices of more than one axis, where there is one. -/
def gather (wide : Option String) : Rule := fun op => do
  if (← op.inputShape "Index" 0).length == 1 then
    discard <| nodeTo "Gather" (.list [← op.inputAt "X" 0, ← op.inputAt "Index" 0])
      (← op.output "Out")
  else match wide with
    | none => refuse .gatherRank
    | some type =>
      discard <| nodeTo type (.list [← op.inputAt "X" 0, ← op.inputAt "Index" 0]) (← op.output "Out")

/-- Rows of a table by identifier; `squeezes` drops a last axis of one element first. -/
def embedding (squeezes : Bool) : Rule := fun op => do
  let ids ← op.inputAt "Ids" 0
  let drop ← if squeezes then
      (do return (← memberAt (← op.inputShape "Ids" 0) (-1)) == 1 : Emit Bool)
    else pure false
  let ids ← if drop then node "Squeeze" ids [("axes", .ints [-1])] else pure ids
  discard <| nodeTo "Gather" (.list [← op.inputAt "W" 0, ids]) (← op.output "Out")

end ModelExport.Rules
