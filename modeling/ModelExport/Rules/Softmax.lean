import ModelExport.Rules.Activation

/-!
# Rules/Softmax — normalised exponentials

Models apply them along the last axis.  For another axis the tensor is transposed by the permutation
that exchanges it with the last one (`exchangeWithLast`), which undoes itself.
-/

namespace ModelExport.Rules

open Emit

def exchangeWithLast (rank : Nat) (axis : Int) : Except Slip (List Int) := do
  let perm ← replaceAt ((List.range rank).map Int.ofNat) (-1) axis
  replaceAt perm axis (Int.ofNat rank - 1)

def frontAxis (axis : Value) (rank : Nat) : Except Slip Value := do
  if ← axis.lt (.int 0) then axis.add (.int rank) else .ok axis

def isLastAxis (axis : Value) (rank : Nat) : Bool := axis.same (.int (Int.ofNat rank - 1))

/-- Softmax along an axis, the last one by default. -/
def softmax : Rule := fun op => do
  let shape ← op.outputShape "Out" 0
  let rank := shape.length
  let axis := if (op.attr "axis").isNone then .int (-1) else op.attr "axis"
  let axis ← frontAxis axis rank
  if isLastAxis axis rank then
    discard <| nodeTo "Softmax" (op.input "X") (← op.output "Out") [("axis", axis)]
  else
    let perm ← exchangeWithLast rank (← axis.exact)
    let moved ← node "Transpose" (op.input "X") [("perm", .ints perm)]
    let soft ← node "Softmax" (.list [moved]) [("axis", .int (-1))]
    discard <| nodeTo "Transpose" (.list [soft]) (← op.output "Out") [("perm", .ints perm)]

/-- Cross entropy of labels against normalised scores; only along the last axis. -/
def softmaxCrossEntropy : Rule := fun op => do
  if (op.attr "soft_label").truthy then refuse .softLabel
  let labels ← op.inputAt "Label" 0
  let scores ← op.inputAt "Logits" 0
  let loss ← op.outputAt "Loss" 0
  let outputs ← if op.hasOutput "Softmax" then
      (do return [loss, ← op.outputAt "Softmax" 0] : Emit (List Value))
    else pure [loss]
  let rank := (← op.inputShape "Logits" 0).length
  let axis ← frontAxis (op.attr "axis") rank
  let attrs := [("ignore_index", op.attr "ignore_index"), ("reduction", .str "mean")]
  if isLastAxis axis rank then
    discard <| nodeTo "SoftmaxCrossEntropyLoss" (.list [scores, labels]) (.list outputs) attrs
  else
    let perm ← exchangeWithLast rank (← axis.exact)
    discard <| node "Transpose" (op.input "X") [("perm", .ints perm)]
    discard <| nodeTo "SoftmaxCrossEntropyLoss" (.list [scores, labels]) (.list outputs) attrs
    -- there is no tensor to bring back to the axis
    slip .undefinedName

end ModelExport.Rules
