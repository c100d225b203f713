import ModelExport.Rules.Arithmetic

/-!
# Rules/Comparison — comparisons and truth values
-/

namespace ModelExport.Rules

open Emit

/-- Inequality, as one minus equality. -/
def notEqual : Rule := fun op => do
  let equal ← node "Equal" (.list [← op.inputAt "X" 0, ← op.inputAt "Y" 0])
  let number ← node "Cast" (.list [equal]) [("to", .int ElementType.INT64)]
  let one ← constant ElementType.INT64 (.int 1)
  let opposite ← node "Sub" (.list [one, number])
  discard <| nodeTo "Cast" (.list [opposite]) (← op.output "Out") [("to", .int ElementType.BOOL)]

def isFinite : Rule := fun op => do
  let infinite ← node "IsInf" (← op.inputAt "X" 0)
  let undefined ← node "IsNaN" (← op.inputAt "X" 0)
  let either ← node "Or" (.list [infinite, undefined])
  discard <| nodeTo "Not" (.list [either]) (← op.output "Out")

end ModelExport.Rules
