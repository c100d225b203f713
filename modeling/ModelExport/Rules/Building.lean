import ModelExport.Draft

/-!
# Rules/Building — pieces that many rules share

Cutting a range (`Emit.cut`), bounding values (`Emit.bound`), bringing several tensors to the widest
of their element types (`Emit.align`) and converting one (`Emit.convertTo`).
-/

namespace ModelExport

/-- Refuses a shape whose dimensions after the first are not all known. -/
def requireStatic (shape : List Int) : Except Fault Unit :=
  if shape.length > 1 && shape.tail.contains (-1) then .error (.refusal .staticShape) else .ok ()

def requireStaticValue (shape : Value) : Except Fault Unit := do
  if (← shape.length.mapError .slip) > 1 then
    let later ← (shape.span 1 (← shape.length.mapError .slip)).mapError .slip
    if shape.isStr then .error (.slip .wrongKind)
    if (← later.members.mapError .slip).any fun d => d.same (.int (-1)) then
      .error (.refusal .staticShape)

namespace Emit

/-- **Cuts ranges out of axes.**  Before version 10 the ranges are attributes, from then on constants. -/
def cutTo (input axes starts ends outputs : Value) : Emit Value := do
  if (← opset) < 10 then
    nodeTo "Slice" input outputs [("axes", axes), ("starts", starts), ("ends", ends)]
  else
    let axesNode ← constant ElementType.INT64 axes
    let startsNode ← constant ElementType.INT64 starts
    let endsNode ← constant ElementType.INT64 ends
    nodeTo "Slice" (.list [input, startsNode, endsNode, axesNode]) outputs

def cut (input axes starts ends : Value) : Emit Value := cutTo input axes starts ends (.list [])

/-- A bound from version 11 on: a number becomes a constant, the name of a tensor is squeezed. -/
def boundInput (v : Value) : Emit Value :=
  if v.isStr then node "Squeeze" v [("axes", .ints [0])]
  else constant ElementType.FLOAT v

/-- **Bounds a tensor from above and below.**  Before version 11 the bounds must be numbers. -/
def bound (input upper lower outputs : Value) : Emit Value := do
  let version ← opset
  if (lower.isStr || upper.isStr) && version < 11 then refuse .boundIsTensor
  else if version < 11 then
    nodeTo "Clip" input outputs [("max", upper), ("min", lower)]
  else
    let lowerInput ← boundInput lower
    let upperInput ← boundInput upper
    nodeTo "Clip" (.list [input, lowerInput, upperInput]) outputs

/-- A constant of a program's element type, with given dimensions. -/
def constantOf (dtype value shape outputs : Value) : Emit Value := do
  let type ← ElementType.convert dtype
  nodeTo "Constant" (.list []) outputs [("dims", shape), ("dtype", type), ("value", value)]

/-- The element types that can be aligned, from narrow to wide, by program number. -/
def alignable : List Int := [0, 1, 2, 3, 4, 5]

def widthRank (dtype : Value) : Except Slip Nat :=
  match alignable.findIdx? fun c => dtype.same (.int c) with
  | some i => .ok i
  | none => .error .badValue

def widthRanks (dtypes : Value) : Except Slip (List Nat) := do (← dtypes.members).mapM widthRank

/-- Casts the tensors that are not of the widest rank. -/
def castNarrow (target : Value) (widest : Nat) (nodes : Value) :
    Nat → List Nat → Emit (List Value)
  | _, [] => return []
  | i, r :: rs => do
    let name ← nodes.nth i
    let name ← if r == widest then pure name else node "Cast" (.list [name]) [("to", target)]
    return name :: (← castNarrow target widest nodes (i + 1) rs)

/-- **Brings tensors to the widest of their element types.** -/
def align (nodes dtypes : Value) : Emit Value := do
  if (← nodes.length) != (← dtypes.length) then refuse .alignmentLength
  let ranks ← widthRanks dtypes
  match ranks.max? with
  | none => return nodes
  | some widest =>
    let target ← ElementType.convert (.int ((alignable[widest]?).getD 0))
    return .list (← castNarrow target widest nodes 0 ranks)

/-- Converts a tensor to an element type given by name, unless it already has it. -/
def convertTo (input origin target : Value) : Emit Value := do
  let origin ← if origin.isStr then pure origin else ElementType.textOf origin
  if origin.same target then return input
  else node "Cast" input [("to", ← ElementType.modelText target)]

end Emit

end ModelExport
