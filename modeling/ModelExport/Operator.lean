import ModelExport.Program
import ModelExport.Refusal

/-!
# Operator — operations as nodes of a source graph

An `OpNode` is an operation under the name it has in its graph, with the block that declares its
variables.  Reading an input slot that is missing gives nothing; reading a missing output slot fails.
-/

namespace ModelExport

/-- **A node of a source graph.** -/
structure OpNode where
  name : String
  type : String
  inputs : List (String × Value)
  outputs : List (String × Value)
  attrs : Attrs
  /-- The block that declares its variables; a node made by hand has none. -/
  block : Option Block

namespace OpNode

/-- The names in an input slot; nothing when the slot is missing. -/
def input (op : OpNode) (slot : String) : Value := (Assoc.get? op.inputs slot).getD .none

/-- The `i`-th name in an input slot; nothing when there are not that many. -/
def inputAt (op : OpNode) (slot : String) (i : Int) : Except Slip Value :=
  match Assoc.get? op.inputs slot with
  | none => .ok .none
  | some v => do
    if Int.ofNat (← v.length) ≤ i then .ok .none else v.nth i

/-- The first name in an input slot, which must be there. -/
def firstInput (op : OpNode) (slot : String) : Except Slip Value := (op.input slot).nth 0

def output (op : OpNode) (slot : String) : Except Slip Value :=
  match Assoc.get? op.outputs slot with
  | some v => .ok v
  | none => .error .missingKey

def outputAt (op : OpNode) (slot : String) (i : Int) : Except Slip Value := do
  (← op.output slot).nth i

def var (op : OpNode) (name : Value) : Except Slip Variable :=
  match op.block with
  | some b => b.var name
  | none => .error .missingMember

def inputVar (op : OpNode) (slot : String) (i : Int) : Except Slip Variable := do
  op.var (← op.inputAt slot i)

def inputShape (op : OpNode) (slot : String) (i : Int) : Except Slip (List Int) := do
  .ok (← op.inputVar slot i).shape

def inputType (op : OpNode) (slot : String) (i : Int) : Except Slip Int := do
  .ok (← op.inputVar slot i).dtype

def outputShape (op : OpNode) (slot : String) (i : Int) : Except Slip (List Int) := do
  .ok (← op.var (← op.outputAt slot i)).shape

/-- An attribute; nothing when it is missing. -/
def attr (op : OpNode) (name : String) : Value := (Assoc.get? op.attrs name).getD .none

def attrOr (op : OpNode) (name : String) (default : Value) : Value :=
  (Assoc.get? op.attrs name).getD default

def hasInput (op : OpNode) (slot : String) : Bool := Assoc.contains op.inputs slot

def hasOutput (op : OpNode) (slot : String) : Bool := Assoc.contains op.outputs slot

def hasAttr (op : OpNode) (name : String) : Bool := Assoc.contains op.attrs name

end OpNode

def slotsValue (slots : List (String × Value)) : Value :=
  .dict (slots.map fun s => (.str s.1, s.2))

def OpNode.site (op : OpNode) : Site :=
  { name := op.name, type := op.type, inputs := slotsValue op.inputs,
    outputs := slotsValue op.outputs }

end ModelExport
