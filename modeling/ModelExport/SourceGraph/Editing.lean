import ModelExport.SourceGraph

/-!
# SourceGraph/Editing — nodes made and changed by hand

`SourceEdit.make` adds a node from a request in which everything may be left out: the name is then
the next one of the type, the single output slot holds the name, and further settings are attributes.
Slots and attributes of a node are read under names and positions given as values.
-/

namespace ModelExport

/-- **Changes to a source graph**: names that were taken before a fault stay taken. -/
abbrev SourceEdit := EStateM Fault SourceGraph

structure OpRequest where
  name : Option String := none
  inputs : Value := .none
  outputs : Value := .none
  attrs : Value := .none
  /-- Attributes given beside the table of attributes. -/
  further : Attrs := []

/-- **The request that named settings make**; those it does not know are attributes. -/
def OpRequest.ofSettings (settings : Attrs) : OpRequest :=
  let own (k : String) : Value := (Assoc.get? settings k).getD .none
  let names := ["inputs", "outputs", "attrs", "block", "layer_name"]
  { name := (own "layer_name").str?, inputs := own "inputs", outputs := own "outputs"
    attrs := own "attrs", further := settings.filter fun e => !names.contains e.1 }

def namedFields (fs : List (Value × Value)) : List (String × Value) :=
  fs.map fun f => (f.1.plain, f.2)

/-- Attributes of a request: a table, or nothing, with the further ones written into it. -/
def requestedAttrs (attrs : Value) (further : Attrs) : Except Slip Attrs :=
  match attrs with
  | .none => .ok further
  | .dict fs => .ok (Assoc.insertAll (namedFields fs) further)
  | _ => .error .missingMember

namespace OpNode

/-- The node with other inputs, which must be a table of slots. -/
def withInputs (op : OpNode) : Value → Except Fault OpNode
  | .dict fs => .ok { op with inputs := namedFields fs }
  | v => .error (.refusal (.slotInputs v))

def withOutputs (op : OpNode) : Value → Except Fault OpNode
  | .dict fs => .ok { op with outputs := namedFields fs }
  | v => .error (.refusal (.slotOutputs v))

/-- What a slot holds under a position; all of it without a position. -/
def slotMember (slot at? : Value) : Except Slip Value :=
  if at?.isNone then .ok slot else slot.get at?

/-- Reads an input slot: nothing when the slot or the position is missing. -/
def readInput (op : OpNode) (slot at? : Value) : Except Slip Value :=
  if !slot.isKey then .error .wrongKind
  else match slot.str?.bind (Assoc.get? op.inputs) with
    | none => .ok .none
    | some v => do
      if at?.isNone then .ok v
      else if ← Value.le (.int (← v.length)) at? then .ok .none
      else v.get at?

def readOutput (op : OpNode) (slot at? : Value) : Except Slip Value :=
  if !slot.isKey then .error .wrongKind
  else match slot.str?.bind (Assoc.get? op.outputs) with
    | none => .error .missingKey
    | some v => slotMember v at?

def readAttr (op : OpNode) (name default : Value) : Except Slip Value :=
  if !name.isKey then .error .wrongKind
  else .ok ((name.str?.bind (Assoc.get? op.attrs)).getD default)

def variableAt (op : OpNode) (place : Except Slip Value) : Except Slip Variable :=
  match op.block with
  | none => .error .missingMember
  | some b => do b.var (← place)

end OpNode

namespace SourceEdit

def freshName (type : String) : SourceEdit String :=
  modifyGet fun g =>
    let (name, counts) := g.counts.next type
    (name, { g with counts })

def lift : Except Fault α → SourceEdit α
  | .ok a => return a
  | .error f => throw f

/-- **Makes a node and adds it to the graph.** -/
def make (type : String) (r : OpRequest) : SourceEdit OpNode := do
  let name ← match r.name with
    | some n => pure n
    | none => freshName type
  let attrs ← lift ((requestedAttrs r.attrs r.further).mapError .slip)
  let bare : OpNode :=
    { name, type, inputs := [], outputs := [("Out", .str name)], attrs, block := none }
  let op ← lift (if r.inputs.isNone then .ok bare else bare.withInputs r.inputs)
  let op ← lift (if r.outputs.isNone then .ok op else op.withOutputs r.outputs)
  modify fun g => g.insert op
  return op

def node (name : String) : SourceEdit OpNode := do
  match Assoc.get? (← get).nodes name with
  | some op => return op
  | none => throw (.slip .missingKey)

def change (name : String) (f : OpNode → Except Fault OpNode) : SourceEdit OpNode := do
  let op ← lift (f (← node name))
  modify fun g => { g with nodes := Assoc.insert g.nodes name op }
  return op

end SourceEdit

end ModelExport
