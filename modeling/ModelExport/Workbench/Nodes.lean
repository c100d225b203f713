import ModelExport.Listing
import ModelExport.Workbench.Basic

/-!
# Workbench/Nodes — making, changing and removing nodes

`Bench.draw` makes a free node, `Bench.place` puts it into the graph.  Nodes of a model graph are
made and changed with their records (`Bench.make`, `Bench.update`).
-/

namespace ModelExport

/-- What a node is to be made from, or changed to; what is not given is nothing. -/
structure NodeRequest where
  type : Option String := none
  name : Value := .none
  inputs : Value := .none
  outputs : Option Value := none
  attrs : Value := .none
  domain : Value := .none
  toEnd : Value := .bool true
  /-- Attributes given beside the table of attributes. -/
  further : Attrs := []

namespace NodeRequest

/-- The settings that are no attributes, for a node that is made or changed. -/
def ownNames : GraphKind → Bool → List String
  | _, true => ["inputs", "outputs", "attrs", "layer_name", "domain"]
  | .plain, false => ["op_type", "inputs", "outputs", "attrs", "block", "move_to_end", "domain"]
  | .model, false => ["op_type", "inputs", "outputs", "attrs"]

/-- **The request that named settings make**, for a node that is made or changed. -/
def ofSettings (kind : GraphKind) (making : Bool) (settings : Attrs) : NodeRequest :=
  let names := ownNames kind making
  let own? (k : String) : Option Value :=
    if names.contains k then Assoc.get? settings k else none
  let own (k : String) : Value := (own? k).getD .none
  { type := (own "op_type").str?, name := own "layer_name", inputs := own "inputs"
    outputs := own? "outputs", attrs := own "attrs", domain := own "domain"
    toEnd := (own? "move_to_end").getD (.bool true)
    further := settings.filter fun e => !names.contains e.1 }

end NodeRequest

namespace Bench

/-- **Makes a free node.**  An older one of that name stays where it was put. -/
def draw (type : String) (inputs outputs : Value) (attrs : Attrs) (name : String) (domain : Value) :
    Bench Node := do
  let n ← Node.plain type name inputs outputs attrs domain
  modify fun w =>
    { w with free := Assoc.insert w.free name n, links := w.links.filter fun l => l.2 != name }
  return n

/-- **Puts a free node into the graph**, unless it describes an interface. -/
def place (name : String) : Bench Unit := do
  let n ← freeNode name
  unless Node.isInterface n.type do modify fun w => w.linkEntry n.name name n

def changeFree (name : String) (f : Node → Except Fault Node) : Bench Node := do
  let n ← f (← freeNode name)
  modify fun w => w.setFree name n
  return n

def setInputs (name : String) (v : Value) : Bench Node :=
  changeFree name fun n => do .ok { n with inputs := ← Node.inputList v }

def setOutputs (name : String) (v : Value) : Bench Node :=
  changeFree name fun n => do .ok { n with outputs := ← Node.outputList v }

/-- Is the node of a name in the graph, and which node is it? -/
def target (name : String) : Bench (Bool × Node) := do
  match Assoc.get? (← get).draft.nodes name with
  | some n => return (true, n)
  | none => return (false, ← freeNode name)

/-- Changes the node in the graph, or the free one. -/
def store (placed : Bool) (name : String) (n : Node) : Bench Unit :=
  modify fun w => if placed then w.setPlaced name n else w.setFree name n

/-! ## Plain graphs -/

/-- A node asked of a plain graph.  The fields are taken one place further than they are given: the
name for the inputs, the inputs for the outputs, the outputs for the attributes and the attributes
for the name.  A table is no key, so only an interface node, which is not kept, is made at all. -/
def makePlain (type : String) (r : NodeRequest) : Bench NodeView := do
  let name ← if r.name.isNone then (do return .str (← emit (Emit.freshName type)) : Bench Value)
    else pure r.name
  let attrs ← requestedAttrs r.attrs r.further
  let inputs ← Node.inputList name
  let outputs ← Node.outputList (if r.inputs.isNone then .list [] else r.inputs)
  unless Node.isInterface type do slip .wrongKind
  let given := match r.outputs with
    | none | some .none => .list [name]
    | some v => v
  return { name := slotsValue attrs, type, domain := r.domain, inputs := .list inputs,
           outputs := .list outputs, attrs := given }

/-- Puts a changed node where it belongs: at the end, for which it must be in the graph, or where it
stands. -/
def settle (placed : Bool) (toEnd : Bool) (name : String) (n : Node) : Bench Unit := do
  let nodes := (← get).draft.nodes
  if toEnd then
    if !Assoc.contains nodes n.name then slip .missingKey
    modify fun w =>
      { w with draft := { w.draft with nodes := Assoc.erase nodes n.name ++ [(n.name, n)] } }
  else unless placed do modify fun w => w.linkEntry n.name name n

/-- Changes a node of a plain graph field by field. -/
def updatePlain (name : String) (r : NodeRequest) : Bench NodeView := do
  let (placed, n) ← target name
  let n := { n with type := r.type.getD n.type }
  store placed name n
  let n ← if r.inputs.isNone then pure n
    else (do return { n with inputs := ← Node.inputList r.inputs } : Bench Node)
  store placed name n
  let n ← match r.outputs with
    | none | some .none => pure n
    | some v => (do return { n with outputs := ← Node.outputList v } : Bench Node)
  store placed name n
  let n := { n with attrs := ← requestedAttrs r.attrs r.further }
  let n := if r.domain.isNone then n else { n with domain := r.domain }
  store placed name n
  settle placed r.toEnd.truthy name n
  return n.view

/-! ## Model graphs -/

/-- Makes a node of a model graph, and gives back its outputs. -/
def makeModel (type : String) (r : NodeRequest) : Bench Value := do
  emit do
    let name ← match r.name with
      | .str n => pure n
      | _ => Emit.freshName type
    Emit.useDomain r.domain
    let attrs ← requestedAttrs r.attrs r.further
    Emit.nodeNamed type r.inputs (r.outputs.getD (.list [])) attrs (some name) r.domain

/-- Changes a node of a model graph: a new node takes its place.  Attributes given on their own are
written into the table of the node itself. -/
def updateModel (name : String) (r : NodeRequest) : Bench NodeView := do
  let (placed, n) ← target name
  let attrs ← if r.attrs.isNone then pure (Assoc.insertAll n.attrs r.further)
    else (do return ← requestedAttrs r.attrs r.further : Bench Attrs)
  if r.attrs.isNone then store placed name { n with attrs }
  let inputs := if r.inputs.isNone then .list n.inputs else r.inputs
  let outputs := match r.outputs with
    | none | some .none => .list n.outputs
    | some v => v
  let new ← Node.recorded (r.type.getD n.type) n.name inputs outputs attrs n.domain
  unless Node.isInterface new.type do modify fun w => w.replaceEntry new.name new
  return new.view

/-- **Changes a node**, the one in the graph before the free one. -/
def update (name : String) (r : NodeRequest) : Bench NodeView := do
  match (← get).kind with
  | .plain => updatePlain name r
  | .model => updateModel name r

/-! ## Finding and removing -/

/-- Looks for a node among the names: it cannot be told from the name it is filed under. -/
def findFiled (name : String) : Bench Node := do
  if Assoc.contains (← get).draft.nodes name then slip .missingMember
  throw (.refusal (.noSuchNode (.str (← freeNode name).listing)))

def find (name : Value) : Bench Node := do
  if !name.isKey then slip .wrongKind
  match name, name.str?.bind (Assoc.get? (← get).draft.nodes) with
  | _, some n => return n
  | .object .node n, none => findFiled n
  | name, none => throw (.refusal (.noSuchNode name))

/-- The entry of a name, or a copy of it, which cannot be had. -/
def getNode (name copied : Value) : Bench Node := do
  let n ← find name
  if copied.truthy then slip .missingMember
  return n

def removeNamed (name : Value) : Bench Node := do
  let n ← find name
  modify fun w =>
    { w with draft := { w.draft with nodes := Assoc.erase w.draft.nodes name.plain },
             links := Assoc.erase w.links name.plain }
  return n

/-- **Removes an entry**, given by name or as a node. -/
def remove : Value → Bench Node
  | .object .node n => removeNamed (.str n)
  | v => removeNamed v

def recordOf (name : String) : Bench ModelNode := do
  match Assoc.get? (← get).draft.nodes name with
  | none => slip .missingKey
  | some n => match n.record with
    | some r => return r
    | none => slip .missingMember

end Bench

end ModelExport
