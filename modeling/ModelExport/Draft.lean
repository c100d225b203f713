import ModelExport.Node
import ModelExport.Notice
import ModelExport.Operator

/-!
# Draft — a model under construction

`Emit` is the state of a draft together with early ends: what was added before a fault stays.
`Emit.node` adds a node and gives back its outputs, a single one as itself; when no name is asked
for, the node and the outputs given as a count take the next names of its type.
-/

namespace ModelExport

/-- How operators that can be expanded are exported: expanded, or kept as they are. -/
abbrev ExportType := Value

/-- **A model under construction.** -/
structure Draft where
  opset : Int
  nodes : NodeMap := []
  counts : NameCounts := []
  /-- Domains other than the default one. -/
  domains : List Value := []
  inputs : List ValueInfo := []
  outputs : List ValueInfo := []
  weights : List (String × ModelNode) := []
  notices : List Notice := []
  /-- Attributes of the operator being mapped that its rule has changed. -/
  edits : Attrs := []
  /-- Changed attributes of the operators mapped so far, by name. -/
  kept : List (String × Attrs) := []
  /-- How often operators of each type have been expanded. -/
  expansions : NameCounts := []
  /-- How often each tensor name has been renamed. -/
  renames : NameCounts := []

/-- **Computations on a draft.** -/
abbrev Emit := EStateM Fault Draft

instance : MonadLift (Except Slip) Emit where
  monadLift
    | .ok a => pure a
    | .error s => throw (.slip s)

instance : MonadLift (Except Fault) Emit where
  monadLift
    | .ok a => pure a
    | .error f => throw f

namespace Emit

def refuse (r : Refusal) : Emit α := throw (.refusal r)

def slip (s : Slip) : Emit α := throw (.slip s)

def notify (n : Notice) : Emit Unit := modify fun d => { d with notices := d.notices ++ [n] }

def opset : Emit Int := do return (← get).opset

def freshName (type : String) : Emit String :=
  modifyGet fun d =>
    let (name, counts) := d.counts.next type
    (name, { d with counts })

def useDomain (domain : Value) : Emit Unit :=
  unless domain.isNone do
    modify fun d =>
      if d.domains.any fun x => x.same domain then d else { d with domains := d.domains ++ [domain] }

/-- Changes an attribute of the operator being mapped, for this and later exports. -/
def editAttr (name : String) (value : Value) : Emit Unit :=
  modify fun d => { d with edits := Assoc.insert d.edits name value }

def freshNames (type : String) : Nat → Emit (List Value)
  | 0 => return []
  | n + 1 => do
    let name ← freshName type
    return .str name :: (← freshNames type n)

/-- One output: an integer asks for a fresh name, a node stands for its name. -/
def outputName (type : String) : Value → Emit Value
  | .object .node n => return .str n
  | .int _ => return .str (← freshName type)
  | .bool _ => return .str (← freshName type)
  | v => return v

def outputNames (type : String) : List Value → Emit (List Value)
  | [] => return []
  | v :: vs => do
    let name ← outputName type v
    return name :: (← outputNames type vs)

/-- The outputs a request stands for: none or an empty list is the node itself, a number asks for
that many fresh names. -/
def outputsFor (type name : String) (outputs : Value) : Emit Value :=
  match outputs with
  | .none => return .list [.str name]
  | .int n => return .list (← freshNames type n.toNat)
  | .bool b => return .list (← freshNames type (if b then 1 else 0))
  | .list [] => return .list [.str name]
  | .list xs => return .list (← outputNames type xs)
  | v => return v

/-- A single output stands for itself. -/
def result (outputs : List Value) : Value :=
  match outputs with
  | [x] => x
  | xs => .list xs

/-- **Adds a node** under a given or fresh name, and gives back its outputs. -/
def nodeNamed (type : String) (inputs outputs : Value) (attrs : Attrs) (name : Option String)
    (domain : Value) : Emit Value := do
  let name ← match name with
    | some n => pure n
    | none => freshName type
  useDomain domain
  let inputs := match inputs with
    | .none => .list []
    | v => v
  let outputs ← outputsFor type name outputs
  let node ← Node.recorded type name inputs outputs attrs domain
  modify fun d => { d with nodes := NodeMap.keep d.nodes node }
  return result node.outputs

/-- Adds a node that writes the given outputs. -/
def nodeTo (type : String) (inputs outputs : Value) (attrs : Attrs := []) : Emit Value :=
  nodeNamed type inputs outputs attrs none .none

/-- Adds a node that writes an output of its own name. -/
def node (type : String) (inputs : Value) (attrs : Attrs := []) : Emit Value :=
  nodeTo type inputs (.list []) attrs

def constant (type : Int) (value : Value) : Emit Value :=
  node "Constant" (.list []) [("dtype", .int type), ("value", value)]

def constantShaped (type : Int) (dims value : Value) : Emit Value :=
  node "Constant" (.list []) [("dims", dims), ("dtype", .int type), ("value", value)]

end Emit

/-- **A conversion rule**: adds the nodes that stand for an operator. -/
abbrev Rule := OpNode → Emit Unit

end ModelExport
