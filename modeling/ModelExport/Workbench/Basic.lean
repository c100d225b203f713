import ModelExport.Export
import ModelExport.SourceGraph.Editing

/-!
# Workbench/Basic — a graph that is put together by hand

A workbench holds a graph and nodes that were made on their own.  Putting a free node into the graph
does not copy it: until one of the two is replaced, a change of the free node is a change of the
node in the graph, and the other way round.
-/

namespace ModelExport

/-- **A graph that is put together by hand.** -/
structure Workbench where
  kind : GraphKind
  draft : Draft
  /-- Nodes made on their own, by name. -/
  free : List (String × Node) := []
  /-- Entries of the graph that are a free node, with its name. -/
  links : List (String × String) := []
  /-- What the graph is told apart by, once that is set. -/
  id : Option Value := none
  /-- Successors by node name, once they are set. -/
  edges : Option (List (String × Value)) := none
  /-- Inputs and outputs given as they are. -/
  inputs : List Value := []
  outputs : List Value := []
  /-- Parameters given as they are. -/
  parameters : List (Value × Value) := []

/-- **Work on a graph**: what was changed before a fault stays changed. -/
abbrev Bench := EStateM Fault Workbench

instance : MonadLift (Except Fault) Bench where
  monadLift
    | .ok a => pure a
    | .error f => throw f

instance : MonadLift (Except Slip) Bench where
  monadLift
    | .ok a => pure a
    | .error s => throw (.slip s)

structure NodeView where
  name : Value
  type : String
  domain : Value
  inputs : Value
  outputs : Value
  attrs : Value

def Node.view (n : Node) : NodeView :=
  { name := .str n.name, type := n.type, domain := n.domain, inputs := .list n.inputs,
    outputs := .list n.outputs, attrs := slotsValue n.attrs }

mutual

def Value.nodeNames : Value → List String
  | .object .node n => [n]
  | .list xs => Value.nodeNamesAll xs
  | .tuple xs => Value.nodeNamesAll xs
  | .dict fs => Value.nodeNamesFields fs
  | _ => []
termination_by structural v => v

def Value.nodeNamesAll : List Value → List String
  | [] => []
  | x :: xs => x.nodeNames ++ Value.nodeNamesAll xs
termination_by structural xs => xs

def Value.nodeNamesFields : List (Value × Value) → List String
  | [] => []
  | f :: fs => Value.nodeNamesField f ++ Value.nodeNamesFields fs
termination_by structural fs => fs

def Value.nodeNamesField : Value × Value → List String
  | (k, v) => k.nodeNames ++ v.nodeNames
termination_by structural f => f

end

namespace Workbench

def setEntry (w : Workbench) (key : String) (n : Node) : Workbench :=
  { w with draft := { w.draft with nodes := Assoc.insert w.draft.nodes key n } }

def entriesOf (w : Workbench) (name : String) : List String :=
  (w.links.filter fun l => l.2 == name).map Prod.fst

/-- A free node and all entries that are this node. -/
def setFree (w : Workbench) (name : String) (n : Node) : Workbench :=
  (w.entriesOf name).foldl (fun w key => w.setEntry key n)
    { w with free := Assoc.insert w.free name n }

def setPlaced (w : Workbench) (key : String) (n : Node) : Workbench :=
  match Assoc.get? w.links key with
  | some name => w.setFree name n
  | none => w.setEntry key n

/-- An entry of its own takes the place of whatever stood there. -/
def replaceEntry (w : Workbench) (key : String) (n : Node) : Workbench :=
  { w.setEntry key n with links := Assoc.erase w.links key }

def linkEntry (w : Workbench) (key name : String) (n : Node) : Workbench :=
  { w.setEntry key n with links := Assoc.insert w.links key name }

/-- Entries that have been given a record are no free nodes any longer. -/
def tidy (w : Workbench) : Workbench :=
  { w with links := w.links.filter fun l =>
      match Assoc.get? w.draft.nodes l.1 with
      | some n => n.record.isNone
      | none => false }

end Workbench

namespace Bench

def slip (s : Slip) : Bench α := throw (.slip s)

def emit (x : Emit α) : Bench α := fun w =>
  match EStateM.run x w.draft with
  | .ok a d => .ok a { w with draft := d }.tidy
  | .error f d => .error f { w with draft := d }.tidy

/-- What only a graph that is bound for a model offers. -/
def onModel (x : Emit α) : Bench α := do
  if (← get).kind == .plain then slip .missingMember
  emit x

def freeNode (name : String) : Bench Node := do
  match Assoc.get? (← get).free name with
  | some n => return n
  | none => slip .missingKey

/-- An attribute of a free node, by its name; nothing when the node has none of this name. -/
def attributeOf (name : String) (key : Value) : Bench Value := do
  let n ← freeNode name
  if !key.isKey then slip .wrongKind
  return (key.str?.bind (Assoc.get? n.attrs)).getD .none

/-- Every node that a value speaks of must have been made. -/
def checkNodes (v : Value) : Bench Unit := do
  let free := (← get).free
  if v.nodeNames.any fun n => !Assoc.contains free n then slip .missingKey

end Bench

end ModelExport
