import ModelExport.Operator
import ModelExport.Node

/-!
# SourceGraph — a program as a graph

`SourceGraph.ofProgram` lists the operations of all blocks, each under the next name of its type,
together with the inputs, the outputs and the parameters of the program.
-/

namespace ModelExport

structure Terminal where
  name : String
  shape : List Int
  dtype : Int

/-- **A program as a graph.** -/
structure SourceGraph where
  inputs : List Terminal
  outputs : List Terminal
  nodes : List (String × OpNode)
  weights : List (String × Weight)
  counts : NameCounts

namespace SourceGraph

def empty : SourceGraph := { inputs := [], outputs := [], nodes := [], weights := [], counts := [] }

def isHolderName (name : String) : Bool := name.endsWith "feed" || name.endsWith "fetch"

/-- Parameters: the contents of the persistable variables, holders apart. -/
def weightsOf : List Variable → Except Slip (List (String × Weight))
  | [] => .ok []
  | v :: rest => do
    if isHolderName v.name || !v.persistable then weightsOf rest
    else
      let w ← v.weight
      .ok ((v.name, w) :: (← weightsOf rest))

def terminal (b : Block) (name : Value) : Except Slip Terminal := do
  let v ← b.var name
  .ok { name := v.name, shape := v.shape, dtype := v.dtype }

def terminalOf (v : Variable) : Terminal := { name := v.name, shape := v.shape, dtype := v.dtype }

def nodeOf (b : Block) (name : String) (op : Operation) : OpNode :=
  { name, type := op.type, inputs := op.inputs.map fun s => (s.1, .strs s.2),
    outputs := op.outputs.map fun s => (s.1, .strs s.2), attrs := op.attrs, block := some b }

/-- Adds a node, unless it belongs to the interface. -/
def insert (g : SourceGraph) (op : OpNode) : SourceGraph :=
  if Node.isInterface op.type then g else { g with nodes := Assoc.insert g.nodes op.name op }

def addOperation (b : Block) (g : SourceGraph) (op : Operation) : SourceGraph :=
  if Node.isInterface op.type then g
  else
    let (name, counts) := g.counts.next op.type
    { g.insert (nodeOf b name op) with counts }

/-- **The graph of a program** with given parameters, inputs and outputs. -/
def build (p : Program) (weights : List (String × Weight)) (inputs : List Terminal)
    (outputs : List Terminal) : SourceGraph :=
  p.blocks.foldl (fun g b => b.ops.foldl (addOperation b) g)
    { empty with inputs, outputs, weights }

/-- **The graph of a program**: parameters from its global block, inputs by name, outputs as
variables. -/
def ofProgram (p : Program) (feeds : Value) (outputs : Except Slip (List Variable)) :
    Except Slip SourceGraph := do
  let weights ← weightsOf p.global.vars
  let inputs ← (← feeds.members).mapM (terminal p.global)
  .ok (build p weights inputs ((← outputs).map terminalOf))

def withEdits (g : SourceGraph) (edits : List (String × Attrs)) : SourceGraph :=
  { g with nodes := g.nodes.map fun e =>
      match Assoc.get? edits e.1 with
      | some changed => (e.1, { e.2 with attrs := Assoc.insertAll e.2.attrs changed })
      | none => e }

end SourceGraph

end ModelExport
