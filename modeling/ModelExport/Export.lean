import ModelExport.Mapping
import ModelExport.Renaming
import ModelExport.Rules.Filling

/-!
# Export — from a source graph to a model

`Emit.build` maps a source graph, `Emit.model` puts the model together.  A `Session` carries from one
export to the next what is counted over all of them.
-/

namespace ModelExport

/-- **What lasts from one export to the next.** -/
structure Session where
  registry : Registry
  expansions : NameCounts := []
  renames : NameCounts := []

structure ExportOptions where
  opset : Int := 9
  checker : Value := .bool false
  exportType : ExportType := .str "ONNX"
  /-- Does the checker find fault with every model? -/
  checkerFails : Bool := false

namespace Emit

def valueInfo (name shape dtype : Value) : Except Slip ValueInfo := do
  .ok { name, type := ← ElementType.convert dtype, shape }

def addInput (name shape dtype : Value) : Emit Unit := do
  let info ← valueInfo name shape dtype
  modify fun d => { d with inputs := d.inputs ++ [info] }

def addOutput (name shape dtype : Value) : Emit Unit := do
  let info ← valueInfo name shape dtype
  modify fun d => { d with outputs := d.outputs ++ [info] }

def addWeights : List (String × Weight) → Emit Unit
  | [] => return
  | (name, w) :: rest => do
    Rules.keepWeight (.str name) (.int w.dtype) (.tuple (w.shape.map .int)) w.elements
    addWeights rest

def addInputs : List Terminal → Emit Unit
  | [] => return
  | t :: rest => do
    addInput (.str t.name) (.tuple (t.shape.map .int)) (.int t.dtype)
    addInputs rest

def addOutputs : List Terminal → Emit Unit
  | [] => return
  | t :: rest => do
    addOutput (.str t.name) (.tuple (t.shape.map .int)) (.int t.dtype)
    addOutputs rest

def chooseVersion (r : Registry) (nodes : List OpNode) : Emit Unit := do
  let version ← recommend r nodes (← opset)
  modify fun d => { d with opset := version }

/-- **Maps a source graph.** -/
def build (r : Registry) (exportType : ExportType) (g : SourceGraph) : Emit Unit := do
  let nodes := g.nodes.map Prod.snd
  chooseVersion r nodes
  addWeights g.weights
  addInputs g.inputs
  addOutputs g.outputs
  mapAll r exportType nodes

def model : Emit Model := do
  let d ← get
  return {
    producer := "PaddlePaddle"
    opsets := (.str "", d.opset) :: d.domains.map fun name => (name, 1)
    graphName := "paddle-onnx"
    nodes := d.weights.map Prod.snd ++ d.nodes.filterMap fun e => e.2.record
    inputs := d.inputs
    outputs := d.outputs }

/-- Asks the checker about a model, and says that it is valid whatever the checker says. -/
def checkModel (fails : Bool) : Emit Unit := do
  notify (.info "ONNX model generated is valid.")
  if fails then refuse .invalidModel

def checkedModel (checker : Value) (fails : Bool) : Emit Model := do
  let m ← model
  if checker.truthy then checkModel fails
  return m

/-- **Exports a source graph.** -/
def exportGraph (r : Registry) (o : ExportOptions) (g : SourceGraph) : Emit Model := do
  build r o.exportType g
  runPasses .model [.str "inplace_node_pass"]
  checkedModel o.checker o.checkerFails

end Emit

/-- A computation on a draft, its outcome and everything it leaves behind. -/
structure Outcome (α : Type) where
  result : Except Fault α
  draft : Draft

namespace Session

def draft (s : Session) (opset : Int) : Draft :=
  { opset, expansions := s.expansions, renames := s.renames }

def run (x : Emit α) (d : Draft) : Outcome α :=
  match EStateM.run x d with
  | .ok a d => { result := .ok a, draft := d }
  | .error f d => { result := .error f, draft := d }

def after (s : Session) (d : Draft) : Session :=
  { s with expansions := d.expansions, renames := d.renames }

end Session

end ModelExport
