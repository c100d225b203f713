import ModelExport.Conversion
import ModelExport.Shelf

/-!
# Layer — from a layer to a model

A layer is traced to a program; a loaded layer brings its program along.  A copy of the traced program
gets a scaling by one for each output, so that every output is written by an operation of its own, and
an interface (`Layer.traced`).
-/

namespace ModelExport

/-- **A layer.** -/
structure Layer where
  /-- Was it loaded together with its program? -/
  loaded : Bool
  program : Program
  parameters : List Variable := []
  buffers : List Variable := []
  inputs : List String := []
  outputs : List String := []
  /-- Can it be traced to a program? -/
  traceable : Bool := true

/-- What is offered as a layer. -/
inductive LayerOffer where
  | layer (l : Layer)
  | other (v : Value)

/-- What is offered to be converted as it was loaded. -/
inductive LoadedOffer where
  | program (p : Program)
  | layer (l : Layer)
  | other (v : Value)

def LayerOffer.loaded : LayerOffer → LoadedOffer
  | layer l => .layer l
  | other v => .other v

namespace Layer

def ownWeights (known : String → Bool) : List Variable → List (String × Weight) →
    Except Slip (List (String × Weight))
  | [], ws => .ok ws
  | v :: rest, ws => do
    if SourceGraph.isHolderName v.name || !v.persistable || !known v.name then
      ownWeights known rest ws
    else ownWeights known rest (Assoc.insert ws v.name (← v.weight))

def ownBuffers (known : String → Bool) : List Variable → List (String × Weight) →
    Except Slip (List (String × Weight))
  | [], ws => .ok ws
  | v :: rest, ws => do
    if SourceGraph.isHolderName v.name || !v.initialized || !known v.name then
      ownBuffers known rest ws
    else ownBuffers known rest (Assoc.insert ws v.name (← v.weight))

/-- Parameters and buffers that a program knows by name. -/
def weights (l : Layer) (p : Program) : Except Slip (List (String × Weight)) := do
  let known (name : String) : Bool := (p.global.var? name).isSome
  ownBuffers known l.buffers (← ownWeights known l.parameters [])

/-- An output of the layer as a variable; an unknown one has no axes. -/
def outputVar (l : Layer) (name : String) : Variable :=
  (l.program.global.var? name).getD { name }

def scaleOp (i : Nat) (v : Variable) : Operation :=
  { type := "scale", inputs := [("X", [v.name])],
    outputs := [("Out", ["save_infer_model/scale_" ++ toString i ++ ".tmp_0"])],
    attrs := [("scale", .float 1.0), ("bias", .float 0.0), ("bias_after_scale", .bool true)] }

def scaledVar (i : Nat) (v : Variable) : Variable :=
  { name := "save_infer_model/scale_" ++ toString i ++ ".tmp_0", shape := v.shape, dtype := v.dtype }

def scaleOutput (i : Nat) (v : Variable) : ProgramEdit Unit :=
  ProgramEdit.modifyGlobal fun b =>
    let b := b.declare (scaledVar i v)
    { b with ops := b.ops ++ [scaleOp i v] }

/-- Scales outputs by one, from the `i`-th on, and gives back the variables that the scalings write. -/
def scaleOutputs : Nat → List Variable → ShelfEdit (List Variable)
  | _, [] => return []
  | i, v :: rest => do
    ShelfEdit.write (scaleOutput i v)
    return scaledVar i v :: (← scaleOutputs (i + 1) rest)

/-- What the host leaves out of a program, given its inputs and the variables of its outputs. -/
abbrev Pruning := List String → List Variable → ProgramEdit Unit

/-- **The program that was traced at a place, with an interface**: a copy of it gets a scaling for each
output, and the copy is given back with the variables that these write. -/
def traceAt (prune : Pruning) (place : Nat) (inputs : List String) (outputs : List Variable) :
    ShelfEdit (Program × List Variable) := do
  let copy ← ShelfEdit.clone place
  let targets ← ShelfEdit.guarding copy (scaleOutputs 0 outputs)
  ShelfEdit.edit copy
    (ProgramEdit.rebuildAfter (prune inputs targets) inputs (targets.map Variable.name))
  return (← ShelfEdit.program copy, targets)

/-- **The traced program of a layer** with an interface, and the variables of its outputs. -/
def traced (l : Layer) : Except Fault (Program × List Variable) := do
  unless l.traceable do throw (.refusal .tracingDisabled)
  let shelf : Shelf := { programs := [l.program], guarded := 0 }
  match EStateM.run (traceAt (fun _ _ => return) 0 l.inputs (l.outputs.map l.outputVar)) shelf with
  | .ok r _ => .ok r
  | .error f _ => .error f

end Layer

namespace Emit

/-- What is said when a loaded layer is given a specification. -/
def cannotPrune (what : String) : Notice :=
  .warning ("Although " ++ what ++ " is specified, TranslatedLayer is not support prune. An Complete " ++
    "network will be exported.")

def loadedGraph (l : Layer) (inputSpec outputSpec : Value) : Emit SourceGraph := do
  let weights ← l.weights l.program
  unless inputSpec.isNone do notify (cannotPrune "input_spec")
  unless outputSpec.isNone do notify (cannotPrune "output_spec")
  let b := l.program.global
  let outputs ← namedVars b l.outputs
  let inputs ← namedVars b l.inputs
  return SourceGraph.build l.program weights (inputs.map SourceGraph.terminalOf)
    (outputs.map SourceGraph.terminalOf)
where
  namedVars (b : Block) (names : List String) : Except Slip (List Variable) :=
    names.mapM fun n => b.var (.str n)

def tracedGraph (l : Layer) : Emit SourceGraph := do
  let (p, targets) ← l.traced
  let weights ← l.weights p
  let inputs ← terminals p.global l.inputs
  return SourceGraph.build p weights inputs (targets.map SourceGraph.terminalOf)
where
  terminals (b : Block) (names : List String) : Except Slip (List Terminal) :=
    names.mapM fun n => SourceGraph.terminal b (.str n)

/-- **The graph of a layer.** -/
def layerGraph (offer : LayerOffer) (inputSpec outputSpec : Value) : Emit SourceGraph :=
  match offer with
  | .other v => refuse (.graphLayerKind v)
  | .layer l => if l.loaded then loadedGraph l inputSpec outputSpec else tracedGraph l

end Emit

/-! ## Requests -/

/-- A request to convert a layer; `settings` are the named settings that come with it. -/
structure LayerConversion where
  layer : LayerOffer
  inputSpec : Value := .none
  opset : Int := 9
  settings : Attrs := []
  saveFile : Option String := none
  checkerFails : Bool := false

namespace LayerConversion

/-- A member of a specification of inputs: a specification, or a tensor it is made from. -/
def inputSpecMember : Value → Except Refusal Value
  | .object .inputSpec n => .ok (.object .inputSpec n)
  | .object .variable n => .ok (.object .inputSpec n)
  | .object .tensor n => .ok (.object .inputSpec n)
  | v => .error (.inputSpecMember v)

def checkInputSpec : Value → Except Refusal Value
  | .none => .ok .none
  | .list xs => do .ok (.list (← xs.mapM inputSpecMember))
  | v => .error (.inputSpecKind v)

def isTensor : Value → Bool
  | .object .tensor _ => true
  | _ => false

def checkOutputSpec : Option Value → Except Refusal Value
  | none => .ok .none
  | some (.list xs) => match xs.find? fun x => !isTensor x with
    | some x => .error (.outputSpecMember x)
    | none => .ok (.list xs)
  | some v => .error (.outputSpecKind v)

/-- A setting that must be a truth value, when it is given. -/
def checkFlag (reason : Value → Refusal) : Option Value → Except Refusal Bool
  | none => .ok false
  | some (.bool b) => .ok b
  | some v => .error (reason v)

structure Checked where
  layer : Layer
  inputSpec : Value
  outputSpec : Value
  checker : Bool
  keepsComposites : Bool

/-- **Checks a request**, setting after setting. -/
def check (c : LayerConversion) : Except Refusal Checked := do
  let layer ← match c.layer with
    | .layer l => .ok l
    | .other v => .error (.layerKind v)
  let inputSpec ← checkInputSpec c.inputSpec
  let outputSpec ← checkOutputSpec (Assoc.get? c.settings "output_spec")
  discard <| checkFlag .verboseKind (Assoc.get? c.settings "verbose")
  let checker ← checkFlag .checkerKind (Assoc.get? c.settings "enable_onnx_checker")
  let keepsComposites ← checkFlag .fallbackKind (Assoc.get? c.settings "enable_paddle_fallback")
  .ok { layer, inputSpec, outputSpec, checker, keepsComposites }

end LayerConversion

namespace Emit

/-- **Converts a layer.** -/
def convertLayer (r : Registry) (c : LayerConversion) : Emit Product := do
  match c.check with
  | .error reason => refuse reason
  | .ok k =>
    let g ← layerGraph (.layer k.layer) k.inputSpec k.outputSpec
    let exportType := if k.keepsComposites then "PaddleFallback" else "ONNX"
    exportTo r
      { opset := c.opset, checker := .bool k.checker, exportType := .str exportType,
        checkerFails := c.checkerFails } c.saveFile g

/-- **Converts what was loaded**: a program by its interface, or a loaded layer. -/
def convertOffer (r : Registry) (offer : LoadedOffer) (shapes : List (Value × Value)) (opset : Int)
    (checkerFails : Bool) : Emit Product := do
  match offer with
  | .program p => convertLoaded r p shapes opset checkerFails
  | .layer l =>
    unless l.loaded do refuse .modelKind
    let p ← l.program.reshapeAll shapes
    convertLayer r { layer := .layer { l with program := p }, opset, checkerFails }
  | .other _ => refuse .modelKind

end Emit

/-- **The variables of a specification**: the wanted ones by name, or all; other members of the
specification are passed over. -/
def specVariables (all : List Value) (wanted : Option (List String)) :
    Except Refusal (List String) :=
  let names := all.filterMap fun
    | .object .variable n => some n
    | .object .tensor n => some n
    | _ => none
  match wanted with
  | none => .ok names
  | some ws => if ws.all names.contains then .ok ws else .error .noSuchSpec

end ModelExport
