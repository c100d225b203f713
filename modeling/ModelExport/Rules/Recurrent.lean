import ModelExport.Rules.Building

/-!
# Rules/Recurrent — recurrent layers

The weight list holds, for every layer and direction, an input weight and a hidden weight, and after
all of them the biases in the same order.  Each layer takes its own parameters (`layerParameters`),
stacks the directions, and puts the gates into the order models use (`gateOrder`).
-/

namespace ModelExport.Rules

open Emit

inductive Cell where
  | lstm
  | gru
  deriving DecidableEq, Repr

def Cell.of? (mode : Value) : Option Cell :=
  if mode.same (.str "LSTM") then some .lstm
  else if mode.same (.str "GRU") then some .gru
  else none

def Cell.type : Cell → String
  | .lstm => "LSTM"
  | .gru => "GRU"

/-- Blocks of gates in the order models use, as ranges of blocks of the program's order. -/
def gateOrder : Cell → List (Int × Int)
  | .lstm => [(0, 1), (3, 4), (1, 3)]
  | .gru => [(1, 2), (0, 1), (2, 3)]

/-- The parameters of a layer: its weights, then its biases. -/
def layerParameters (weights : List α) (perLayer layer : Nat) : List α :=
  let half := weights.length / 2
  let own (xs : List α) : List α := (xs.drop (layer * perLayer)).take perLayer
  own (weights.take half) ++ own (weights.drop half)

def everySecond : List α → List α
  | [] => []
  | [x] => [x]
  | x :: _ :: xs => x :: everySecond xs

def withDirectionAxis : List Value → Emit (List Value)
  | [] => return []
  | x :: xs => do
    let y ← node "Unsqueeze" (.list [x]) [("axes", .ints [0])]
    return y :: (← withDirectionAxis xs)

/-- The blocks of gates of a tensor, one cut for each range. -/
def gateBlocks (w hidden : Value) : List (Int × Int) → Emit (List Value)
  | [] => return []
  | (a, b) :: rest => do
    let piece ← cut w (.ints [1]) (.list [← Value.mul (.int a) hidden])
      (.list [← Value.mul (.int b) hidden])
    return piece :: (← gateBlocks w hidden rest)

/-- A tensor with its gates in the order models use. -/
def reorderGates (cell : Cell) (hidden w : Value) : Emit Value := do
  let pieces ← gateBlocks w hidden (gateOrder cell)
  node "Concat" (.list pieces) [("axis", .int 1)]

/-- The parameter inputs of a layer's node: both weights, the joined biases, no lengths. -/
def parameterInputs (cell : Cell) (op : OpNode) (layer : Nat) (hidden : Value) :
    Emit (List Value) := do
  let perLayer := if (op.attr "is_bidirec").truthy then 4 else 2
  let weights ← (op.input "WeightList").members
  let parameters ← withDirectionAxis (layerParameters weights perLayer layer)
  let half := parameters.length / 2
  let stack (xs : List Value) : Emit Value := node "Concat" (.list xs) [("axis", .int 0)]
  let inputWeight ← stack (everySecond (parameters.take half))
  let hiddenWeight ← stack (everySecond ((parameters.take half).drop 1))
  let inputBias ← stack (everySecond (parameters.drop half))
  let hiddenBias ← stack (everySecond ((parameters.drop half).drop 1))
  let inputWeight ← reorderGates cell hidden inputWeight
  let hiddenWeight ← reorderGates cell hidden hiddenWeight
  let inputBias ← reorderGates cell hidden inputBias
  let hiddenBias ← reorderGates cell hidden hiddenBias
  let bias ← node "Concat" (.list [inputBias, hiddenBias]) [("axis", .int 1)]
  return [inputWeight, hiddenWeight, bias, .str ""]

def layerState (op : OpNode) (layer : Nat) (state : Value) : Emit Value := do
  let directions : Int := if (op.attr "is_bidirec").truthy then 2 else 1
  let first : Int := layer * directions
  cut state (.ints [0]) (.ints [first]) (.ints [first + directions])

def initialStates (cell : Cell) (op : OpNode) (layer : Nat) : Emit (List Value) := do
  match cell with
  | .lstm =>
    match ← (op.input "PreState").members with
    | [h, c] =>
      let h ← layerState op layer h
      let c ← layerState op layer c
      return [h, c]
    | _ => slip .badValue
  | .gru =>
    let h ← layerState op layer (← op.inputAt "PreState" 0)
    return [h]

def Cell.outputCount : Cell → Nat
  | .lstm => 3
  | .gru => 2

/-- The outputs of a layer's node, and where its sequence goes: fresh names inside, the operator's
states and output at the last layer. -/
def layerOutputs (cell : Cell) (op : OpNode) (isLast : Bool) : Except Slip (Value × Value) := do
  if isLast then
    let states ← Value.add (.list [.int 1]) (← op.output "State")
    .ok (states, ← op.output "Out")
  else .ok (.int cell.outputCount, .none)

def cellAttrs (cell : Cell) (op : OpNode) : Attrs :=
  let direction := if (op.attr "is_bidirec").truthy then "bidirectional" else "forward"
  [("direction", .str direction), ("hidden_size", op.attr "hidden_size")] ++
    match cell with
    | .lstm => []
    | .gru => [("linear_before_reset", .int 1)]

/-- One layer: its node, and the sequence with the directions side by side. -/
def recurrentLayer (cell : Cell) (op : OpNode) (layers layer : Nat) (input : Value) :
    Emit Value := do
  let parameters ← parameterInputs cell op layer (op.attr "hidden_size")
  let states ← initialStates cell op layer
  let (outputs, target) ← layerOutputs cell op (layer + 1 == layers)
  let results ← nodeTo cell.type (.list ([input] ++ parameters ++ states)) outputs
    (cellAttrs cell op)
  match results with
  | .list (sequence :: rest) =>
    unless rest.length + 1 == cell.outputCount do slip .badValue
    let sequence ← node "Transpose" (.list [sequence]) [("perm", .ints [0, 2, 1, 3])]
    let shape ← constant ElementType.INT64 (.ints [0, 0, -1])
    nodeTo "Reshape" (.list [sequence, shape]) target
  | _ => slip .badValue

/-- The layers from one on, each fed with the sequence before it. -/
def recurrentLayers (cell : Cell) (op : OpNode) (layers : Nat) : List Nat → Value → Emit Unit
  | [], _ => return ()
  | layer :: rest, input => do
    recurrentLayers cell op layers rest (← recurrentLayer cell op layers layer input)

/-- A stack of recurrent layers; other cells are passed over. -/
def recurrent : Rule := fun op => do
  let input ← op.inputAt "Input" 0
  match Cell.of? (op.attr "mode") with
  | none => return ()
  | some cell =>
    let layers := (← (op.attr "num_layers").exact).toNat
    recurrentLayers cell op layers (List.range layers) input

end ModelExport.Rules
