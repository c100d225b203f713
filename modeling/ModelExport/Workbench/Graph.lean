import ModelExport.Value.Digest
import ModelExport.Wiring
import ModelExport.Workbench.Nodes

/-!
# Workbench/Graph — the graph as a whole

Inputs, outputs and parameters, identity and successors, the listing, the order of the nodes, passes
and the export of a graph that is put together by hand.
-/

namespace ModelExport

namespace Bench

/-! ## Interface and parameters -/

def setInputNodes : Value → Bench Unit
  | .list xs => modify fun w => { w with inputs := xs, draft := { w.draft with inputs := [] } }
  | v => throw (.refusal (.graphInputs v))

def setOutputNodes : Value → Bench Unit
  | .list xs => modify fun w => { w with outputs := xs, draft := { w.draft with outputs := [] } }
  | v => throw (.refusal (.graphOutputs v))

def setParameters : Value → Bench Unit
  | .dict fs => modify fun w => { w with parameters := fs, draft := { w.draft with weights := [] } }
  | v => throw (.refusal (.parameters v))

/-- Puts free nodes into the graph under given names, in place of what was there. -/
def placeAll : List (Value × Value) → Bench Unit
  | [] => return
  | (key, .object .node name) :: rest => do
    let n ← freeNode name
    modify fun w => w.linkEntry key.plain name n
    placeAll rest
  | _ :: rest => placeAll rest

/-- Replaces all nodes; the order of the new ones cannot be asked for, so this never succeeds. -/
def setNodeMap : Value → Bench Unit
  | .dict fs => do
    modify fun w => { w with links := [], draft := { w.draft with nodes := [] } }
    placeAll fs
    slip .missingMember
  | v => throw (.refusal (.nodeMap v))

def addWeight (name param : Value) : Emit Unit := do
  let data ← param.get (.str "data")
  let elements ← Rules.arrayElements data
  let dims ← param.get (.str "shape")
  Rules.keepWeight name (← param.get (.str "dtype")) dims elements

def addWeights : List (Value × Value) → Emit Unit
  | [] => return
  | f :: rest => do
    addWeight f.1 f.2
    addWeights rest

def buildParameters (v : Value) : Bench Unit :=
  onModel (match v with
    | .dict fs => addWeights fs
    | _ => Emit.slip .missingMember)

def freshName : Value → Bench String
  | .str type => emit (Emit.freshName type)
  | _ => slip .wrongKind

/-! ## Identity -/

def identity : Bench Value := do
  match (← get).id with
  | some v => return v
  | none => slip .missingMember

def identityKey : Bench Value := do
  let v ← identity
  if v.isKey then return v else slip .wrongKind

def sameIdentity (other : Value) : Bench Bool := do return (← identity).same other

/-- The number that the graph is filed under, where its identity alone tells it; else the identity. -/
def digest : Bench Value := do
  let key ← identityKey
  return (key.digest?.map .int).getD key

def sameKey (v : Value) : Bench Bool := do
  let key ← identityKey
  if v.isKey then return key.sameDigest v else slip .wrongKind

/-- Two objects compared as they are, and by their keys; a node compares with nodes only. -/
def compare (a b : Value) : Bench (Bool × Bool) := do
  match a, b with
  | .object .node m, .object .node n => return (m == n, m == n)
  | .object .node _, _ => slip .missingMember
  | _, .object .node _ => slip .missingMember
  | a, b => if a.isKey && b.isKey then return (a.same b, a.sameDigest b) else slip .wrongKind

/-! ## Successors -/

def setEdges (edges : List (String × Value)) : Bench Unit :=
  modify fun w => { w with edges := some edges }

/-- The successors of a node: those that were set, else none for a node of the graph. -/
def successors (v : Value) : Bench Value := do
  let edges ← match (← get).edges with
    | some e => pure e
    | none => slip .missingMember
  match v with
  | .object .node name => match Assoc.get? edges name with
    | some nodes => return nodes
    | none => do
      discard <| find (.str name)
      return .list []
  | v => if v.isKey then slip .missingMember else slip .wrongKind

/-! ## Text and order -/

/-- An input or output as it is listed: by name in a plain graph, as a whole in a model graph. -/
def terminalText (w : Workbench) (v : Value) : Except Slip String :=
  match w.kind, v with
  | .plain, .object .node name => .ok name
  | .plain, _ => .error .missingMember
  | .model, .object .node name => match Assoc.get? w.free name with
    | some n => .ok n.listing
    | none => .error .missingKey
  | .model, v => .ok v.plain

def terminalTexts (w : Workbench) (vs : List Value) : Except Slip (List String) :=
  vs.mapM (terminalText w)

/-- **The graph as text.** -/
def listing : Bench String := do
  let w ← get
  let inputs ← terminalTexts w w.inputs
  let outputs ← terminalTexts w w.outputs
  return graphListing (inputs ++ w.draft.inputs.map fun _ => "<proto>")
    (outputs ++ w.draft.outputs.map fun _ => "<proto>") (w.draft.nodes.map fun e => e.2.listing)

def wires : Bench (List Wire) := do return (← get).draft.nodes.map fun e => e.2.wire

/-! ## Passes, pieces and export -/

/-- Free nodes follow the entries that they are through a pass. -/
def followPass (kind : GraphKind) (w : Workbench) : Workbench :=
  w.links.foldl (fun w l =>
    match Assoc.get? w.draft.nodes l.1, Assoc.get? w.free l.2 with
    | some n, some f =>
      let f := { f with inputs := n.inputs, outputs := n.outputs,
                        attrs := if kind == .plain then n.attrs else f.attrs }
      { w with free := Assoc.insert w.free l.2 f }
    | _, _ => w) w

def runPassList (names : List Value) : Bench Unit := fun w =>
  match EStateM.run (Emit.runPasses w.kind names) w.draft with
  | .ok _ d => .ok () (followPass w.kind { w with draft := d }).tidy
  | .error f d => .error f (followPass w.kind { w with draft := d }).tidy

/-- **Runs passes on the graph**, by their names in order. -/
def runPasses (names : Value) : Bench Unit := do runPassList (← names.members)

/-- A piece that adds nodes to a model graph.  A plain graph takes none of its nodes, so there it
succeeds only when it adds nothing. -/
def piece (x : Emit Value) : Bench Value := do
  let w ← get
  match w.kind with
  | .model => emit x
  | .plain => match EStateM.run x { w.draft with nodes := [] } with
    | .ok v d => if d.nodes.isEmpty then return v else slip .wrongKind
    | .error f _ => throw f

def exportModel (checker : Value) (fails : Bool) : Bench Model := do
  if (← get).draft.nodes.any fun e => e.2.record.isNone then slip .missingMember
  onModel (Emit.checkedModel checker fails)

end Bench

end ModelExport
