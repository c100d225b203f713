import ModelExport.Support

/-!
# Mapping — from operators to nodes

A composite operator is expanded and its operators are mapped in its place, unless it is to be kept;
every other operator is mapped by its rule.  A fault is reported together with the operator at which
it happened.
-/

namespace ModelExport.Emit

def keepsComposites (exportType : ExportType) : Bool := exportType.same (.str "PaddleFallback")

def applyRule (r : Registry) (op : OpNode) : Emit Unit := do
  let rule ← r.ruleFor op.type (← opset)
  rule op

/-- A computation whose changes to attributes are not kept. -/
def withoutEdits (x : Emit α) : Emit α := do
  let forget : Emit Unit := modify fun d => { d with edits := [] }
  let a ← tryCatch x fun f => do forget; throw f
  forget
  return a

/-- A computation whose faults are seen from an operator. -/
def seenFrom (op : OpNode) (x : Emit α) : Emit α :=
  tryCatch x fun f => throw (f.atSite op.site)

/-- **Maps an operator**, expanding composites up to the given depth. -/
def mapUpTo (r : Registry) (exportType : ExportType) : Nat → OpNode → Emit Unit
  | 0, op => seenFrom op (slip .overflow)
  | depth + 1, op => seenFrom op <|
    match r.composite? (.str op.type) with
    | some c =>
      if keepsComposites exportType then applyRule r op
      else withoutEdits do
        let g ← expand c op
        discard <| checkSupport r g.types (← opset) false
        for e in g.nodes do mapUpTo r exportType depth e.2
    | none => applyRule r op

/-- No chain of different composites is longer than their number. -/
def depthOf (r : Registry) : Nat := r.composites.length + 1

def keepEdits (op : OpNode) : Emit Unit :=
  modify fun d =>
    if d.edits.isEmpty then d
    else { d with edits := [], kept := Assoc.insert d.kept op.name d.edits }

/-- **Maps an operator of the graph**, and keeps the attributes its rule has changed. -/
def mapNode (r : Registry) (exportType : ExportType) (op : OpNode) : Emit Unit := do
  tryCatch (mapUpTo r exportType (depthOf r) op) fun f => do keepEdits op; throw f
  keepEdits op

/-- Maps the operators of a graph, after checking that it can be done. -/
def mapAll (r : Registry) (exportType : ExportType) (nodes : List OpNode) : Emit Unit := do
  discard <| checkSupport r (nodes.map OpNode.type) (← opset) false
  for op in nodes do mapNode r exportType op

end ModelExport.Emit
