import ModelExport.SourceGraph

/-!
# Listing — graphs as text

A node is listed as its outputs, its domain and type, its inputs and its attributes; a graph as its
inputs, its outputs and its nodes.
-/

namespace ModelExport

def attrsListing (attrs : Attrs) : String :=
  String.join (attrs.map fun a => ", " ++ a.1 ++ "=" ++ a.2.plain)

/-- **A node as text.** -/
def nodeListing (type : String) (domain inputs outputs : Value) (attrs : Attrs) : String :=
  "  " ++ outputs.plain ++ " = " ++ domain.plain ++ "::" ++ type ++ "(inputs=" ++ inputs.plain ++
    attrsListing attrs ++ ") \n"

def Node.listing (n : Node) : String :=
  nodeListing n.type n.domain (.list n.inputs) (.list n.outputs) n.attrs

/-- An operator as text; where it was called is left out. -/
def OpNode.listing (op : OpNode) : String :=
  nodeListing op.type (.str "paddle") (slotsValue op.inputs) (slotsValue op.outputs)
    (op.attrs.filter fun a => a.1 != "op_callstack")

/-- **A graph as text**, from the texts of its inputs, outputs and nodes. -/
def graphListing (inputs outputs nodes : List String) : String :=
  "graph \x7b \n" ++ String.join (inputs.map fun s => " input: " ++ s ++ " \n") ++
    String.join (outputs.map fun s => " output: " ++ s ++ " \n \n") ++ String.join nodes ++ " \x7d"

def SourceGraph.listing (g : SourceGraph) : String :=
  graphListing (g.inputs.map Terminal.name) (g.outputs.map Terminal.name)
    (g.nodes.map fun e => e.2.listing)

end ModelExport
