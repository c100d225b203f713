import ModelExport.Value.Basic

/-!
# Model — the exported model

A model is a list of nodes with graph inputs and outputs and the versions of the operator sets it
uses.  A constant carries its tensor as the attribute `value` and has neither name nor domain.
-/

namespace ModelExport

/-- A tensor inside a constant, as given: nothing is checked against anything. -/
structure TensorData where
  name : String
  type : Value
  dims : Value
  vals : Value

inductive Payload where
  | plain (v : Value)
  | tensor (t : TensorData)

/-- **A node of the model.** -/
structure ModelNode where
  op : String
  inputs : List Value
  outputs : List Value
  name : Value
  domain : Value
  attrs : List (String × Payload)

structure ValueInfo where
  name : Value
  type : Value
  shape : Value

/-- **An exported model.** -/
structure Model where
  producer : String
  opsets : List (Value × Int)
  graphName : String
  nodes : List ModelNode
  inputs : List ValueInfo
  outputs : List ValueInfo

end ModelExport
