import ModelExport.Refusal
import ModelExport.Model
import ModelExport.Assoc

/-!
# Node — nodes of a graph

A node has a type, a name, lists of inputs and outputs, attributes and a domain.  `Node.inputList`
and `Node.outputList` say which values may stand for such a list.  A node that is bound for a model
also keeps its record (`Node.recordOf`): the model node made from its fields.
-/

namespace ModelExport

/-- What the nodes of a graph are for: nodes as such, or nodes bound for a model. -/
inductive GraphKind where
  | plain
  | model
  deriving DecidableEq, Repr

/-- **A node of a graph.** -/
structure Node where
  type : String
  name : String
  inputs : List Value
  outputs : List Value
  attrs : Attrs
  domain : Value
  /-- The model node made from the fields, for nodes that are bound for a model. -/
  record : Option ModelNode := none

namespace Node

/-- A member of an input or output list: a node stands for its name. -/
def endpoint : Value → Value
  | .object .node name => .str name
  | v => v

/-- The inputs a value stands for: a sequence, a name or a node. -/
def inputList : Value → Except Fault (List Value)
  | .list xs => .ok (xs.map endpoint)
  | .str s => .ok [.str s]
  | .object .node name => .ok [.str name]
  | v => .error (.refusal (.nodeInputs v))

/-- The outputs a value stands for: a sequence or a name. -/
def outputList : Value → Except Fault (List Value)
  | .list xs => .ok (xs.map endpoint)
  | .str s => .ok [.str s]
  | _ => .error (.slip .undefinedName)

def isConstant (type : String) : Bool := type == "Constant" || type == "ConstantOfShape"

/-- The names a model node has fields for; an attribute may not use them. -/
def reserved : List String := ["op_type", "inputs", "outputs", "name", "domain"]

/-- The tensor that the attributes `dtype`, `value` and `dims` describe: a sequence is a vector, any
other value a scalar, unless `dims` says otherwise. -/
def tensorOf (name : String) (attrs : Attrs) : TensorData :=
  let value := (Assoc.get? attrs "value").getD .none
  let (dims, vals) : Value × Value := match value with
    | .list xs => (.tuple [.int xs.length], .list xs)
    | .none => (.tuple [], .list [])
    | v => (.tuple [], .list [v])
  { name, type := (Assoc.get? attrs "dtype").getD .none,
    dims := (Assoc.get? attrs "dims").getD dims, vals }

/-- **The model node made from the fields of a node.** -/
def recordOf (type name : String) (inputs outputs : List Value) (attrs : Attrs) (domain : Value) :
    Except Fault ModelNode :=
  if isConstant type then
    .ok { op := type, inputs, outputs, name := .none, domain := .none,
          attrs := [("value", .tensor (tensorOf name attrs))] }
  else if attrs.any fun a => reserved.contains a.1 then .error (.slip .wrongKind)
  else
    .ok { op := type, inputs, outputs, name := .str name, domain,
          attrs := attrs.map fun a => (a.1, .plain a.2) }

/-- **A node bound for a model**, with its record. -/
def recorded (type name : String) (inputs outputs : Value) (attrs : Attrs) (domain : Value) :
    Except Fault Node := do
  let ins ← inputList inputs
  let outs ← outputList outputs
  let record ← recordOf type name ins outs attrs domain
  .ok { type, name, inputs := ins, outputs := outs, attrs, domain, record := some record }

def plain (type name : String) (inputs outputs : Value) (attrs : Attrs) (domain : Value) :
    Except Fault Node := do
  let ins ← inputList inputs
  let outs ← outputList outputs
  .ok { type, name, inputs := ins, outputs := outs, attrs, domain }

/-- Feeds and fetches describe an interface and are not kept among the nodes of a graph. -/
def isInterface (type : String) : Bool := type == "feed" || type == "fetch"

end Node

abbrev NodeMap := List (String × Node)

def NodeMap.keep (m : NodeMap) (n : Node) : NodeMap :=
  if Node.isInterface n.type then m else Assoc.insert m n.name n

/-! ## Generated names -/

abbrev NameCounts := List (String × Nat)

def numbered (type : String) (k : Nat) : String := type ++ "_" ++ toString k

/-- **The next name of a type**, and the counts after it. -/
def NameCounts.next (c : NameCounts) (type : String) : String × NameCounts :=
  let k := (Assoc.get? c type).getD 0
  (numbered type k, Assoc.insert c type (k + 1))

end ModelExport
