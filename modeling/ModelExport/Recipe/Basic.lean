import ModelExport.SourceGraph.Editing

/-!
# Recipe/Basic — composites as straight-line scripts

A recipe spells a composite operator out as calls of tensor functions.  Running it records a
`Script`: each call with its arguments, its settings and the tensors it yields, which are numbered in
order of creation.
-/

namespace ModelExport

structure ArrayData where
  type : ElementType
  shape : List Nat
  elements : List Value

/-- **An argument of a call.** -/
inductive Argument where
  | value (v : Value)
  | slice (start stop : Value)
  | slices (bounds : List (Value × Value))
  | array (a : ArrayData)

instance : Coe Value Argument := ⟨.value⟩

structure Call where
  function : String
  args : List Argument
  settings : Attrs
  results : List String

/-- **The calls of a recipe so far.** -/
structure Script where
  calls : List Call := []
  produced : Nat := 0

/-- **Spelling out a composite**: calls that were made before a fault stay. -/
abbrev Recipe := EStateM Fault Script

instance : MonadLift (Except Slip) Recipe where
  monadLift
    | .ok a => pure a
    | .error s => throw (.slip s)

instance : MonadLift (Except Fault) Recipe where
  monadLift
    | .ok a => pure a
    | .error f => throw f

def resultName (k : Nat) : String := "%" ++ toString k

def tensorOf (name : String) : Value := .object .variable name

def Value.isTensor : Value → Bool
  | .object .variable _ => true
  | _ => false

namespace Recipe

def fresh (n : Nat) : Recipe (List String) :=
  modifyGet fun s =>
    ((List.range n).map fun i => resultName (s.produced + i), { s with produced := s.produced + n })

def callMany (n : Nat) (function : String) (args : List Argument) (settings : Attrs := []) :
    Recipe (List Value) := do
  let results ← fresh n
  modify fun s => { s with calls := s.calls ++ [{ function, args, settings, results }] }
  return results.map tensorOf

/-- **A call that yields one tensor.** -/
def call (function : String) (args : List Argument) (settings : Attrs := []) : Recipe Value := do
  return (← callMany 1 function args settings).headD .none

def thirds (input : Value) (settings : Attrs) : Recipe (Value × Value × Value) := do
  match ← callMany 3 "paddle.tensor.split" [input] settings with
  | [a, b, c] => return (a, b, c)
  | _ => throw (.slip .badValue)

def quarters (input : Value) (settings : Attrs) : Recipe (Value × Value × Value × Value) := do
  match ← callMany 4 "paddle.tensor.split" [input] (settings ++ [("num_or_sections", .int 4)]) with
  | [a, b, c, d] => return (a, b, c, d)
  | _ => throw (.slip .badValue)

/-- Two sides of an operation: a call when one of them is a tensor, else a calculation. -/
def combine (forward backward : String) (numbers : Value → Value → Except Slip Value)
    (a b : Value) : Recipe Value := do
  if a.isTensor then call forward [a, b]
  else if b.isTensor then call backward [b, a]
  else return ← numbers a b

def add (a b : Value) : Recipe Value := combine "Tensor.add" "Tensor.radd" Value.add a b

def sub (a b : Value) : Recipe Value := combine "Tensor.sub" "Tensor.rsub" Value.sub a b

def mul (a b : Value) : Recipe Value := combine "Tensor.mul" "Tensor.rmul" Value.mul a b

def div (a b : Value) : Recipe Value := combine "Tensor.truediv" "Tensor.rtruediv" Value.div a b

def item (t : Value) (i : Int) : Recipe Value := call "Tensor.getitem" [t, Value.int i]

def rest (t : Value) (i : Int) : Recipe Value := call "Tensor.getitem" [t, .slice (.int i) .none]

def assign (a : ArrayData) : Recipe Value := call "paddle.assign" [.array a]

/-- The element type of a tensor: that of its variable, or still unknown. -/
def elementType (holders : List (String × Int)) : Value → Except Slip Value
  | .object .variable name => match Assoc.get? holders name with
    | some code => .ok (.int code)
    | none => .ok (.object .unknownElement name)
  | _ => .error .missingMember

end Recipe

/-! ## Arrays -/

/-- The shape of nested sequences, read off their first members. -/
def Value.arrayShape : Value → List Nat
  | .list xs => xs.length :: firstShape xs
  | .tuple xs => xs.length :: firstShape xs
  | _ => []
where
  firstShape : List Value → List Nat
    | [] => []
    | .list xs :: _ => xs.length :: []
    | .tuple xs :: _ => xs.length :: []
    | _ :: _ => []

/-- **An array of an element type**, from nested sequences of numbers. -/
def ArrayData.of (type : ElementType) (v : Value) : Except Slip ArrayData := do
  .ok { type, shape := v.arrayShape, elements := ← v.leaves.mapM type.element }

/-! ## Operators with placeholders -/

/-- **An operator whose inputs are placeholders**: tensors of the names, shapes and element types
that its variables have. -/
structure Template where
  op : OpNode
  /-- Placeholders by name, with their element types. -/
  holders : List (String × Int)

def holdersOf (op : OpNode) (names : List Value) : Except Slip (List (String × Int)) :=
  names.mapM fun n => do
    let v ← op.var n
    .ok (v.name, v.dtype)

/-- **The template of an operator.** -/
def Template.of (op : OpNode) : Except Slip Template := do
  let slots ← op.inputs.mapM fun s => do
    let holders ← holdersOf op (← s.2.members)
    .ok (s.1, holders)
  .ok { op := { op with inputs := slots.map fun s => (s.1, .list (s.2.map fun h => tensorOf h.1)) },
        holders := slots.foldl (fun t s => Assoc.insertAll t s.2) [] }

/-- The placeholder at a place of an input slot; nothing when there is none. -/
def Template.input (t : Template) (slot : String) (i : Int := 0) : Except Slip Value :=
  t.op.readInput (.str slot) (.int i)

/-- **A composite ready to be spelled out**: the attributes it has now, and its recipe, which yields
the tensors for each output slot. -/
structure Preparation where
  attrs : Attrs
  recipe : Recipe (List (String × List Value))

/-- How an operator is prepared: from the operator itself and its template. -/
abbrev RecipeRule := OpNode → Template → Except Fault Preparation

end ModelExport
