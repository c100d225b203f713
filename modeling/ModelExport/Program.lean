import ModelExport.ElementType
import ModelExport.Assoc

/-!
# Program — blocks of variables and operations

A program is a global block followed by further ones.  A block declares variables by name and lists
operations in order; an operation reads and writes variables through named slots and carries
attributes.
-/

namespace ModelExport

structure Variable where
  name : String
  shape : List Int := []
  dtype : Int := 5
  persistable : Bool := false
  /-- Its contents, when they are known. -/
  data : Option Value := none
  /-- Do its contents count as set? -/
  initialized : Bool := true
  deriving Inhabited

/-- Named slots, each with a list of variable names. -/
abbrev Slots := List (String × List String)

structure Operation where
  type : String
  inputs : Slots
  outputs : Slots
  attrs : Attrs
  deriving Inhabited

/-- A block: variables by name, operations in order. -/
structure Block where
  vars : List Variable
  ops : List Operation
  deriving Inhabited

/-- **A program**: the global block and the blocks after it. -/
structure Program where
  global : Block
  others : List Block := []
  deriving Inhabited

namespace Block

def var? (b : Block) (name : String) : Option Variable := b.vars.find? fun v => v.name == name

def var (b : Block) (name : Value) : Except Slip Variable :=
  match name with
  | .str s => match b.var? s with
    | some v => .ok v
    | none => .error .badValue
  | _ => .error .wrongKind

/-- Declares a variable, replacing one of the same name in its place. -/
def declare (b : Block) (v : Variable) : Block :=
  if b.vars.any fun w => w.name == v.name then
    { b with vars := b.vars.map fun w => if w.name == v.name then v else w }
  else { b with vars := b.vars ++ [v] }

end Block

namespace Program

def blocks (p : Program) : List Block := p.global :: p.others

def reshape (p : Program) (name : String) (shape : List Int) : Except Slip Program := do
  let v ← p.global.var (.str name)
  .ok { p with global := p.global.declare { v with shape } }

end Program

/-! ## Contents of variables -/

mutual

/-- The elements of nested sequences in row-major order. -/
def Value.leaves : Value → List Value
  | .list xs => Value.leavesAll xs
  | .tuple xs => Value.leavesAll xs
  | v => [v]
termination_by structural v => v

def Value.leavesAll : List Value → List Value
  | [] => []
  | x :: xs => Value.leaves x ++ Value.leavesAll xs
termination_by structural xs => xs

end

/-- **Contents of a parameter**: element type and shape as declared, elements in row-major order. -/
structure Weight where
  dtype : Int
  shape : List Int
  elements : List Value

/-- The number of elements of a shape; a negative dimension counts as none. -/
def elementCount (shape : List Int) : Nat := (shape.map Int.toNat).foldl (· * ·) 1

/-- The elements a variable holds; without contents they are zeros. -/
def Variable.elements (v : Variable) : Except Slip (List Value) :=
  let t := ElementType.ofCode v.dtype
  match v.data with
  | some d => d.leaves.mapM t.element
  | none => .ok (List.replicate (elementCount v.shape) t.zero)

def Variable.weight (v : Variable) : Except Slip Weight := do
  .ok { dtype := v.dtype, shape := v.shape, elements := ← v.elements }

end ModelExport
