import ModelExport.Value.Sequence

/-!
# ElementType — element types of tensors

Programs and models number the element types differently, and both use plain integers.
`ElementType.convert` is the one table used for the way from programs to models; since the two
numberings overlap, a number that both use is read as a program's.
-/

namespace ModelExport

/-- How programs number element types. -/
inductive ElementType where
  | bool
  | int16
  | int32
  | int64
  | float16
  | float32
  | float64
  | uint8
  | int8
  deriving DecidableEq, Repr

namespace ElementType

/-- The element type a program's number stands for; a number of no element type is read as a single. -/
def ofCode : Int → ElementType
  | 0 => bool
  | 1 => int16
  | 2 => int32
  | 3 => int64
  | 4 => float16
  | 6 => float64
  | 20 => uint8
  | 21 => int8
  | _ => float32

def name : ElementType → String
  | bool => "bool"
  | int16 => "int16"
  | int32 => "int32"
  | int64 => "int64"
  | float16 => "float16"
  | float32 => "float32"
  | float64 => "float64"
  | uint8 => "uint8"
  | int8 => "int8"

/-! ## Numbers of element types in models -/

def FLOAT : Int := 1
def INT32 : Int := 6
def INT64 : Int := 7
def BOOL : Int := 9

def modelCodes : List (Int × Int) :=
  [(1, 5), (11, 6), (5, 1), (6, 11), (7, 3), (9, 0), (2, 6), (3, 7), (0, 9), (20, 2)]

/-- **The model number of a program's element type.** -/
def convert (code : Value) : Except Slip Value :=
  if !code.isKey then .error .wrongKind
  else match modelCodes.find? fun e => code.same (.int e.1) with
    | some e => .ok (.int e.2)
    | none => .error .missingKey

/-- Program numbers and their names, both ways. -/
def nameFields : List (Value × Value) :=
  [(.int 5, .str "float32"), (.int 6, .str "float64"), (.int 1, .str "int16"),
    (.int 2, .str "int32"), (.int 3, .str "int64"), (.int 0, .str "bool"),
    (.str "float32", .int 5), (.str "float64", .int 6), (.str "int16", .int 1),
    (.str "int32", .int 2), (.str "int64", .int 3), (.str "bool", .int 0)]

/-- The name of a program's element type, or its number by name. -/
def textOf (code : Value) : Except Slip Value := Value.get (.dict nameFields) code

/-- Model numbers and their names, both ways. -/
def modelNameFields : List (Value × Value) :=
  [(.int 1, .str "float32"), (.int 11, .str "float64"), (.int 5, .str "int16"),
    (.int 6, .str "int32"), (.int 7, .str "int64"), (.int 9, .str "bool"),
    (.str "float32", .int 1), (.str "float64", .int 11), (.str "int16", .int 5),
    (.str "int32", .int 6), (.str "int64", .int 7), (.str "bool", .int 9)]

/-- The name of a model's element type, or its number by name. -/
def modelText (code : Value) : Except Slip Value := Value.get (.dict modelNameFields) code

/-- Width in bits of an integer type, and whether it is signed. -/
def integerWidth? : ElementType → Option (Nat × Bool)
  | int8 => some (8, true)
  | uint8 => some (8, false)
  | int16 => some (16, true)
  | int32 => some (32, true)
  | int64 => some (64, true)
  | _ => none

def wrap (width : Nat) (signed : Bool) (i : Int) : Int :=
  let n := i % Int.pow 2 width
  if signed && n ≥ Int.pow 2 (width - 1) then n - Int.pow 2 width else n

/-- **A number as an element**: truth values, fixed-width integers, or rounded doubles. -/
def element (t : ElementType) (v : Value) : Except Slip Value := do
  match t with
  | bool => .ok (.bool v.truthy)
  | float16 => .ok (.float (Binary.roundHalf (← v.toFloat)))
  | float32 => .ok (.float (Binary.roundSingle (← v.toFloat)))
  | float64 => .ok (.float (← v.toFloat))
  | t => match t.integerWidth? with
    | some (width, signed) => .ok (.int (wrap width signed (← v.toInt)))
    | none => .error .wrongKind

def zero : ElementType → Value
  | bool => .bool false
  | float16 | float32 | float64 => .float 0.0
  | _ => .int 0

end ElementType

end ModelExport
