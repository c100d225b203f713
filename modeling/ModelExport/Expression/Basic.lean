import ModelExport.Value.Sequence

/-!
# Expression/Basic — expressions and their values

An expression keeps what can have a value of its own: constants, sequences, tables, sets, signs and
sums; anything else that is well formed counts as `compound`.  Two rules give an expression a value: a
literal is built from constants alone (`Expression.literal`), and an evaluated expression may also
sign and add whatever counts as a number (`Expression.evaluate`).
-/

namespace ModelExport

/-- **An expression.** -/
inductive Expression where
  | constant (v : Value)
  | imaginary (x : Float)
  | name (s : String)
  | signed (negative : Bool) (e : Expression)
  | sum (negative : Bool) (a b : Expression)
  | list (es : List Expression)
  | tuple (es : List Expression)
  | set (es : List Expression)
  | dict (keys values : List Expression)
  /-- The members of something, spread out where it stands. -/
  | spread (e : Expression)
  /-- A member or a part of something. -/
  | part
  | compound

namespace Expression

/-! ## Constants of kinds that no attribute has -/

def complexOf (x y : Float) : Value :=
  .object (.constant true (!(x == 0.0 && y == 0.0)) (toString x.toBits ++ " " ++ toString y.toBits))
    "complex"

def bytesOf (cs : List Char) : Value :=
  .object (.constant true (!cs.isEmpty) (String.ofList cs)) "bytes"

/-- The constant written with three points. -/
def ellipsis : Value := .object (.constant true true "") "ellipsis"

def emptySet : Value := .object (.constant false false "") "set"

/-- A set of members, which have to be keys. -/
def setOf (members : List Value) : Except Slip Value :=
  if members.all Value.isKey then .ok (.object (.constant false (!members.isEmpty) "") "set")
  else .error .wrongKind

/-! ## Values -/

def sign (negative : Bool) (v : Value) : Except Slip Value := do
  match ← v.number with
  | .exact i => .ok (.int (if negative then -i else i))
  | .rounded x => .ok (.float (if negative then -x else x))

def addImaginary (negative : Bool) (v : Value) (y : Float) : Except Slip Value := do
  .ok (complexOf (← (← v.number).toFloat) (if negative then -y else y))

/-- The real number that a literal with at most one sign is. -/
def real? : Expression → Option Value
  | .constant (.int i) => some (.int i)
  | .constant (.float x) => some (.float x)
  | .signed negative (.constant (.int i)) => some (.int (if negative then -i else i))
  | .signed negative (.constant (.float x)) => some (.float (if negative then -x else x))
  | _ => none

/-- The value of a sign before an expression, in a literal. -/
def signedLiteral (negative : Bool) : Expression → Except Slip Value
  | .constant (.int i) => sign negative (.int i)
  | .constant (.float x) => sign negative (.float x)
  | .imaginary y => addImaginary negative (.float 0.0) y
  | _ => .error .badValue

/-- The value of a sum in a literal: a real number and an imaginary one. -/
def sumLiteral (negative : Bool) (a b : Expression) : Except Slip Value :=
  match real? a, b with
  | some v, .imaginary y => addImaginary negative v y
  | _, _ => .error .badValue

mutual

/-- **The value of a literal**: a sign stands only before a number, and a sum only makes a complex
number. -/
def literal : Expression → Except Slip Value
  | .constant v => .ok v
  | .imaginary y => .ok (complexOf 0.0 y)
  | .signed negative e => signedLiteral negative e
  | .sum negative a b => sumLiteral negative a b
  | .list es => do .ok (.list (← literals es))
  | .tuple es => do .ok (.tuple (← literals es))
  | .set es => do setOf (← literals es)
  | .dict ks vs => do Value.table ((← literals ks).zip (← literals vs))
  | _ => .error .badValue
termination_by structural e => e

def literals : List Expression → Except Slip (List Value)
  | [] => .ok []
  | e :: es => do .ok ((← literal e) :: (← literals es))
termination_by structural es => es

end

mutual

/-- **The value of an expression** in which no name is defined. -/
def evaluate : Expression → Except Slip Value
  | .constant v => .ok v
  | .imaginary y => .ok (complexOf 0.0 y)
  | .name _ => .error .undefinedName
  | .signed negative (.imaginary y) => addImaginary negative (.float 0.0) y
  | .signed negative e => do sign negative (← evaluate e)
  | .sum negative a (.imaginary y) => do addImaginary negative (← evaluate a) y
  | .sum negative a b => do
    let v ← evaluate a
    let w ← evaluate b
    if negative then v.sub w else v.add w
  | .list es => do .ok (.list (← evaluateAll es))
  | .tuple es => do .ok (.tuple (← evaluateAll es))
  | .set es => do setOf (← evaluateAll es)
  | .dict ks vs => do Value.table ((← evaluateAll ks).zip (← evaluateAll vs))
  | _ => .error .wrongKind
termination_by structural e => e

def evaluateAll : List Expression → Except Slip (List Value)
  | [] => .ok []
  | e :: es => do .ok ((← evaluate e) :: (← evaluateAll es))
termination_by structural es => es

end

end Expression

end ModelExport
