import ModelExport.Value.Basic
import ModelExport.Number.Reader

/-!
# Value/Arithmetic — numbers inside values

Integers are exact; an operation with a double on either side is done in doubles.  Sequences and
texts can be joined (`Value.add`) and repeated (`Value.mul`).  An operand of another kind is the slip
`wrongKind`.
-/

namespace ModelExport.Value

def truthy : Value → Bool
  | .none => false
  | .bool b => b
  | .int i => i != 0
  | .float x => !(x == 0.0)
  | .str s => !s.isEmpty
  | .list xs => !xs.isEmpty
  | .tuple xs => !xs.isEmpty
  | .dict fs => !fs.isEmpty
  | .object (.constant _ full _) _ => full
  | .object _ _ => true

def number (v : Value) : Except Slip Number :=
  match v.number? with
  | some n => .ok n
  | Option.none => .error .wrongKind

def exact (v : Value) : Except Slip Int :=
  match v.int? with
  | some i => .ok i
  | Option.none => .error .wrongKind

/-- An operation on two numbers: one on integers, one on doubles. -/
def combine (onInts : Int → Int → Except Slip Value) (onFloats : Float → Float → Except Slip Value)
    (a b : Value) : Except Slip Value := do
  match ← a.number, ← b.number with
  | .exact i, .exact j => onInts i j
  | x, y => onFloats (← x.toFloat) (← y.toFloat)

/-- `xs` repeated; a negative count gives the empty sequence. -/
def repeated (xs : List α) (n : Int) : List α := (List.replicate n.toNat xs).flatten

/-- Sum, or the join of two texts or sequences. -/
def add : Value → Value → Except Slip Value
  | .str a, .str b => .ok (.str (a ++ b))
  | .list a, .list b => .ok (.list (a ++ b))
  | .tuple a, .tuple b => .ok (.tuple (a ++ b))
  | a, b => combine (fun i j => .ok (.int (i + j))) (fun x y => .ok (.float (x + y))) a b

def sub (a b : Value) : Except Slip Value :=
  combine (fun i j => .ok (.int (i - j))) (fun x y => .ok (.float (x - y))) a b

/-- Product, or a repeated text or sequence. -/
def mul (a b : Value) : Except Slip Value :=
  match a, b.int?, a.int?, b with
  | .str s, some n, _, _ => .ok (.str (String.ofList (repeated s.toList n)))
  | .list xs, some n, _, _ => .ok (.list (repeated xs n))
  | .tuple xs, some n, _, _ => .ok (.tuple (repeated xs n))
  | _, _, some n, .str s => .ok (.str (String.ofList (repeated s.toList n)))
  | _, _, some n, .list xs => .ok (.list (repeated xs n))
  | _, _, some n, .tuple xs => .ok (.tuple (repeated xs n))
  | _, _, _, _ => combine (fun i j => .ok (.int (i * j))) (fun x y => .ok (.float (x * y))) a b

/-- Quotient, always a double. -/
def div (a b : Value) : Except Slip Value :=
  combine
    (fun i j =>
      if j == 0 then .error .zeroDivision
      else match Binary.ofIntRatio? i j with
        | some x => .ok (.float x)
        | Option.none => .error .overflow)
    (fun x y => if y == 0.0 then .error .zeroDivision else .ok (.float (x / y))) a b

def floorDiv (a b : Value) : Except Slip Value :=
  combine
    (fun i j => if j == 0 then .error .zeroDivision else .ok (.int (Int.fdiv i j)))
    (fun x y => if y == 0.0 then .error .zeroDivision else .ok (.float (x / y).floor)) a b

def neg (a : Value) : Except Slip Value := do
  match ← a.number with
  | .exact i => .ok (.int (-i))
  | .rounded x => .ok (.float (-x))

def square (a : Value) : Except Slip Value := do
  match ← a.number with
  | .exact i => .ok (.int (i * i))
  | .rounded x => .ok (.float (x * x))

mutual

/-- Order of two values: numbers, texts, and sequences of the same kind member by member; `some none`
when a NaN leaves two numbers unordered. -/
def order : Value → Value → Except Slip (Option Ordering)
  | .str a, .str b => .ok (some (compareOfLessAndEq a b))
  | .list xs, .list ys => orderList xs ys
  | .tuple xs, .tuple ys => orderList xs ys
  | a, b => do .ok ((← a.number).order? (← b.number))
termination_by structural x => x

/-- The order of the first members that differ, else of the lengths. -/
def orderList : List Value → List Value → Except Slip (Option Ordering)
  | [], ys => .ok (some (if ys.isEmpty then .eq else .lt))
  | x :: xs, ys => match ys with
    | [] => .ok (some .gt)
    | y :: ys => if same x y then orderList xs ys else order x y
termination_by structural xs => xs

end

def lt (a b : Value) : Except Slip Bool := do .ok ((← order a b) == some .lt)

def gt (a b : Value) : Except Slip Bool := do .ok ((← order a b) == some .gt)

def le (a b : Value) : Except Slip Bool := do
  let o ← order a b
  .ok (o == some .lt || o == some .eq)

def ge (a b : Value) : Except Slip Bool := do
  let o ← order a b
  .ok (o == some .gt || o == some .eq)

/-- The greater of two, the first when they are equal or unordered. -/
def maximum (a b : Value) : Except Slip Value := do .ok (if ← gt b a then b else a)

/-- The smaller of two, the first when they are equal or unordered. -/
def minimum (a b : Value) : Except Slip Value := do .ok (if ← lt b a then b else a)

/-- A value read as a double; a text is read as the number it spells. -/
def toFloat : Value → Except Slip Float
  | .str s => match Reader.float? s with
    | some x => .ok x
    | Option.none => .error .badValue
  | v => do (← v.number).toFloat

def truncate (x : Float) : Except Slip Int :=
  match Binary.ofFloat x with
  | .nan => .error .badValue
  | .infinite _ => .error .overflow
  | .finite negative m q => .ok (Binary.truncate negative m q)

/-- A value read as an integer: a double loses its fraction, a text is read. -/
def toInt : Value → Except Slip Int
  | .str s => match Reader.int? s with
    | some i => .ok i
    | Option.none => .error .badValue
  | v => do
    match ← v.number with
    | .exact i => .ok i
    | .rounded x => truncate x

end ModelExport.Value
