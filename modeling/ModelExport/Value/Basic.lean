import ModelExport.Fault
import ModelExport.Number.Binary

/-!
# Value/Basic — what an attribute may hold

Attributes of operators and fields of nodes are dynamically typed: a `Value` is nothing, a truth
value, an integer, a double, a text, a sequence (open or closed), a keyed table in insertion order,
or the handle of an object of the host.  Truth values count as the integers 0 and 1 wherever a
number is asked for (`Value.number?`), and `Value.same` compares numbers by magnitude, so `1`, `1.0`
and `true` are the same value.
-/

namespace ModelExport

/-- What kind of host object a handle stands for. -/
inductive Handle where
  | node
  | variable
  | tensor
  | inputSpec
  | unknownElement
  /-- A constant of a kind that no attribute has: may it be a key, does it count as true, and what tells
  it apart from others of its kind. -/
  | constant (key full : Bool) (mark : String)
  deriving DecidableEq, Repr, Inhabited

/-- **A dynamically typed value.** -/
inductive Value where
  | none
  | bool (b : Bool)
  | int (i : Int)
  | float (x : Float)
  | str (s : String)
  | list (xs : List Value)
  | tuple (xs : List Value)
  | dict (fields : List (Value × Value))
  | object (kind : Handle) (name : String)
  deriving Inhabited

abbrev Attrs := List (String × Value)

instance : Coe String Value := ⟨.str⟩
instance : Coe Int Value := ⟨.int⟩
instance : Coe Float Value := ⟨.float⟩
instance : Coe (List Value) Value := ⟨.list⟩

/-- A number as arithmetic sees it: exact or rounded. -/
inductive Number where
  | exact (i : Int)
  | rounded (x : Float)

namespace Value

def ints (xs : List Int) : Value := .list (xs.map .int)

def strs (xs : List String) : Value := .list (xs.map .str)

def number? : Value → Option Number
  | .bool b => some (.exact (if b then 1 else 0))
  | .int i => some (.exact i)
  | .float x => some (.rounded x)
  | _ => Option.none

/-- The integer a value counts as, where an exact integer is needed. -/
def int? : Value → Option Int
  | .bool b => some (if b then 1 else 0)
  | .int i => some i
  | _ => Option.none

def str? : Value → Option String
  | .str s => some s
  | _ => Option.none

def list? : Value → Option (List Value)
  | .list xs => some xs
  | _ => Option.none

def isNone : Value → Bool
  | .none => true
  | _ => false

def isStr : Value → Bool
  | .str _ => true
  | _ => false

def isList : Value → Bool
  | .list _ => true
  | _ => false

end Value

/-- Order of two numbers, exact; `none` when a NaN is involved. -/
def Number.order? : Number → Number → Option Ordering
  | .exact a, .exact b => some (compare a b)
  | .rounded x, .exact b => Binary.compareInt x b
  | .exact a, .rounded y => (Binary.compareInt y a).map Ordering.swap
  | .rounded x, .rounded y =>
    if x < y then some .lt else if y < x then some .gt else if x == y then some .eq else Option.none

def Number.same (a b : Number) : Bool := a.order? b == some .eq

def Number.toFloat : Number → Except Slip Float
  | .rounded x => .ok x
  | .exact i => match Binary.ofInt? i with
    | some x => .ok x
    | Option.none => .error .overflow

namespace Value

def sameNumber (a : Number) (y : Value) : Bool :=
  match y.number? with
  | some b => a.same b
  | Option.none => false

mutual

/-- **Same value**: numbers by magnitude, texts by characters, sequences and tables by members. -/
def same : Value → Value → Bool
  | .none, y => y.isNone
  | .str a, .str b => a == b
  | .list xs, .list ys => sameList xs ys
  | .tuple xs, .tuple ys => sameList xs ys
  | .dict xs, .dict ys => xs.length == ys.length && sameFields xs ys
  | .object k a, .object l b => k == l && a == b
  | .bool a, y => sameNumber (.exact (if a then 1 else 0)) y
  | .int a, y => sameNumber (.exact a) y
  | .float a, y => sameNumber (.rounded a) y
  | _, _ => false
termination_by structural x => x

def sameList : List Value → List Value → Bool
  | [], ys => ys.isEmpty
  | x :: xs, ys => match ys with
    | [] => false
    | y :: ys => same x y && sameList xs ys
termination_by structural xs => xs

/-- Every field of the first table is a field of the second. -/
def sameFields : List (Value × Value) → List (Value × Value) → Bool
  | [], _ => true
  | f :: rest, ys => sameField f ys && sameFields rest ys
termination_by structural xs => xs

def sameField : Value × Value → List (Value × Value) → Bool
  | (k, v), ys => ys.any fun g => same k g.1 && same v g.2
termination_by structural f => f

end

end Value

end ModelExport
