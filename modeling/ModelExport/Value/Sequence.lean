import ModelExport.Value.Arithmetic

/-!
# Value/Sequence — members of values

Positions may be counted from the end: `-1` is the last one.  A span of positions is clamped to the
sequence, so a span never fails.
-/

namespace ModelExport

/-- The place of a position in a sequence of length `n`; a negative one counts from the end. -/
def place? (n : Nat) (i : Int) : Option Nat :=
  let j := if i < 0 then i + n else i
  if 0 ≤ j ∧ j < n then some j.toNat else none

/-- An end of a span, brought into `0 .. n`. -/
def clampEnd (n : Nat) (i : Int) : Nat :=
  (min (max (if i < 0 then i + n else i) 0) n).toNat

def spanOf (xs : List α) (a b : Int) : List α :=
  let i := clampEnd xs.length a
  (xs.take (clampEnd xs.length b)).drop i

def replaceSpan (xs : List α) (a b : Int) (ys : List α) : List α :=
  let i := clampEnd xs.length a
  let j := max i (clampEnd xs.length b)
  xs.take i ++ ys ++ xs.drop j

def memberAt (xs : List α) (i : Int) : Except Slip α :=
  match place? xs.length i with
  | some k => match xs[k]? with
    | some x => .ok x
    | none => .error .outOfRange
  | none => .error .outOfRange

def replaceAt (xs : List α) (i : Int) (x : α) : Except Slip (List α) :=
  match place? xs.length i with
  | some k => .ok (xs.set k x)
  | none => .error .outOfRange

def eraseAt (xs : List α) (i : Int) : Except Slip (List α) :=
  match place? xs.length i with
  | some k => .ok (xs.eraseIdx k)
  | none => .error .outOfRange

namespace Value

def length : Value → Except Slip Nat
  | .str s => .ok s.length
  | .list xs => .ok xs.length
  | .tuple xs => .ok xs.length
  | .dict fs => .ok fs.length
  | _ => .error .wrongKind

/-- The members in order; a table gives its keys. -/
def members : Value → Except Slip (List Value)
  | .str s => .ok (s.toList.map fun c => .str (String.ofList [c]))
  | .list xs => .ok xs
  | .tuple xs => .ok xs
  | .dict fs => .ok (fs.map Prod.fst)
  | _ => .error .wrongKind

mutual

def isKey : Value → Bool
  | .list _ => false
  | .dict _ => false
  | .tuple xs => areKeys xs
  | .object (.constant key _ _) _ => key
  | _ => true
termination_by structural x => x

def areKeys : List Value → Bool
  | [] => true
  | x :: xs => isKey x && areKeys xs
termination_by structural xs => xs

end

def lookup (fs : List (Value × Value)) (k : Value) : Option Value :=
  (fs.find? fun f => same f.1 k).map Prod.snd

/-- The member at a position, or under a key. -/
def get (v i : Value) : Except Slip Value :=
  match v with
  | .list xs => do memberAt xs (← i.exact)
  | .tuple xs => do memberAt xs (← i.exact)
  | .str s => do .ok (.str (String.ofList [← memberAt s.toList (← i.exact)]))
  | .dict fs =>
    if !i.isKey then .error .wrongKind
    else match lookup fs i with
      | some x => .ok x
      | Option.none => .error .missingKey
  | _ => .error .wrongKind

def nth (v : Value) (i : Int) : Except Slip Value := get v (.int i)

/-- A value with the member at a position replaced; only open sequences allow it. -/
def set (v : Value) (i : Value) (x : Value) : Except Slip Value :=
  match v with
  | .list xs => do .ok (.list (← replaceAt xs (← i.exact) x))
  | .dict fs =>
    if !i.isKey then .error .wrongKind
    else if fs.any fun f => same f.1 i then
      .ok (.dict (fs.map fun f => if same f.1 i then (f.1, x) else f))
    else .ok (.dict (fs ++ [(i, x)]))
  | _ => .error .wrongKind

/-- **A table with these fields**: of several values of a key the last stays, at the key's first
place. -/
def table (fields : List (Value × Value)) : Except Slip Value :=
  fields.foldlM (fun t f => set t f.1 f.2) (.dict [])

/-- Is `x` a member of `v`?  In a text: a part of it. -/
def has (v x : Value) : Except Slip Bool :=
  match v with
  | .str s => match x with
    | .str t => .ok ((s.splitOn t).length > 1 || t.isEmpty)
    | _ => .error .wrongKind
  | .dict fs => if x.isKey then .ok (fs.any fun f => same f.1 x) else .error .wrongKind
  | v => do .ok ((← v.members).any fun y => same y x)

/-- The members from `a` up to `b`, in a sequence of the same kind. -/
def span (v : Value) (a b : Int) : Except Slip Value :=
  match v with
  | .list xs => .ok (.list (spanOf xs a b))
  | .tuple xs => .ok (.tuple (spanOf xs a b))
  | .str s => .ok (.str (String.ofList (spanOf s.toList a b)))
  | _ => .error .wrongKind

end Value

end ModelExport
