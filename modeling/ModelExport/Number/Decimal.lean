import ModelExport.Number.Binary

/-!
# Number/Decimal — the fewest digits that read back

`Decimal.shortest` gives, for a positive double, the decimal `0.d₁d₂…dₙ · 10 ^ p` with the fewest
digits among those nearer to it than to any other double, and of several the nearest one.
`Decimal.text` writes it: positionally for decimal exponents from -4 to 15, else with a mark `e`, a
sign and at least two exponent digits; a whole number keeps `.0`.
-/

namespace ModelExport.Decimal

def digits (n : Nat) : List Char := Nat.toDigits 10 n

/-- The power of ten just above `n / d` is `10 ^ pointOf n d`. -/
def pointOf (n d : Nat) : Int :=
  Int.ofNat (digits (n * Nat.pow 10 400 / d)).length - 400

/-- Does `c · 10 ^ k`, scaled by `4 · 2 ^ -q`, lie in the rounding interval of `m · 2 ^ q`? -/
def readsBack (m : Nat) (q : Int) (c : Nat) (k : Int) : Bool :=
  let gap : Nat := if m == Nat.pow 2 52 && q > -1074 then 1 else 2
  let (cn, cd) : Nat × Nat := match k with
    | .ofNat j => (c * Nat.pow 10 j, 1)
    | .negSucc j => (c, Nat.pow 10 (j + 1))
  let (un, ud) := Binary.dyadic 1 (q - 2)
  -- compare cn / cd with (4 m - gap) · un / ud and (4 m + 2) · un / ud
  let mid := cn * ud
  let low := (4 * m - gap) * un * cd
  let high := (4 * m + 2) * un * cd
  if m % 2 == 0 then low ≤ mid && mid ≤ high else low < mid && mid < high

/-- Of the two grid neighbours `c` and `c + 1` at `10 ^ k`, one that reads back, the nearer first. -/
def candidate (m : Nat) (q : Int) (n d : Nat) (k : Int) : Option Nat :=
  let (a, b) : Nat × Nat := match k with
    | .ofNat j => (n, d * Nat.pow 10 j)
    | .negSucc j => (n * Nat.pow 10 (j + 1), d)
  let c := a / b
  let twice := 2 * (a % b)
  let upper := twice > b || (twice == b && c % 2 == 1)
  let first := if upper then c + 1 else c
  let second := if upper then c else c + 1
  if readsBack m q first k then some first
  else if readsBack m q second k then some second
  else none

/-- The first grid, from `fuel` digits left to try, on which a candidate reads back. -/
def search (m : Nat) (q : Int) (n d : Nat) (point : Int) : Nat → Nat × Int
  | 0 => (n / d, 0)
  | fuel + 1 =>
    let k := point - Int.ofNat (17 - fuel)
    match candidate m q n d k with
    | some c => (c, k)
    | none => search m q n d point fuel

def trimZeros (cs : List Char) : List Char := (cs.reverse.dropWhile (· == '0')).reverse

/-- **Shortest digits of `m · 2 ^ q`** (`m > 0`) and the place of the point: `0.d₁d₂… · 10 ^ p`. -/
def shortest (m : Nat) (q : Int) : List Char × Int :=
  let (n, d) := Binary.dyadic m q
  let (c, k) := search m q n d (pointOf n d) 18
  let cs := digits c
  (trimZeros cs, Int.ofNat cs.length + k)

/-- An exponent is written with a sign and at least two digits. -/
def exponentText (e : Int) : String :=
  let cs := digits e.natAbs
  let padded := if cs.length < 2 then '0' :: cs else cs
  (if e < 0 then "e-" else "e+") ++ String.ofList padded

def magnitude (m : Nat) (q : Int) : String :=
  if m == 0 then "0.0"
  else
    let (ds, p) := shortest m q
    let e := p - 1
    if e < -4 || e ≥ 16 then
      match ds with
      | [] => "0.0"
      | [c] => String.ofList [c] ++ exponentText e
      | c :: cs => String.ofList (c :: '.' :: cs) ++ exponentText e
    else if p ≤ 0 then
      "0." ++ String.ofList (List.replicate (-p).toNat '0' ++ ds)
    else
      let whole := p.toNat
      let padded := ds ++ List.replicate (whole - ds.length) '0'
      let frac := padded.drop whole
      String.ofList (padded.take whole) ++ "." ++
        (if frac.isEmpty then "0" else String.ofList frac)

/-- **The text of a double.** -/
def text (x : Float) : String :=
  match Binary.ofFloat x with
  | .nan => "nan"
  | .infinite negative => if negative then "-inf" else "inf"
  | .finite negative m q => (if negative then "-" else "") ++ magnitude m q

end ModelExport.Decimal
