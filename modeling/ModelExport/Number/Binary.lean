/-!
# Number/Binary — doubles as exact dyadic numbers

A finite double is `± m · 2 ^ q` with `m < 2 ^ 53`.  `Binary.ofFloat` reads that form off the bits,
`Binary.compareInt` compares a double with an integer without rounding either, `Binary.ofRatio`
rounds a quotient of naturals to the nearest double (ties to even), and `Binary.roundHalf` rounds a
double to the nearest value of the 16-bit format.
-/

namespace ModelExport

/-- **A double, read exactly.** -/
inductive Binary where
  | nan
  | infinite (negative : Bool)
  | finite (negative : Bool) (m : Nat) (q : Int)
  deriving DecidableEq, Repr

namespace Binary

def ofFloat (x : Float) : Binary :=
  let bits := x.toBits.toNat
  let negative := bits / Nat.pow 2 63 == 1
  let e := bits / Nat.pow 2 52 % Nat.pow 2 11
  let f := bits % Nat.pow 2 52
  if e == 2047 then (if f == 0 then .infinite negative else .nan)
  else if e == 0 then .finite negative f (-1074)
  else .finite negative (f + Nat.pow 2 52) (Int.ofNat e - 1075)

/-- `a · 2 ^ q` for a natural `a`, as numerator and denominator. -/
def dyadic (a : Nat) (q : Int) : Nat × Nat :=
  match q with
  | .ofNat k => (a * Nat.pow 2 k, 1)
  | .negSucc k => (a, Nat.pow 2 (k + 1))

def truncate (negative : Bool) (m : Nat) (q : Int) : Int :=
  let (n, d) := dyadic m q
  if negative then - Int.ofNat (n / d) else Int.ofNat (n / d)

def floor (negative : Bool) (m : Nat) (q : Int) : Int :=
  let (n, d) := dyadic m q
  (if negative then - Int.ofNat n else Int.ofNat n) / Int.ofNat d

def ceil (negative : Bool) (m : Nat) (q : Int) : Int := - floor (!negative) m q

def isWhole (m : Nat) (q : Int) : Bool :=
  let (n, d) := dyadic m q
  n % d == 0

/-- Order of a double and an integer, exact; `none` for a NaN. -/
def compareInt (x : Float) (i : Int) : Option Ordering :=
  match ofFloat x with
  | .nan => none
  | .infinite negative => some (if negative then .lt else .gt)
  | .finite negative m q =>
    let (n, d) := dyadic m q
    let v : Int := if negative then - Int.ofNat n else Int.ofNat n
    some (compare v (i * d))

/-- `⌊n / d⌋` brought to the nearest natural, a half to the even neighbour. -/
def roundQuotient (n d : Nat) : Nat :=
  let k := n / d
  match compare (2 * (n % d)) d with
  | .lt => k
  | .gt => k + 1
  | .eq => if k % 2 == 0 then k else k + 1

/-- `n / d` in units of `2 ^ q`, as numerator and denominator. -/
def scaled (n d : Nat) (q : Int) : Nat × Nat :=
  match q with
  | .ofNat k => (n, d * Nat.pow 2 k)
  | .negSucc k => (n * Nat.pow 2 (k + 1), d)

/-- Has the quotient at most 53 bits in these units? -/
def fitsAt (n d : Nat) (q : Int) : Bool := (scaled n d q).1 / (scaled n d q).2 < Nat.pow 2 53

/-- The exponent at which the quotient has at most 53 bits, never below that of subnormals. -/
def ratioExponent (n d : Nat) : Int :=
  let guess : Int := Int.ofNat n.log2 - Int.ofNat d.log2 - 53
  max (if fitsAt n d guess then guess else if fitsAt n d (guess + 1) then guess + 1 else guess + 2) (-1074)

/-- Bits of the double `m · 2 ^ q` with at most 53 bits; beyond the largest finite one, of the infinity. -/
def dyadicBits (m : Nat) (q : Int) : Nat :=
  if m < Nat.pow 2 52 then m
  else
    let e := (q + 1075).toNat
    if e ≥ 2047 then 2047 * Nat.pow 2 52 else e * Nat.pow 2 52 + (m - Nat.pow 2 52)

/-- Bits of the double nearest to `n / d` (`d > 0`), ties to even; an overflow gives the infinity. -/
def ratioBits (n d : Nat) : Nat :=
  if n == 0 then 0
  else
    let q := ratioExponent n d
    let m := roundQuotient (scaled n d q).1 (scaled n d q).2
    if m == Nat.pow 2 53 then dyadicBits (Nat.pow 2 52) (q + 1) else dyadicBits m q

/-- **The double nearest to a quotient of naturals.** -/
def ofRatio (negative : Bool) (n d : Nat) : Float :=
  Float.ofBits (UInt64.ofNat (ratioBits n d + (if negative then Nat.pow 2 63 else 0)))

/-- The double nearest to an integer; `none` beyond the largest finite one. -/
def ofInt? (i : Int) : Option Float :=
  let x := ofRatio (i < 0) i.natAbs 1
  if x.isFinite then some x else none

/-- The double nearest to `a / b` for integers, `b ≠ 0`; `none` beyond the largest finite one. -/
def ofIntRatio? (a b : Int) : Option Float :=
  let x := ofRatio ((a < 0) != (b < 0) && a != 0) a.natAbs b.natAbs
  if x.isFinite then some x else none

/-- **The nearest value of the 16-bit format**, ties to even; 65520 and above give the infinity. -/
def roundHalf (x : Float) : Float :=
  match ofFloat x with
  | .nan => x
  | .infinite _ => x
  | .finite negative m q =>
    let (n, d) := dyadic m q
    if n == 0 then x
    else
      let e : Int := Int.ofNat n.log2 - Int.ofNat d.log2
      let below : Bool := match e with
        | .ofNat k => n < d * Nat.pow 2 k
        | .negSucc k => n * Nat.pow 2 (k + 1) < d
      -- 11 significant bits, and no unit smaller than 2 ^ (-24)
      let unit : Int := max ((if below then e - 1 else e) - 10) (-24)
      let (a, b) := match unit with
        | .ofNat k => (n, d * Nat.pow 2 k)
        | .negSucc k => (n * Nat.pow 2 (k + 1), d)
      let (p, r) := dyadic (roundQuotient a b) unit
      if p ≥ 65520 * r then
        Float.ofBits (UInt64.ofNat (2047 * Nat.pow 2 52 + (if negative then Nat.pow 2 63 else 0)))
      else ofRatio negative p r

def roundSingle (x : Float) : Float := x.toFloat32.toFloat

end Binary

end ModelExport
