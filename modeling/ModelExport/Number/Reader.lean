import ModelExport.Number.Binary
import ModelExport.Text.Digit

/-!
# Number/Reader — numbers written as text

`Reader.int?` and `Reader.float?` read a whole text as a number.  Blanks around it are dropped, a
sign is allowed, and one underscore may stand between two digits; the digits may be those of any
script.  An integer has at most `Reader.digitLimit` digits.
-/

namespace ModelExport.Reader

def isBlank (c : Char) : Bool :=
  let n := c.toNat
  (0x09 ≤ n && n ≤ 0x0d) || n == 0x20 || n == 0x85 || n == 0xa0 || n == 0x1680 ||
    (0x2000 ≤ n && n ≤ 0x200a) || n == 0x2028 || n == 0x2029 || n == 0x202f || n == 0x205f ||
    n == 0x3000

def trim (cs : List Char) : List Char :=
  ((cs.dropWhile isBlank).reverse.dropWhile isBlank).reverse

/-- Splits a sign off: is it negative, and what follows. -/
def sign : List Char → Bool × List Char
  | '-' :: cs => (true, cs)
  | '+' :: cs => (false, cs)
  | cs => (false, cs)

def signed (negative : Bool) (n : Nat) : Int := if negative then - Int.ofNat n else Int.ofNat n

/-- The values of digits with single underscores between them, after those already read, which are
held in reverse. -/
def digitsAfter : List Nat → List Char → Option (List Nat)
  | done, [] => some done.reverse
  | d :: done, '_' :: c :: cs => (Digit.value? c).bind fun e => digitsAfter (e :: d :: done) cs
  | done, c :: cs => (Digit.value? c).bind fun e => digitsAfter (e :: done) cs

/-- The values of digits with single underscores between them. -/
def grouped? (cs : List Char) : Option (List Nat) := digitsAfter [] cs

def digitsValue (ds : List Nat) : Nat := ds.foldl (fun n d => 10 * n + d) 0

def digits? (cs : List Char) : Option (List Nat) :=
  match grouped? cs with
  | some [] => none
  | r => r

/-- How many digits an integer may have, leading zeros counted. -/
def digitLimit : Nat := 4300

/-- **The integer a text spells.** -/
def int? (s : String) : Option Int :=
  let (negative, cs) := sign (trim s.toList)
  (digits? cs).bind fun ds =>
    if ds.length > digitLimit then none else some (signed negative (digitsValue ds))

def scaled (negative : Bool) (n : Nat) (e : Int) : Float :=
  match e with
  | .ofNat k => Binary.ofRatio negative (n * Nat.pow 10 k) 1
  | .negSucc k => Binary.ofRatio negative n (Nat.pow 10 (k + 1))

/-- An unsigned decimal with an optional fraction and exponent, as digits and a power of ten. -/
def decimal? (cs : List Char) : Option (Nat × Int) :=
  let body := cs.takeWhile fun c => c != 'e' && c != 'E'
  let tail := cs.dropWhile fun c => c != 'e' && c != 'E'
  let whole := body.takeWhile (· != '.')
  let rest := body.dropWhile (· != '.')
  let fraction := rest.drop 1
  let exponent : Option Int := match tail with
    | [] => some 0
    | _ :: ts =>
      let (negative, ds) := sign ts
      (digits? ds).map fun ds => signed negative (digitsValue ds)
  match grouped? whole, grouped? fraction, exponent with
  | some w, some f, some e =>
    if w.isEmpty && f.isEmpty then none
    else some (digitsValue (w ++ f), e - f.length)
  | _, _, _ => none

/-- Bounds the power of ten: beyond it every double has become zero or the infinity. -/
def clampExponent (n : Nat) (e : Int) : Int :=
  let span : Int := 400 + Int.ofNat (Nat.toDigits 10 n).length
  max (-span) (min span e)

/-- **The double a text spells.** -/
def float? (s : String) : Option Float :=
  let (negative, cs) := sign (trim s.toList)
  let word := String.ofList (cs.map Char.toLower)
  if word == "inf" || word == "infinity" then
    some (Float.ofBits (UInt64.ofNat (2047 * Nat.pow 2 52 + (if negative then Nat.pow 2 63 else 0))))
  else if word == "nan" then some (Float.ofBits 0x7ff8000000000000)
  else (decimal? cs).map fun (n, e) => scaled negative n (clampExponent n e)

end ModelExport.Reader
