import ModelExport.Value.Sequence

/-!
# Value/Digest — the number a key is filed under

The digest of a number is what remains of it modulo the prime `2 ^ 61 - 1`, with its sign, so that
numbers of the same magnitude agree whether they are exact or rounded.
-/

namespace ModelExport.Value

def digestPrime : Nat := Nat.pow 2 61 - 1

/-- A remainder with a sign; `-1` is kept for other uses. -/
def signedDigest (negative : Bool) (r : Nat) : Int :=
  if !negative then r else if r == 1 then -2 else -r

/-- **The digest of a number.**  Two to the power of 61 leaves the remainder one, so only the exponent
modulo 61 counts.  A NaN has a digest of its own. -/
def numberDigest? : Number → Option Int
  | .exact i => some (signedDigest (i < 0) (i.natAbs % digestPrime))
  | .rounded x => match Binary.ofFloat x with
    | .nan => Option.none
    | .infinite negative => some (signedDigest negative 314159)
    | .finite negative m q =>
      some (signedDigest negative (m * Nat.pow 2 (q % 61).toNat % digestPrime))

def turn (w : UInt64) : UInt64 := (w <<< 31) ||| (w >>> 33)

def mix (w : UInt64) (digest : Int) : UInt64 :=
  turn (w + UInt64.ofInt digest * 14029467366897019727) * 11400714785074694791

def mixStart : UInt64 := 2870177450012600261

/-- The digest of a closed sequence whose members have these digests. -/
def sequenceDigest (digests : List Int) : Int :=
  let w := digests.foldl mix mixStart + (UInt64.ofNat digests.length ^^^ (mixStart ^^^ 3527539))
  let i := w.toInt64.toInt
  if i == -1 then 1546275796 else i

mutual

/-- **The digest of a value**, where it is known from the value alone. -/
def digest? : Value → Option Int
  | .bool b => some (if b then 1 else 0)
  | .int i => numberDigest? (.exact i)
  | .float x => numberDigest? (.rounded x)
  | .str s => if s.isEmpty then some 0 else Option.none
  | .tuple xs => (digests? xs).map sequenceDigest
  | _ => Option.none
termination_by structural v => v

def digests? : List Value → Option (List Int)
  | [] => some []
  | x :: xs => match digest? x, digests? xs with
    | some d, some ds => some (d :: ds)
    | _, _ => Option.none
termination_by structural xs => xs

end

mutual

/-- **Are two keys filed under the same number?** -/
def sameDigest : Value → Value → Bool
  | .tuple xs, y => match y with
    | .tuple ys => sameDigests xs ys
    | y => match digest? (.tuple xs), digest? y with
      | some d, some e => d == e
      | _, _ => false
  | x, y => match digest? x, digest? y with
    | some d, some e => d == e
    | _, _ => same x y
termination_by structural x => x

def sameDigests : List Value → List Value → Bool
  | [], ys => ys.isEmpty
  | x :: xs, ys => match ys with
    | [] => false
    | y :: ys => sameDigest x y && sameDigests xs ys
termination_by structural xs => xs

end

end ModelExport.Value
