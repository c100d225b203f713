import ModelExport.Number.Reader
import ModelExport.Text.Identifier

/-!
# Expression/Numeral — numbers in an expression

A number is written in base ten, with or without a point and an exponent, or as an integer in base
sixteen, eight or two behind `0x`, `0o` or `0b`.  One underscore may stand between two digits.  A
decimal integer has no leading zeros unless all its digits are zeros, and a `j` behind a decimal
number makes it imaginary.
-/

namespace ModelExport

/-- **A number in an expression**; its sign stands outside. -/
inductive Numeral where
  | int (n : Nat)
  | float (x : Float)
  | imaginary (x : Float)

namespace Numeral

/-- What a character is worth as a digit, letters going on after the nine; 36 when it is none. -/
def digitValue (c : Char) : Nat :=
  if c.isDigit then c.toNat - 48
  else if 'a' ≤ c && c ≤ 'z' then c.toNat - 87
  else if 'A' ≤ c && c ≤ 'Z' then c.toNat - 55
  else 36

def ofDigits (base : Nat) (ds : List Nat) : Nat := ds.foldl (fun n d => base * n + d) 0

/-- **The digits of a base at the beginning of a text**, each after at most one underscore, and what
follows them.  Those already read are held in reverse. -/
def run? (base : Nat) : List Nat → List Char → Option (List Nat × List Char)
  | done, [] => some (done.reverse, [])
  | _, ['_'] => none
  | done, '_' :: c :: cs =>
    if digitValue c < base then run? base (digitValue c :: done) cs else none
  | done, c :: cs =>
    if digitValue c < base then run? base (digitValue c :: done) cs
    else some (done.reverse, c :: cs)

/-- Words that may stand right behind a number. -/
def joiners : List (List Char) :=
  ["and", "else", "for", "if", "in", "is", "not", "or"].map String.toList

def mayEnd (cs : List Char) : Bool :=
  joiners.any (·.isPrefixOf cs) || !cs.head?.any Identifier.isWordChar

def ended (v : Numeral) (rest : List Char) : Option (Numeral × List Char) :=
  if mayEnd rest then some (v, rest) else none

def based? (base : Nat) (cs : List Char) : Option (Numeral × List Char) := do
  let (ds, rest) ← run? base [] cs
  if ds.isEmpty then none else ended (.int (ofDigits base ds)) rest

def double (whole fraction : List Nat) (exponent : Int) : Float :=
  let n := Reader.digitsValue (whole ++ fraction)
  Reader.scaled false n (Reader.clampExponent n (exponent - fraction.length))

/-- A decimal integer; none with leading zeros or too many digits. -/
def decimalInt? (ds : List Nat) : Option Numeral :=
  if (ds.head? == some 0 && ds.any (· != 0)) || ds.length > Reader.digitLimit then none
  else some (.int (Reader.digitsValue ds))

/-- A decimal number whose digits have all been read: a `j` makes it imaginary. -/
def finish (real : Option Numeral) (x : Float) (rest : List Char) : Option (Numeral × List Char) :=
  match rest with
  | 'j' :: rest => ended (.imaginary x) rest
  | 'J' :: rest => ended (.imaginary x) rest
  | rest => real.bind (ended · rest)

def startsDigit (cs : List Char) : Bool := cs.head?.any Char.isDigit

/-- **A decimal number from its exponent on.**  Without digits the mark of an exponent is none of it;
`real` is the number without an exponent. -/
def exponent? (real : Option Numeral) (whole fraction : List Nat) (rest : List Char) :
    Option (Numeral × List Char) :=
  match rest with
  | c :: after =>
    if c == 'e' || c == 'E' then
      let (negative, digits) := Reader.sign after
      if startsDigit digits then do
        let (ds, rest) ← run? 10 [] digits
        let x := double whole fraction (Reader.signed negative (Reader.digitsValue ds))
        finish (some (.float x)) x rest
      else if after.head?.any (fun c => c == '+' || c == '-') then none
      else real.bind (ended · rest)
    else finish real (double whole fraction 0) rest
  | [] => real.map (·, [])

def pointed? (whole : List Nat) (cs : List Char) : Option (Numeral × List Char) := do
  let (fraction, rest) ← if startsDigit cs then run? 10 [] cs else some ([], cs)
  exponent? (some (.float (double whole fraction 0))) whole fraction rest

def decimal? (cs : List Char) : Option (Numeral × List Char) := do
  let (whole, rest) ← run? 10 [] cs
  match rest with
  | '.' :: rest => pointed? whole rest
  | rest => exponent? (decimalInt? whole) whole [] rest

def startsHere : List Char → Bool
  | '.' :: cs => startsDigit cs
  | cs => startsDigit cs

/-- **The number at the beginning of a text**, and what follows it. -/
def first? : List Char → Option (Numeral × List Char)
  | '.' :: cs => pointed? [] cs
  | '0' :: c :: cs =>
    if c == 'x' || c == 'X' then based? 16 cs
    else if c == 'o' || c == 'O' then based? 8 cs
    else if c == 'b' || c == 'B' then based? 2 cs
    else decimal? ('0' :: c :: cs)
  | cs => decimal? cs

end Numeral

end ModelExport
