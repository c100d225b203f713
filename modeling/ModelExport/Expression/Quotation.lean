import ModelExport.Expression.Numeral

/-!
# Expression/Quotation — quoted texts in an expression

A quoted text stands between two quotes on one line, or between three quotes on each side on any
number of lines.  Letters before the quotes choose its kind: `r` leaves backslashes alone, `b` makes
it a sequence of bytes, and `f` makes it a template with fields in braces.
-/

namespace ModelExport

/-- **A quoted text**: characters, bytes as the characters of the same number, or a template. -/
inductive Quotation where
  | text (s : String)
  | bytes (cs : List Char)
  | template

namespace Quotation

/-! ## The quotes -/

/-- What the letters before a quote ask for. -/
structure Style where
  raw : Bool := false
  bytes : Bool := false
  template : Bool := false

def style? (letters : List Char) : Option Style :=
  match String.ofList (letters.map Char.toLower) with
  | "" => some {}
  | "u" => some {}
  | "r" => some { raw := true }
  | "b" => some { bytes := true }
  | "f" => some { template := true }
  | "br" => some { raw := true, bytes := true }
  | "rb" => some { raw := true, bytes := true }
  | "fr" => some { raw := true, template := true }
  | "rf" => some { raw := true, template := true }
  | _ => none

def isQuote (c : Char) : Bool := c == '\x27' || c == '\x22'

/-- The style, the quote and what follows, when a quote comes after so many letters. -/
def openingAfter (letters : Nat) (cs : List Char) : Option (Style × Char × List Char) :=
  match cs.drop letters with
  | q :: rest => if isQuote q then (style? (cs.take letters)).map (·, q, rest) else none
  | [] => none

def opening? (cs : List Char) : Option (Style × Char × List Char) :=
  openingAfter 0 cs <|> openingAfter 1 cs <|> openingAfter 2 cs

/-- What stands before one closing quote on the same line, and what follows it.  What has been passed
is held in reverse; a backslash protects the character behind it. -/
def single? (quote : Char) : List Char → List Char → Option (List Char × List Char)
  | _, [] => none
  | done, '\\' :: c :: cs => single? quote (c :: '\\' :: done) cs
  | done, c :: cs =>
    if c == quote then some (done.reverse, cs)
    else if c == '\n' then none
    else single? quote (c :: done) cs

/-- What stands before three closing quotes, and what follows them. -/
def triple? (quote : Char) : List Char → List Char → Option (List Char × List Char)
  | _, [] => none
  | done, '\\' :: c :: cs => triple? quote (c :: '\\' :: done) cs
  | done, c :: cs =>
    if c == quote && cs.take 2 == [quote, quote] then some (done.reverse, cs.drop 2)
    else triple? quote (c :: done) cs

/-- What stands between the quotes, after the first of them, and what follows. -/
def body? (quote : Char) (cs : List Char) : Option (List Char × List Char) :=
  if cs.take 2 == [quote, quote] then triple? quote [] (cs.drop 2) else single? quote [] cs

/-! ## What stands between them -/

def escape? : Char → Option Char
  | '\\' => some '\\'
  | '\x27' => some '\x27'
  | '\x22' => some '\x22'
  | 'a' => some '\x07'
  | 'b' => some '\x08'
  | 'f' => some '\x0c'
  | 'n' => some '\n'
  | 'r' => some '\r'
  | 't' => some '\t'
  | 'v' => some '\x0b'
  | _ => none

/-- How many digits of base sixteen follow the letter of an escape. -/
def codeWidth? (bytes : Bool) : Char → Option Nat
  | 'x' => some 2
  | 'u' => if bytes then none else some 4
  | 'U' => if bytes then none else some 8
  | _ => none

/-- Is the escape one that looks a character up by its name? -/
def isLookup (bytes : Bool) (c : Char) : Bool := !bytes && c == 'N'

def isDigitOf (base : Nat) (c : Char) : Bool := Numeral.digitValue c < base

def codeOf (base : Nat) (cs : List Char) : Nat := Numeral.ofDigits base (cs.map Numeral.digitValue)

/-- The character of a code point; half of a pair has none of its own. -/
def character (n : Nat) : Char :=
  if 0xd800 ≤ n && n < 0xe000 then Char.ofNat 0xfffd else Char.ofNat n

/-- **The characters that escaped characters stand for**, after those already found, which are held in
reverse.  An unknown escape stands for itself. -/
def unescape (bytes : Bool) : List Char → List Char → Option (List Char)
  | done, [] => some done.reverse
  | done, '\\' :: '\n' :: cs => unescape bytes done cs
  | done, '\\' :: c :: cs =>
    if isDigitOf 8 c then
      let code := c :: (cs.take 2).takeWhile (isDigitOf 8)
      let n := codeOf 8 code
      unescape bytes (Char.ofNat (if bytes then n % 256 else n) :: done) (cs.drop (code.length - 1))
    else match escape? c, codeWidth? bytes c with
      | some d, _ => unescape bytes (d :: done) cs
      | none, some width =>
        let code := cs.take width
        if code.length < width || !code.all (isDigitOf 16) || codeOf 16 code > 0x10ffff then none
        else unescape bytes (character (codeOf 16 code) :: done) (cs.drop width)
      | none, none =>
        if isLookup bytes c then none else unescape bytes (c :: '\\' :: done) cs
  | done, c :: cs => unescape bytes (c :: done) cs
termination_by _ cs => cs.length
decreasing_by all_goals simp only [List.length_cons, List.length_drop]; omega

/-- Is every field of a template closed and filled?  The number counts open braces, and the flag says
that something stands in the field. -/
def fieldsClosed : Nat → Bool → List Char → Bool
  | 0, _, [] => true
  | 0, _, '\x7b' :: '\x7b' :: cs => fieldsClosed 0 false cs
  | 0, _, '\x7d' :: '\x7d' :: cs => fieldsClosed 0 false cs
  | 0, _, '\x7b' :: cs => fieldsClosed 1 false cs
  | 0, _, '\x7d' :: _ => false
  | 0, _, _ :: cs => fieldsClosed 0 false cs
  | _ + 1, _, [] => false
  | d + 1, filled, '\x7d' :: cs => filled && fieldsClosed d true cs
  | d + 1, _, '\x7b' :: cs => fieldsClosed (d + 2) true cs
  | d + 1, filled, c :: cs =>
    if c == '\\' || c == '#' || (!filled && (c == ':' || c == '!' || c == '=')) then false
    else fieldsClosed (d + 1) (filled || !(c == ' ' || c == '\t' || c == '\n')) cs

def ofBody? (style : Style) (body : List Char) : Option Quotation := do
  let cs ← if style.raw then some body else unescape style.bytes [] body
  if style.bytes then
    if body.all fun c => c.toNat < 128 then some (.bytes cs) else none
  else if style.template then
    if fieldsClosed 0 false body then some .template else none
  else some (.text (String.ofList cs))

/-- **The quoted text behind an opening**, and what follows it. -/
def first? (style : Style) (quote : Char) (cs : List Char) : Option (Quotation × List Char) := do
  let (body, rest) ← body? quote cs
  return (← ofBody? style body, rest)

end Quotation

end ModelExport
