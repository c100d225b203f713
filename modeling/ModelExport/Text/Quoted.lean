import ModelExport.Text.Printable

/-!
# Text/Quoted — strings between quotes

A string is written between single quotes, or between double quotes when it holds a single quote and
no double one.  The quote in use, the backslash, and characters that are not printable are escaped.
-/

namespace ModelExport.Quoted

def hex (width n : Nat) : String :=
  let cs := Nat.toDigits 16 n
  String.ofList (List.replicate (width - cs.length) '0' ++ cs)

def byNumber (c : Char) : String :=
  let n := c.toNat
  if n < 0x100 then "\\x" ++ hex 2 n
  else if n < 0x10000 then "\\u" ++ hex 4 n
  else "\\U" ++ hex 8 n

def escape (q c : Char) : String :=
  if c == q || c == '\\' then String.ofList ['\\', c]
  else if c == '\n' then "\\n"
  else if c == '\r' then "\\r"
  else if c == '\t' then "\\t"
  else if Printable.isPrintable c then String.ofList [c]
  else byNumber c

def quoteOf (s : String) : Char :=
  if s.toList.contains '\x27' && !s.toList.contains '\x22' then '\x22' else '\x27'

/-- **A text between quotes.** -/
def quote (s : String) : String :=
  let q := quoteOf s
  String.ofList [q] ++ String.join (s.toList.map (escape q)) ++ String.ofList [q]

/-- The UTF-8 bytes of a text, each read as the character of its number. -/
def bytesAsCharacters (s : String) : String :=
  String.ofList (s.toUTF8.toList.map fun b => Char.ofNat b.toNat)

end ModelExport.Quoted
