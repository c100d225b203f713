import ModelExport.Expression.Quotation

/-!
# Expression/Token — the words and marks of an expression

`Token.scan` cuts a text into words, constants and marks.  Blanks, comments and empty lines are
dropped, and so are the ends of lines inside brackets; a backslash joins two lines.  Outside brackets a
line that begins with blanks gives an `indent`.
-/

namespace ModelExport

/-- **A piece of an expression.** -/
inductive Token where
  | word (name : String)
  | number (v : Numeral)
  | quotation (q : Quotation)
  | mark (s : String)
  | newline
  | indent
  | bad

namespace Token

/-! ## Lines -/

/-- A text in which every line ends with a line feed. -/
def unifyLines : List Char → List Char → List Char
  | done, [] => done.reverse
  | done, '\r' :: '\n' :: cs => unifyLines ('\n' :: done) cs
  | done, '\r' :: cs => unifyLines ('\n' :: done) cs
  | done, c :: cs => unifyLines (c :: done) cs

/-- What follows a backslash at the end of a line; a line must follow. -/
def joined? : List Char → Option (List Char)
  | '\n' :: c :: cs => some (c :: cs)
  | _ => none

/-- **How far a line is indented**, and the line without its indentation.  A line that a backslash
joins to the next one keeps the place where its own text would begin. -/
def indentation? : Nat → Nat → List Char → Option (Nat × List Char)
  | column, kept, ' ' :: cs => indentation? (column + 1) kept cs
  | column, kept, '\t' :: cs => indentation? ((column / 8 + 1) * 8) kept cs
  | _, kept, '\x0c' :: cs => indentation? 0 kept cs
  | column, kept, '\\' :: '\n' :: c :: cs =>
    indentation? column (if kept == 0 then column else kept) (c :: cs)
  | _, _, '\\' :: _ => none
  | column, kept, cs => some (if kept == 0 then column else kept, cs)

def afterComment (cs : List Char) : List Char := cs.dropWhile (· != '\n')

/-! ## Marks -/

def tripleMarks : List String := ["...", "**=", "//=", "<<=", ">>="]

def doubleMarks : List String :=
  ["**", "//", "<<", ">>", "==", "!=", "<=", ">=", "<>", "->", ":=", "+=", "-=", "*=", "/=", "%=",
    "@=", "&=", "|=", "^="]

def singleMarks : List Char := "+-*/%@&|^~<>=()[]\x7b\x7d,:;.".toList

def mark? (cs : List Char) : Option String :=
  let triple := String.ofList (cs.take 3)
  let double := String.ofList (cs.take 2)
  if tripleMarks.contains triple then some triple
  else if doubleMarks.contains double then some double
  else match cs with
    | c :: _ => if singleMarks.contains c then some (String.ofList [c]) else none
    | [] => none

def depthLimit : Nat := 200

/-- **How many brackets are open after a mark**; none when there are too many, or too few to close. -/
def depthAfter (depth : Nat) (mark : String) : Option Nat :=
  if ["(", "[", "\x7b"].contains mark then if depth < depthLimit then some (depth + 1) else none
  else if [")", "]", "\x7d"].contains mark then if depth == 0 then none else some (depth - 1)
  else some depth

/-! ## The cut -/

/-- The first piece of a text that begins with neither blank nor comment, and what follows it. -/
def first? (cs : List Char) : Option (Token × List Char) :=
  match Quotation.opening? cs with
  | some (style, quote, rest) => (Quotation.first? style quote rest).map fun p => (.quotation p.1, p.2)
  | none =>
    if Numeral.startsHere cs then (Numeral.first? cs).map fun p => (.number p.1, p.2)
    else if cs.head?.any Identifier.isWordChar then
      let word := cs.takeWhile Identifier.isWordChar
      if Identifier.isIdentifier word then
        some (.word (String.ofList word), cs.dropWhile Identifier.isWordChar)
      else none
    else (mark? cs).map fun s => (.mark s, cs.drop s.length)

/-- **The pieces of a text**, after those already found, which are held in reverse.  The first argument
bounds the steps, the second counts open brackets, and the truth value says that a line begins. -/
def pieces : Nat → Nat → Bool → List Token → List Char → List Token
  | 0, _, _, done, _ => (.bad :: done).reverse
  | n + 1, depth, true, done, cs =>
    match indentation? 0 0 cs with
    | none => (.bad :: done).reverse
    | some (_, '#' :: cs) => pieces n depth true done ((afterComment cs).drop 1)
    | some (_, '\n' :: cs) => pieces n depth true done cs
    | some (column, cs) =>
      if depth == 0 && column > 0 then (.indent :: done).reverse else pieces n depth false done cs
  | _ + 1, _, false, done, [] => done.reverse
  | n + 1, depth, false, done, c :: cs =>
    if c == ' ' || c == '\t' || c == '\x0c' then pieces n depth false done cs
    else if c == '#' then pieces n depth false done (afterComment cs)
    else if c == '\n' then
      pieces n depth true (if depth == 0 then .newline :: done else done) cs
    else if c == '\\' then
      match joined? cs with
      | some cs => pieces n depth false done cs
      | none => (.bad :: done).reverse
    else match first? (c :: cs) with
      | none => (.bad :: done).reverse
      | some (.mark s, rest) =>
        match depthAfter depth s with
        | some depth => pieces n depth false (.mark s :: done) rest
        | none => (.bad :: done).reverse
      | some (t, rest) => pieces n depth false (t :: done) rest

/-- **The pieces of a text.** -/
def scan (cs : List Char) : List Token :=
  let cs := unifyLines [] cs
  if cs.contains '\x00' then [.bad] else pieces (2 * cs.length + 2) 0 true [] cs

end Token

end ModelExport
