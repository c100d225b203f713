import ModelExport.Expression.Basic
import ModelExport.Expression.Token

/-!
# Expression/Grammar — reading an expression

`Expression.read` reads a whole text.  The grammar is read from left to right, looking at most two
pieces ahead, from the loosest level to the tightest: choices between two cases, truth, comparison,
arithmetic, signs, powers, and last an atom with what is asked of it.  Every reader takes a bound on
its steps, and `Expression.read` gives one that suffices for the text.
-/

namespace ModelExport

/-- A reader of pieces: what it has read and what follows, or nothing when the pieces do not fit. -/
abbrev Parse := StateT (List Token) Option

namespace Parse

def tryMark (s : String) : Parse Bool := do
  match ← get with
  | .mark m :: ts => if m == s then set ts; return true else return false
  | _ => return false

def tryWord (s : String) : Parse Bool := do
  match ← get with
  | .word w :: ts => if w == s then set ts; return true else return false
  | _ => return false

def mark (s : String) : Parse Unit := do unless ← tryMark s do failure

def word (s : String) : Parse Unit := do unless ← tryWord s do failure

def atMark (marks : List String) : Parse Bool := do
  match ← get with
  | .mark m :: _ => return marks.contains m
  | _ => return false

def atWord (words : List String) : Parse Bool := do
  match ← get with
  | .word w :: _ => return words.contains w
  | _ => return false

def oneOf (marks : List String) : Parse (Option String) := do
  match ← get with
  | .mark m :: ts => if marks.contains m then set ts; return some m else return none
  | _ => return none

/-- Have all pieces been read, but for the ends of lines? -/
def atEnd : Parse Bool := do
  match ← get with
  | [] => return true
  | .newline :: _ => return true
  | _ => return false

def reserved : List String :=
  ["False", "None", "True", "and", "as", "assert", "async", "await", "break", "class", "continue",
    "def", "del", "elif", "else", "except", "finally", "for", "from", "global", "if", "import", "in",
    "is", "lambda", "nonlocal", "not", "or", "pass", "raise", "return", "try", "while", "with",
    "yield"]

def name : Parse String := do
  match ← get with
  | .word w :: ts => if reserved.contains w then failure else set ts; return w
  | _ => failure

def tryNameBefore (s : String) : Parse Bool := do
  match ← get with
  | .word w :: .mark m :: ts =>
    if m == s && !reserved.contains w then set ts; return true else return false
  | _ => return false

end Parse

namespace Expression

/-! ## Pieces without parts -/

def ofWord (w : String) : Option Expression :=
  if w == "None" then some (.constant .none)
  else if w == "True" then some (.constant (.bool true))
  else if w == "False" then some (.constant (.bool false))
  else if Parse.reserved.contains w then none
  else some (.name w)

def ofNumeral : Numeral → Expression
  | .int n => .constant (.int n)
  | .float x => .constant (.float x)
  | .imaginary y => .imaginary y

/-- The quoted texts at the beginning, and what follows them. -/
def quotations : List Quotation → List Token → List Quotation × List Token
  | done, .quotation q :: ts => quotations (q :: done) ts
  | done, ts => (done.reverse, ts)

/-- The texts that quoted texts hold; nothing when one of them is a template. -/
def textsOf? (qs : List Quotation) : Option (List String) :=
  qs.mapM fun
    | Quotation.text s => some s
    | _ => none

/-- The bytes that quoted texts hold; nothing when one of them holds no bytes. -/
def bytesOf? (qs : List Quotation) : Option (List Char) :=
  (qs.mapM fun
    | Quotation.bytes cs => some cs
    | _ => none).map List.flatten

def isBytes : Quotation → Bool
  | .bytes _ => true
  | _ => false

/-- **Quoted texts that follow each other are one**; bytes join only with bytes. -/
def ofQuotations (qs : List Quotation) : Option Expression :=
  match bytesOf? qs, textsOf? qs with
  | some cs, _ => some (.constant (bytesOf cs))
  | none, some ss => some (.constant (.str (String.join ss)))
  | none, none => if qs.any isBytes then none else some .compound

mutual

def assignable : Expression → Bool
  | .name _ => true
  | .part => true
  | .spread e => assignable e
  | .list es => allAssignable es
  | .tuple es => allAssignable es
  | _ => false
termination_by structural e => e

def allAssignable : List Expression → Bool
  | [] => true
  | e :: es => assignable e && allAssignable es
termination_by structural es => es

end

def isSpread : Expression → Bool
  | .spread _ => true
  | _ => false

def operators : List String := ["+", "-", "*", "/", "//", "%", "@", "<<", ">>", "&", "^", "|"]

def comparisons : List String := ["==", "!=", "<", "<=", ">", ">="]

def operated (operator : String) (a b : Expression) : Expression :=
  if operator == "+" then .sum false a b
  else if operator == "-" then .sum true a b
  else .compound

/-- What a call without arguments gives: only the empty set has a value of its own. -/
def called : Expression → Expression
  | .name "set" => .constant emptySet
  | _ => .compound

end Expression

namespace Parse

open Expression (operators comparisons)

/-! ## The levels of the grammar -/

def tryComparison : Parse Bool := do
  if (← oneOf comparisons).isSome then return true
  else if ← tryWord "in" then return true
  else if ← tryWord "is" then
    let _ ← tryWord "not"
    return true
  else if ← tryWord "not" then
    word "in"
    return true
  else return false

mutual

/-- An expression: a function without a name, or a choice between two cases. -/
def expression : Nat → Parse Expression
  | 0 => failure
  | n + 1 => do
    if ← tryWord "lambda" then
      params n false false false
      let _ ← expression n
      return .compound
    else
      let e ← disjunction n
      if ← tryWord "if" then
        let _ ← disjunction n
        word "else"
        let _ ← expression n
        return .compound
      else return e

/-- Truth values joined by words. -/
def disjunction : Nat → Parse Expression
  | 0 => failure
  | n + 1 => do
    let e ← inversion n
    if ← atWord ["or", "and"] then
      modify (·.drop 1)
      let _ ← disjunction n
      return .compound
    else return e

/-- A truth value, perhaps turned into its opposite. -/
def inversion : Nat → Parse Expression
  | 0 => failure
  | n + 1 => do
    if ← tryWord "not" then
      let _ ← inversion n
      return .compound
    else comparison n

/-- Operands compared with each other. -/
def comparison : Nat → Parse Expression
  | 0 => failure
  | n + 1 => do
    let e ← arithmetic n
    if ← tryComparison then
      let _ ← comparison n
      return .compound
    else return e

/-- Operands with operators of arithmetic between them. -/
def arithmetic : Nat → Parse Expression
  | 0 => failure
  | n + 1 => do operands n (← factor n)

/-- The operators and operands after a first one. -/
def operands : Nat → Expression → Parse Expression
  | 0, _ => failure
  | n + 1, a => do
    match ← oneOf operators with
    | some operator => operands n (.operated operator a (← factor n))
    | none => return a

/-- A power with its signs. -/
def factor : Nat → Parse Expression
  | 0 => failure
  | n + 1 => do
    match ← oneOf ["+", "-", "~"] with
    | some "+" => return .signed false (← factor n)
    | some "-" => return .signed true (← factor n)
    | some _ =>
      let _ ← factor n
      return .compound
    | none => power n

/-- A power; the exponent has its own signs. -/
def power : Nat → Parse Expression
  | 0 => failure
  | n + 1 => do
    let waits ← tryWord "await"
    let e ← primary n
    if ← tryMark "**" then
      let _ ← factor n
      return .compound
    else return if waits then .compound else e

/-- An atom and what is asked of it. -/
def primary : Nat → Parse Expression
  | 0 => failure
  | n + 1 => do trailers n (← atom n)

/-- Members, arguments and places asked of an operand. -/
def trailers : Nat → Expression → Parse Expression
  | 0, _ => failure
  | n + 1, e => do
    match ← oneOf [".", "(", "["] with
    | some "." =>
      let _ ← name
      trailers n .part
    | some "(" =>
      if ← tryMark ")" then trailers n e.called
      else
        arguments n true 0
        trailers n .compound
    | some _ =>
      places n
      trailers n .part
    | none => return e

/-- A constant, a name, or what stands between brackets. -/
def atom : Nat → Parse Expression
  | 0 => failure
  | n + 1 => do
    match ← get with
    | .number v :: ts =>
      set ts
      return .ofNumeral v
    | .quotation q :: ts =>
      let (qs, ts) := Expression.quotations [q] ts
      set ts
      StateT.lift (Expression.ofQuotations qs)
    | .word w :: ts =>
      set ts
      StateT.lift (Expression.ofWord w)
    | .mark "..." :: ts =>
      set ts
      return .constant Expression.ellipsis
    | .mark "(" :: ts =>
      set ts
      if ← tryMark ")" then return .tuple []
      else if ← tryWord "yield" then
        yielded n
        mark ")"
        return .compound
      else parenthesized n
    | .mark "[" :: ts =>
      set ts
      if ← tryMark "]" then return .list [] else bracketed n
    | .mark "\x7b" :: ts =>
      set ts
      if ← tryMark "\x7d" then return .dict [] [] else braced n
    | _ => failure

/-- What stands between parentheses: one expression, a closed sequence or a generator. -/
def parenthesized : Nat → Parse Expression
  | 0 => failure
  | n + 1 => do
    let (e, _) ← member n
    if ← tryMark "," then return .tuple (← members n ")" [e])
    else if e.isSpread then failure
    else if ← tryMark ")" then return e
    else
      clauses n
      mark ")"
      return .compound

/-- What stands between brackets: an open sequence, or one that is described. -/
def bracketed : Nat → Parse Expression
  | 0 => failure
  | n + 1 => do
    let (e, _) ← member n
    if ← tryMark "," then return .list (← members n "]" [e])
    else if ← tryMark "]" then return .list [e]
    else if e.isSpread then failure
    else
      clauses n
      mark "]"
      return .compound

/-- What stands between braces: a table or a set, or one of them that is described. -/
def braced : Nat → Parse Expression
  | 0 => failure
  | n + 1 => do
    if ← atMark ["**"] then fields n [] []
    else
      let (e, plain) ← member n
      if ← tryMark "," then return .set (← members n "\x7d" [e])
      else if ← tryMark "\x7d" then return .set [e]
      else if e.isSpread then failure
      else if plain && (← tryMark ":") then
        let v ← expression n
        if ← tryMark "," then fields n [e] [v]
        else if ← tryMark "\x7d" then return .dict [e] [v]
        else
          clauses n
          mark "\x7d"
          return .compound
      else
        clauses n
        mark "\x7d"
        return .compound

/-- A member of a sequence, and whether it is a plain expression: it may also spread the members of
something, or give a value to a name. -/
def member : Nat → Parse (Expression × Bool)
  | 0 => failure
  | n + 1 => do
    if ← tryMark "*" then return (.spread (← arithmetic n), false)
    else if ← tryNameBefore ":=" then
      let _ ← expression n
      return (.compound, false)
    else return (← expression n, true)

/-- The members after a comma, up to a closing mark; those already read are held in reverse. -/
def members : Nat → String → List Expression → Parse (List Expression)
  | 0, _, _ => failure
  | n + 1, close, done => do
    if ← tryMark close then return done.reverse
    else
      let (e, _) ← member n
      if ← tryMark "," then members n close (e :: done)
      else
        mark close
        return (e :: done).reverse

/-- The fields of a table up to its end; keys and values already read are held in reverse. -/
def fields : Nat → List Expression → List Expression → Parse Expression
  | 0, _, _ => failure
  | n + 1, ks, vs => do
    if ← tryMark "\x7d" then return .dict ks.reverse vs.reverse
    else
      let (k, v) ← field n
      if ← tryMark "," then fields n (k :: ks) (v :: vs)
      else
        mark "\x7d"
        return .dict (k :: ks).reverse (v :: vs).reverse

/-- A field of a table; the fields of another table may be spread out in its place. -/
def field : Nat → Parse (Expression × Expression)
  | 0 => failure
  | n + 1 => do
    if ← tryMark "**" then
      let e ← arithmetic n
      return (.spread e, e)
    else
      let k ← expression n
      mark ":"
      return (k, ← expression n)

/-- What a generator is asked to give. -/
def yielded : Nat → Parse Unit
  | 0 => failure
  | n + 1 => do
    if ← tryWord "from" then
      let _ ← expression n
    else unless ← atMark [")"] do yieldedValues n

/-- Values with commas between them, before a closing parenthesis. -/
def yieldedValues : Nat → Parse Unit
  | 0 => failure
  | n + 1 => do
    if ← tryMark "*" then
      let _ ← arithmetic n
    else
      let _ ← expression n
    if ← tryMark "," then unless ← atMark [")"] do yieldedValues n

/-- The clauses that describe the members of a sequence; there is at least one. -/
def clauses : Nat → Parse Unit
  | 0 => failure
  | n + 1 => do
    let _ ← tryWord "async"
    word "for"
    targets n
    let _ ← disjunction n
    conditions n
    if ← atWord ["for", "async"] then clauses n

/-- What a clause assigns to, up to its word `in`. -/
def targets : Nat → Parse Unit
  | 0 => failure
  | n + 1 => do
    let _ ← tryMark "*"
    unless (← primary n).assignable do failure
    if ← tryWord "in" then return
    else
      mark ","
      unless ← tryWord "in" do targets n

/-- The conditions of a clause. -/
def conditions : Nat → Parse Unit
  | 0 => failure
  | n + 1 => do
    if ← tryWord "if" then
      let _ ← disjunction n
      conditions n

/-- **Arguments up to the closing parenthesis.**  Those by place come before those by name, and the
spread of a table closes what may follow: `stage` counts how far this has got.  A generator may stand
alone as the first. -/
def arguments : Nat → Bool → Nat → Parse Unit
  | 0, _, _ => failure
  | n + 1, first, stage => do
    if ← tryMark "**" then
      let _ ← expression n
      furtherArguments n 2
    else if ← tryMark "*" then
      let _ ← expression n
      if stage == 2 then failure else furtherArguments n stage
    else if ← tryNameBefore "=" then
      let _ ← expression n
      furtherArguments n (max stage 1)
    else if stage != 0 then failure
    else
      if ← tryNameBefore ":=" then
        let _ ← expression n
      else
        let _ ← expression n
      if first && (← atWord ["for", "async"]) then
        clauses n
        mark ")"
      else furtherArguments n 0

/-- The arguments after one of them. -/
def furtherArguments : Nat → Nat → Parse Unit
  | 0, _ => failure
  | n + 1, stage => do
    if ← tryMark ")" then return
    else
      mark ","
      unless ← tryMark ")" do arguments n false stage

/-- Places up to the closing bracket; there is at least one. -/
def places : Nat → Parse Unit
  | 0 => failure
  | n + 1 => do
    place n
    if ← tryMark "]" then return
    else
      mark ","
      unless ← tryMark "]" do places n

/-- A place: an expression, or a span with its ends and its step. -/
def place : Nat → Parse Unit
  | 0 => failure
  | n + 1 => do
    if ← tryMark "*" then
      let _ ← expression n
    else if ← tryNameBefore ":=" then
      let _ ← expression n
    else
      unless ← atMark [":"] do
        let _ ← expression n
      if ← tryMark ":" then
        unless ← atMark [":", ",", "]"] do
          let _ ← expression n
        if ← tryMark ":" then
          unless ← atMark [",", "]"] do
            let _ ← expression n

/-- **Parameters up to the colon.**  `before` says that there is one before, `closed` that a slash has
closed those by place, and `defaults` that one has a value of its own, as all after it must. -/
def params : Nat → Bool → Bool → Bool → Parse Unit
  | 0, _, _, _ => failure
  | n + 1, before, closed, defaults => do
    if ← tryMark ":" then return
    else if ← tryMark "**" then
      let _ ← name
      let _ ← tryMark ","
      mark ":"
    else if ← tryMark "*" then
      if ← tryMark "," then
        let _ ← name
        valued n
        furtherNamed n
      else
        let _ ← name
        furtherNamed n
    else if ← tryMark "/" then
      if closed || !before then failure else furtherParams n true true defaults
    else
      let _ ← name
      if ← tryMark "=" then
        let _ ← expression n
        furtherParams n true closed true
      else if defaults then failure
      else furtherParams n true closed false

/-- The parameters after one of them. -/
def furtherParams : Nat → Bool → Bool → Bool → Parse Unit
  | 0, _, _, _ => failure
  | n + 1, before, closed, defaults => do
    if ← tryMark ":" then return
    else
      mark ","
      params n before closed defaults

/-- The value of its own that a parameter may have. -/
def valued : Nat → Parse Unit
  | 0 => failure
  | n + 1 => do
    if ← tryMark "=" then
      let _ ← expression n

/-- The parameters that are given by name only, after one of them. -/
def furtherNamed : Nat → Parse Unit
  | 0 => failure
  | n + 1 => do
    if ← tryMark ":" then return
    else
      mark ","
      if ← tryMark ":" then return
      else if ← tryMark "**" then
        let _ ← name
        let _ ← tryMark ","
        mark ":"
      else
        let _ ← name
        valued n
        furtherNamed n

end

/-! ## Whole texts -/

/-- Expressions with commas between them, after those already read, which are held in reverse. -/
def series : Nat → List Expression → Parse Expression
  | 0, _ => failure
  | n + 1, done => do
    let e ← expression n
    if ← tryMark "," then
      if ← atEnd then return .tuple (e :: done).reverse else series n (e :: done)
    else if done.isEmpty then return e
    else return .tuple (e :: done).reverse

end Parse

namespace Expression

def misplaced : List Token → Slip
  | .newline :: ts => misplaced ts
  | .indent :: _ => .badIndent
  | _ => .badSyntax

def isSpent : List Token → Bool
  | [] => true
  | .newline :: ts => isSpent ts
  | _ => false

/-- **The expression a text spells**, without blanks before it; commas outside brackets make a closed
sequence. -/
def read (s : String) : Except Slip Expression :=
  let ts := Token.scan (s.toList.dropWhile fun c => c == ' ' || c == '\t')
  match (Parse.series (16 * (ts.length + 2)) []).run ts with
  | some (e, rest) => if isSpent rest then .ok e else .error (misplaced rest)
  | none => .error (misplaced ts)

end Expression

end ModelExport
