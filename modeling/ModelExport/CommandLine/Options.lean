import ModelExport.CommandLine.Help
import ModelExport.Draft
import ModelExport.Expression.Grammar

/-!
# CommandLine/Options — what the words of a command ask for

Words are sorted first (`Word.sort`): an option, spelled out or shortened so far as it stays the only
one, perhaps with its value in the same word; a plain word; or a word that looks like an option and is
none.  `Emit.readOptions` then carries the options out from left to right, so the last one counts.
-/

namespace ModelExport.CommandLine

/-- What an option is about. -/
inductive Setting where
  | help
  | modelDir
  | modelFile
  | paramsFile
  | saveFile
  | opset
  | inputShapes
  | checker
  | fallback
  | version
  deriving DecidableEq, Repr

def spellings : List (String × Setting) :=
  [("-h", .help), ("--help", .help), ("--model_dir", .modelDir), ("-m", .modelDir),
    ("--model_filename", .modelFile), ("-mf", .modelFile), ("--params_filename", .paramsFile),
    ("-pf", .paramsFile), ("--save_file", .saveFile), ("-s", .saveFile), ("--opset_version", .opset),
    ("-ov", .opset), ("--input_shape_dict", .inputShapes), ("-isd", .inputShapes),
    ("--enable_onnx_checker", .checker), ("--enable_paddle_fallback", .fallback),
    ("--version", .version), ("-v", .version)]

namespace Setting

def ofSpelling? (s : String) : Option Setting := Assoc.get? spellings s

def takesValue : Setting → Bool
  | help | version => false
  | _ => true

end Setting

/-- **The options of a command.** -/
structure Options where
  modelDir : Option String := none
  modelFile : Option String := none
  paramsFile : Option String := none
  saveFile : Option String := none
  opset : Int := 9
  /-- The shapes of inputs, as an expression. -/
  inputShapes : String := "None"
  checker : Value := .bool true
  fallback : Value := .bool false
  version : Bool := false

/-- The fault of a command that cannot be understood. -/
def misuse : Fault := .halt 2

/-! ## Sorting words -/

/-- What stands in a word behind the spelling of an option. -/
inductive Given where
  | nothing
  /-- A text right behind a spelling of one letter. -/
  | attached (s : String)
  /-- A text behind an equals sign. -/
  | assigned (s : String)
  deriving DecidableEq, Repr

/-- **A word of a command.** -/
inductive Word where
  /-- An option; `long` when it is spelled with two dashes, with what is given in the word. -/
  | option (setting : Setting) (long : Bool) (given : Given)
  | plain (s : String)
  | unknown
  deriving DecidableEq, Repr

namespace Word

/-- A text before its first equals sign, and what is behind it. -/
def atEquals (s : String) : String × Given :=
  match s.toList.dropWhile (· != '=') with
  | [] => (s, .nothing)
  | _ :: value => (String.ofList (s.toList.takeWhile (· != '=')), .assigned (String.ofList value))

def isLong (s : String) : Bool := s.startsWith "--"

/-- **The options a shortened word may stand for.**  After two dashes it is the beginning of a
spelling; after one it may also be a short spelling with its value right behind it. -/
def shortened (s : String) : List Word :=
  if isLong s then
    let (start, given) := atEquals s
    spellings.filterMap fun e => if e.1.startsWith start then some (.option e.2 true given) else none
  else
    let short := String.ofList (s.toList.take 2)
    spellings.filterMap fun e =>
      if e.1 == short then some (.option e.2 false (.attached (String.ofList (s.toList.drop 2))))
      else if e.1.startsWith s then some (.option e.2 false .nothing)
      else none

/-- Is a text a negative number?  One line end may follow it. -/
def isNegative (s : String) : Bool :=
  match s.toList with
  | '-' :: cs =>
    let cs := if cs.getLast? == some '\n' then cs.dropLast else cs
    let whole := cs.takeWhile Digit.isDigit
    match cs.dropWhile Digit.isDigit with
    | [] => !whole.isEmpty
    | '.' :: fraction => !fraction.isEmpty && fraction.all Digit.isDigit
    | _ => false
  | _ => false

/-- What a word that begins with a dash, and is no spelling, stands for. -/
def sortDashed (s : String) : Except Fault Word :=
  match shortened s with
  | [w] => .ok w
  | _ :: _ :: _ => .error misuse
  | [] =>
    if isNegative s || s.toList.contains ' ' then .ok (.plain s) else .ok .unknown

/-- **What a word stands for.** -/
def sort (s : String) : Except Fault Word :=
  if !s.startsWith "-" then .ok (.plain s)
  else match Setting.ofSpelling? s with
    | some setting => .ok (.option setting (isLong s) .nothing)
    | none =>
      let (start, given) := atEquals s
      if s == "-" then .ok (.plain s)
      else match Setting.ofSpelling? start with
        | some setting => .ok (.option setting (isLong s) given)
        | none => sortDashed s

/-- Sorts words; after a word of two dashes all are plain, and it belongs to no option. -/
def sortAll : List String → Except Fault (List Word)
  | [] => .ok []
  | s :: rest => do
    if s == "--" then .ok (.unknown :: rest.map .plain)
    else .ok ((← sort s) :: (← sortAll rest))

end Word

/-! ## Carrying options out -/

/-- **What one word asks for**: options without a value that come first, and the option that comes
last, with its value when the word holds it.  There is no last one when a letter is no option. -/
structure Request where
  before : List Setting := []
  last : Option (Setting × Option String) := none

/-- The options of letters that follow each other after one dash, behind an option and its text.  The
text of an option without a value is a letter and what is behind it, unless an equals sign stands
before it. -/
def unfoldLetters (setting : Setting) (assigned : Bool) (before : List Setting) :
    List Char → Except Fault Request
  | [] => if setting.takesValue then .ok ⟨before, some (setting, some "")⟩ else .error misuse
  | c :: cs =>
    if setting.takesValue then .ok ⟨before, some (setting, some (String.ofList (c :: cs)))⟩
    else if assigned || c == '-' then .error misuse
    else
      let before := before ++ [setting]
      match Setting.ofSpelling? (String.ofList ['-', c]), cs with
      | none, _ => .ok ⟨before, none⟩
      | some next, [] => .ok ⟨before, some (next, none)⟩
      | some next, '=' :: value => unfoldLetters next true before value
      | some next, cs => unfoldLetters next false before cs
termination_by cs => cs.length
decreasing_by all_goals grind

/-- What an option word asks for; after two dashes only an option with a value is given one. -/
def unfold (setting : Setting) (long : Bool) : Given → Except Fault Request
  | .nothing => .ok { last := some (setting, none) }
  | .attached s => unfoldLetters setting false [] s.toList
  | .assigned s =>
    if long && !setting.takesValue then .error misuse else unfoldLetters setting true [] s.toList

namespace Options

/-- A value that is written as a literal.  A well-formed text that is none, or holds a value of the
wrong kind, is misuse. -/
def literal (s : String) : Except Fault Value :=
  match (Expression.read s).bind Expression.literal with
  | .ok v => .ok v
  | .error .wrongKind => .error misuse
  | .error .badValue => .error misuse
  | .error e => .error (.slip e)

def give (o : Options) (setting : Setting) (s : String) : Except Fault Options :=
  match setting with
  | .modelDir => .ok { o with modelDir := some s }
  | .modelFile => .ok { o with modelFile := some s }
  | .paramsFile => .ok { o with paramsFile := some s }
  | .saveFile => .ok { o with saveFile := some s }
  | .opset => match Reader.int? s with
    | some i => .ok { o with opset := i }
    | none => .error misuse
  | .inputShapes => .ok { o with inputShapes := s }
  | .checker => do .ok { o with checker := ← literal s }
  | .fallback => do .ok { o with fallback := ← literal s }
  | .help | .version => .error misuse

end Options

end CommandLine

namespace Emit

open CommandLine

def turnOn (o : Options) : Setting → Emit Options
  | .help => do
    notify (.line help)
    throw (.halt 0)
  | .version => return { o with version := true }
  | _ => throw misuse

def turnOnAll (o : Options) : List Setting → Emit Options
  | [] => return o
  | s :: rest => do turnOnAll (← turnOn o s) rest

/-- Carries out the options of words; `clean` while every word belongs to an option. -/
def carryOut : List Word → Bool → Options → Emit Options
  | [], clean, o => if clean then return o else throw misuse
  | .plain _ :: rest, _, o => carryOut rest false o
  | .unknown :: rest, _, o => carryOut rest false o
  | .option setting long given :: rest, clean, o => do
    let r ← unfold setting long given
    match r.last, rest with
    | none, rest => do carryOut rest false (← turnOnAll o r.before)
    | some (last, some s), rest => do
      let o ← turnOnAll o r.before
      carryOut rest clean (← o.give last s)
    | some (last, none), rest =>
      if last.takesValue then
        match rest with
        | .plain s :: rest => do
          let o ← turnOnAll o r.before
          carryOut rest clean (← o.give last s)
        | _ => throw misuse
      else do carryOut rest clean (← turnOnAll o (r.before ++ [last]))

/-- **The options that the words of a command ask for.** -/
def readOptions (words : List String) : Emit Options := do
  carryOut (← Word.sortAll words) true {}

end Emit

end ModelExport
