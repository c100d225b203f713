import ModelExport.Text.Quoted

/-!
# Notice — what a conversion reports while it runs

A notice is a report at a level, or a bare line.  A report is printed with a time stamp, its level and
its text, and may be set in colour; its characters are those of its bytes.
-/

namespace ModelExport

inductive Level where
  | error
  | warning
  | info
  | debug
  deriving DecidableEq, Repr

namespace Level

/-- The place of a level: reports up to the chosen one are shown. -/
def rank : Level → Int
  | error => 0
  | warning => 1
  | info => 2
  | debug => 3

def name : Level → String
  | error => "ERROR"
  | warning => "WARNING"
  | info => "INFO"
  | debug => "DEBUG"

def all : List Level := [error, warning, info, debug]

end Level

/-- **A notice.** -/
inductive Notice where
  | report (level : Level) (text : String) (colored : Bool)
  | line (text : String)

namespace Notice

def warning (text : String) : Notice := .report .warning text true

def info (text : String) : Notice := .report .info text false

def render (stamp : String) : Notice → String
  | report level text colored =>
    let body := stamp ++ " [" ++ level.name ++ "]\t" ++ text
    Quoted.bytesAsCharacters (if colored then "\x1b[1;31;40m" ++ body ++ "\x1b[0m" else body) ++ "\n"
  | line text => text ++ "\n"

def renderAll (stamp : String) (ns : List Notice) : String := String.join (ns.map (render stamp))

end Notice

end ModelExport
