import Std.Time.Format
import ModelExport.Catalogue
import ModelExport.CommandLine.Run

/-!
# Main — the command

No host is linked into the command, so it can say how it is used and which version it is, and reports
that it has nothing to load models with.
-/

namespace ModelExport.CommandLine

def timeStamp : IO String := do
  let now ← Std.Time.PlainDateTime.now
  return now.format "uuuu-MM-dd HH:mm:ss"

def exitCode : Fault → UInt32
  | .halt code => UInt32.ofNat (code % 256).toNat
  | _ => 1

def faultText : Fault → Option String
  | .halt _ => none
  | f => some (f.label ++ ": " ++ f.message?.getD "")

/-- **Runs a command** and prints what it says. -/
def runCommand (words : List String) : IO UInt32 := do
  let session : Session := { registry := Registry.standard }
  let outcome := session.command none words
  IO.print (Notice.renderAll (← timeStamp) outcome.notices)
  match outcome.result with
  | .ok _ => return 0
  | .error f =>
    match faultText f with
    | some text => IO.eprintln text
    | none => pure ()
    return exitCode f

end ModelExport.CommandLine

def main (words : List String) : IO UInt32 := ModelExport.CommandLine.runCommand words
