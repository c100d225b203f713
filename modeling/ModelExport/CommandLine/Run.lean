import ModelExport.CommandLine.Options
import ModelExport.Conversion
import ModelExport.Reporting

/-!
# CommandLine/Run — carrying out a command

A command is planned first (`Emit.plan`): its options, what has to be loaded, and the host that loads
it.  `Emit.perform` loads the model and converts it.
-/

namespace ModelExport.CommandLine

structure LoadedModel where
  program : Program
  feeds : Value
  fetches : Value

/-- **A host** that loads models: its version, and the model it has. -/
structure Host where
  version : String := "2.1.0"
  model : Except Fault LoadedModel

/-- What the host is asked to load; the files are named when either of them is. -/
structure LoadRequest where
  directory : String
  files : Option (Option String × Option String)

/-- **What a command comes to.** -/
structure Job where
  host : Host
  request : LoadRequest
  /-- Other shapes for inputs, as the options give them. -/
  shapes : Value
  opset : Int
  checker : Value
  exportType : ExportType
  saveFile : String

def Options.files (o : Options) : Option (Option String × Option String) :=
  if o.modelFile.isNone && o.paramsFile.isNone then none else some (o.modelFile, o.paramsFile)

/-- What is said when a command has no words. -/
def greeting : List String :=
  ["Use \"paddle2onnx -h\" to print the help information",
    "For more information, please follow our github repo below:",
    "Github: https://github.com/PaddlePaddle/paddle2onnx.git"]

def versionText : String := "paddle2onnx-0.8.1 with python>=2.7, paddlepaddle>=1.8.0"

def versionPart (s : String) : Except Slip Int :=
  match Reader.int? s with
  | some i => .ok i
  | none => .error .badValue

def tooOld (major minor : String) : Except Slip Bool := do
  if (← versionPart major) ≤ 1 then .ok ((← versionPart minor) < 8) else .ok false

end CommandLine

namespace Emit

open CommandLine

def tell (text : String) : Emit Unit := notify (.info text)

def tellAll : List String → Emit Unit
  | [] => return
  | s :: rest => do
    tell s
    tellAll rest

def checkVersion (version : String) : Emit Unit := do
  match version.splitOn "." with
  | [major, minor, patch] =>
    if major == "0" && minor == "0" && patch == "0" then
      notify (.warning "You are use develop version of paddlepaddle")
    else if ← tooOld major minor then refuse .hostVersion
  | _ => slip .badValue

def requireHost : Option Host → Emit Host
  | some h => return h
  | none => do
    reportError Level.info.rank (.str "paddlepaddle not installed, use \"pip install paddlepaddle\"")
      true true
    throw (.halt (-1))

/-- What options that are not about the command itself come to. -/
def planConversion (host : Option Host) (o : Options) : Emit Job := do
  match o.modelDir, o.saveFile with
  | none, _ => refuse .modelDirMissing
  | _, none => refuse .saveFileMissing
  | some directory, some saveFile =>
    let shapes ← (← Expression.read o.inputShapes).evaluate
    let host ← requireHost host
    checkVersion host.version
    return {
      host, request := { directory, files := o.files }, shapes, opset := o.opset
      checker := o.checker, saveFile
      exportType := .str (if o.fallback.truthy then "PaddleFallback" else "ONNX") }

/-- **Plans a command**; without words, or when asked for the version, it only says something. -/
def plan (host : Option Host) (words : List String) : Emit (Option Job) := do
  if words.isEmpty then
    tellAll greeting
    return none
  else
    let o ← readOptions words
    if o.version then
      tell versionText
      return none
    else return some (← planConversion host o)

/-- The program with other shapes for inputs: nothing, or a table of them. -/
def reshaped (p : Program) : Value → Except Slip Program
  | .none => .ok p
  | .dict fields => p.reshapeAll fields
  | _ => .error .missingMember

/-- **Performs a job.** -/
def perform (r : Registry) (j : Job) : Emit Product := do
  let m ← j.host.model
  let p ← reshaped m.program j.shapes
  modify fun d => { d with opset := j.opset }
  convert r {
    program := .program p, feeds := m.feeds, fetches := m.fetches, saveFile := some j.saveFile
    options := { opset := j.opset, checker := j.checker, exportType := j.exportType } }

end Emit

structure CommandOutcome where
  result : Except Fault (Option Product)
  loads : List CommandLine.LoadRequest
  notices : List Notice

namespace Session

/-- **Runs a command.** -/
def command (s : Session) (host : Option CommandLine.Host) (words : List String) : CommandOutcome :=
  let planned := run (Emit.plan host words) (s.draft 9)
  match planned.result with
  | .error f => { result := .error f, loads := [], notices := planned.draft.notices }
  | .ok none => { result := .ok none, loads := [], notices := planned.draft.notices }
  | .ok (some job) =>
    let done := run (Emit.perform s.registry job) planned.draft
    { result := done.result.map some, loads := [job.request], notices := done.draft.notices }

end Session

end ModelExport
