import ModelExport.Export
import ModelExport.Saving

/-!
# Conversion — from a program to a model

`Emit.convert` checks the names of the inputs and the variables to be read, and exports the graph of
the program.  `Emit.convertLoaded` takes both from the interface that is written into the program.
-/

namespace ModelExport

/-- What is offered as a program. -/
inductive ProgramOffer where
  | program (p : Program)
  | other (v : Value)

/-- What an export gives back: the model, or the file it was saved to, where it lies below the working
directory. -/
inductive Product where
  | model (m : Model)
  | saved (file : Option String) (m : Model)

def Product.theModel : Product → Model
  | model m => m
  | saved _ m => m

/-- **A request to convert a program.** -/
structure Conversion where
  program : ProgramOffer
  feeds : Value := .none
  /-- Variables to be read: handles of variables of the global block. -/
  fetches : Value := .none
  options : ExportOptions := {}
  saveFile : Option String := none

namespace Conversion

def isVariable : Value → Bool
  | .object .variable _ => true
  | .object .tensor _ => true
  | _ => false

/-- Is a value a sequence, not empty, of members of a kind? -/
def allOf (kind : Value → Bool) (v : Value) : Except Slip Bool := do
  if v.truthy then .ok ((← v.members).all kind) else .ok false

/-- The names of inputs: none, one, or a sequence of them. -/
def feedNames (v : Value) : Except Fault Value :=
  match v with
  | .none => .ok .none
  | .str s => .ok (.list [.str s])
  | v => match allOf Value.isStr v with
    | .error s => .error (.slip s)
    | .ok true => .ok v
    | .ok false => .error (.refusal .feedNames)

/-- The variables to be read: none, one, or a sequence of them. -/
def fetchVariables (v : Value) : Except Fault Value :=
  match v with
  | .none => .ok .none
  | .object .variable n => .ok (.list [.object .variable n])
  | v => match allOf isVariable v with
    | .error s => .error (.slip s)
    | .ok true => .ok v
    | .ok false => .error (.refusal .fetchVariables)

def variableOf (b : Block) : Value → Except Slip Variable
  | .object _ n => b.var (.str n)
  | _ => .error .missingMember

def handledVariables (b : Block) (v : Value) : Except Slip (List Variable) := do
  (← v.members).mapM (variableOf b)

/-- **The source graph of a request.** -/
def graph (c : Conversion) : Except Fault SourceGraph := do
  match c.program with
  | .other v => .error (.refusal (.programKind v))
  | .program p =>
    let feeds ← feedNames c.feeds
    let fetches ← fetchVariables c.fetches
    match SourceGraph.ofProgram p feeds (handledVariables p.global fetches) with
    | .ok g => .ok g
    | .error s => .error (.slip s)

end Conversion

namespace Emit

/-- Exports a graph, and saves the model when a file is named. -/
def exportTo (r : Registry) (o : ExportOptions) (saveFile : Option String) (g : SourceGraph) :
    Emit Product := do
  let m ← exportGraph r o g
  match saveFile with
  | none => return .model m
  | some path => return .saved (← save path) m

/-- **Converts a program.** -/
def convert (r : Registry) (c : Conversion) : Emit Product := do
  exportTo r c.options c.saveFile (← c.graph)

end Emit

/-! ## Programs that carry their interface -/

/-- The program with other shapes for some variables of its global block. -/
def Program.reshapeAll : List (Value × Value) → Program → Except Slip Program
  | [], p => .ok p
  | (name, shape) :: rest, p => do
    let v ← p.global.var name
    let dims ← (← shape.members).mapM Value.exact
    reshapeAll rest { p with global := p.global.declare { v with shape := dims } }

def firstOf (slots : Slots) (slot : String) : Except Slip String :=
  match Assoc.get? slots slot with
  | none => .error .outOfRange
  | some names => memberAt names 0

/-- Names of the inputs and variables of the outputs, as the operations of a block give them. -/
def interfaceOf (b : Block) : List Operation → Except Slip (List Value × List Value)
  | [] => .ok ([], [])
  | op :: rest => do
    if op.type == "feed" then
      let name ← firstOf op.outputs "Out"
      let (ins, outs) ← interfaceOf b rest
      .ok (.str name :: ins, outs)
    else if op.type == "fetch" then
      let v ← b.var (.str (← firstOf op.inputs "X"))
      let (ins, outs) ← interfaceOf b rest
      .ok (ins, .object .variable v.name :: outs)
    else interfaceOf b rest

namespace Emit

/-- **Converts a program by the interface that is written into it**, and checks the model. -/
def convertLoaded (r : Registry) (p : Program) (shapes : List (Value × Value)) (opset : Int)
    (checkerFails : Bool) : Emit Product := do
  let p ← p.reshapeAll shapes
  let (feeds, fetches) ← interfaceOf p.global p.global.ops
  convert r {
    program := .program p
    feeds := .list feeds
    fetches := .list fetches
    options := { opset, checker := .bool true, checkerFails } }

end Emit

end ModelExport
