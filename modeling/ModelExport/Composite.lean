import ModelExport.Interface
import ModelExport.Registry
import ModelExport.SourceGraph

/-!
# Composite — expanding an operator into operators

A composite operator is expanded in a program of its own: a variable for each of its inputs, the
fragment that it stands for with its names in a fresh scope, and an interface from the one to the
other.  In the graph of that program the results take the names of the operator's outputs
(`renameResult`).
-/

namespace ModelExport

/-- The scope of the `k`-th expansion of a type. -/
def scopeName (type : String) (k : Nat) : String := type ++ toString k ++ "_"

def Emit.freshScope (type : String) : Emit String :=
  modifyGet fun d =>
    let k := (Assoc.get? d.expansions type).getD 0
    (scopeName type k, { d with expansions := Assoc.insert d.expansions type (k + 1) })

namespace Fragment

/-- A name with the scope in place of each mark. -/
def qualify (scope name : String) : String :=
  .ofList (name.toList.flatMap fun c => if c = '%' then scope.toList else [c])

def qualifySlots (scope : String) (slots : Slots) : Slots :=
  slots.map fun s => (s.1, s.2.map (qualify scope))

def inScope (f : Fragment) (scope : String) : Fragment :=
  { vars := f.vars.map fun v => { v with name := qualify scope v.name }
    ops := f.ops.map fun op =>
      { op with inputs := qualifySlots scope op.inputs, outputs := qualifySlots scope op.outputs }
    results := qualifySlots scope f.results }

def addTo (f : Fragment) (b : Block) : Block :=
  let b := f.vars.foldl Block.declare b
  { b with ops := b.ops ++ f.ops }

def resultVars (f : Fragment) (b : Block) : Except Slip (List (String × List Variable)) :=
  f.results.mapM fun r => do .ok (r.1, ← r.2.mapM fun n => b.var (.str n))

end Fragment

/-! ## Stand-ins for the inputs -/

/-- Variables for the inputs of a slot, from position `i` on. -/
def slotStandIns (op : OpNode) (slot : String) : Nat → Nat → Except Slip (List Variable)
  | _, 0 => .ok []
  | i, n + 1 => do
    let v ← op.inputVar slot i
    .ok ({ name := v.name, shape := v.shape, dtype := v.dtype } ::
      (← slotStandIns op slot (i + 1) n))

/-- **Variables that stand for the inputs of an operator**, slot by slot. -/
def standIns (op : OpNode) : Except Slip (List Variable) := do
  let slots ← op.inputs.mapM fun s => do slotStandIns op s.1 0 (← s.2.length)
  .ok slots.flatten

/-! ## Names of the results -/

def replaceName (old new : Value) (names : Value) : Value :=
  match names with
  | .list xs => .list (xs.map fun x => if x.same old then new else x)
  | v => v

/-- An operator that writes `new` where it wrote `old`. -/
def OpNode.renameOutput (old new : Value) (op : OpNode) : OpNode :=
  { op with outputs := op.outputs.map fun s => (s.1, replaceName old new s.2) }

/-- The first output of a name under another one; nothing when there is none. -/
def renameTerminal (old new : String) : List Terminal → Option (List Terminal)
  | [] => none
  | t :: rest =>
    if t.name == old then some ({ t with name := new } :: rest)
    else (renameTerminal old new rest).map (t :: ·)

/-- **Gives a result another name**: the output itself, and the operators that write it. -/
def renameResult (g : SourceGraph) (old : String) (new : Value) : Except Slip SourceGraph :=
  match new, renameTerminal old new.plain g.outputs with
  | _, none => .error .wrongKind
  | new, some outputs =>
    .ok { g with outputs, nodes := g.nodes.map fun e => (e.1, e.2.renameOutput (.str old) new) }

/-- Names the results of a slot after the operator's outputs, from position `i` on. -/
def nameSlot (op : OpNode) (slot : String) : Nat → List Variable → SourceGraph →
    Except Slip SourceGraph
  | _, [], g => .ok g
  | i, v :: rest, g => do
    let g ← renameResult g v.name (← op.outputAt slot i)
    nameSlot op slot (i + 1) rest g

def nameResults (op : OpNode) : List (String × List Variable) → SourceGraph →
    Except Slip SourceGraph
  | [], g => .ok g
  | (slot, vars) :: rest, g => do nameResults op rest (← nameSlot op slot 0 vars g)

/-! ## Expansion -/

/-- The graph of a fragment in a scope, between stand-ins and results. -/
def Fragment.graph (f : Fragment) (op : OpNode) (stand : List Variable) (scope : String) :
    Except Fault SourceGraph := do
  let f := f.inScope scope
  let start : Block := { vars := [], ops := [] }
  let block := f.addTo (stand.foldl Block.declare start)
  let results ← liftSlip (f.resultVars block)
  let feeds := stand.map Variable.name
  let outputs := (results.map Prod.snd).flatten
  let p ← (ProgramEdit.rebuild feeds (outputs.map Variable.name)).run { global := block }
  let g ← liftSlip (SourceGraph.ofProgram p (.strs feeds) (.ok outputs))
  liftSlip (nameResults op results g)
where
  liftSlip {α : Type} (x : Except Slip α) : Except Fault α :=
    match x with
    | .ok a => .ok a
    | .error s => .error (.slip s)

/-- **Expands a composite operator** in a fresh scope. -/
def Emit.expand (c : Composite) (op : OpNode) : Emit SourceGraph := do
  let stand ← standIns op
  let scope ← freshScope op.type
  match c with
  | .fragment f => f.graph op stand scope
  | .recipe => slip .missingMember

end ModelExport
