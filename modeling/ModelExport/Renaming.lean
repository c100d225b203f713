import ModelExport.Draft

/-!
# Renaming — a fresh name for a tensor that a node both reads and writes

Where a node writes a tensor that it also reads, the written one gets a new name, and the nodes after
it read the new name.  `Renamer.node` treats one node; `Emit.renameInPlace` goes through all nodes in
order.
-/

namespace ModelExport

/-- Repeated outputs: outputs that are also inputs, each with its last position. -/
def repeatedOutputs (inputs : Value → Except Slip Bool) :
    Nat → List Value → List (Value × Nat) → Except Slip (List (Value × Nat))
  | _, [], found => .ok found
  | i, o :: rest, found => do
    if ← inputs o then
      if !o.isKey then .error .wrongKind
      else if found.any fun e => e.1.same o then
        repeatedOutputs inputs (i + 1) rest
          (found.map fun e => if e.1.same o then (e.1, i) else e)
      else repeatedOutputs inputs (i + 1) rest (found ++ [(o, i)])
    else repeatedOutputs inputs (i + 1) rest found

/-- **What is known while nodes are renamed**: the new names so far, how often each name has been
renamed, and whether a node could not be treated. -/
structure Renamer where
  names : List (Value × String)
  counts : NameCounts
  said : List String := []
  failed : Bool := false

namespace Renamer

def successor (name : String) (k : Nat) : String := name ++ "." ++ toString k

def current (s : Renamer) (x : Value) : Value :=
  match s.names.find? fun e => e.1.same x with
  | some e => .str e.2
  | none => x

/-- Inputs under their current names, up to one that cannot be looked up; and are all of them done? -/
def inputs (s : Renamer) : List Value → List Value × Bool
  | [] => ([], true)
  | x :: xs =>
    if x.isKey then
      let (ys, done) := s.inputs xs
      (s.current x :: ys, done)
    else (x :: xs, false)

def rename (s : Renamer) (name : String) : String × Renamer :=
  let k := (Assoc.get? s.counts name).getD 0 + 1
  let new := successor name k
  let names := if s.names.any fun e => e.1.same (.str name) then
      s.names.map fun e => if e.1.same (.str name) then (e.1, new) else e
    else s.names ++ [(.str name, new)]
  (new, { s with names, counts := Assoc.insert s.counts name k, said := s.said ++ [new] })

/-- Outputs under new names, up to one that is not a name. -/
def outputs (s : Renamer) : List (Value × Nat) → List Value → List Value × Renamer
  | [], outs => (outs, s)
  | (.str name, i) :: rest, outs =>
    let (new, s) := s.rename name
    s.outputs rest (outs.set i (.str new))
  | _ :: _, outs => (outs, { s with failed := true })

/-- **A node under current names**, with new names for the tensors it reads and writes.  A node that
cannot be treated keeps what was changed before that showed. -/
def node (s : Renamer) (n : Node) : Node × Renamer :=
  let (ins, done) := s.inputs n.inputs
  let n := { n with inputs := ins }
  if !done then (n, { s with failed := true })
  else
    match repeatedOutputs (fun o => .ok (ins.any fun x => x.same o)) 0 n.outputs [] with
    | .error _ => (n, { s with failed := true })
    | .ok repeated =>
      let (outs, s) := s.outputs repeated n.outputs
      ({ n with outputs := outs }, s)

end Renamer

namespace Emit

def remade (n : Node) : Emit Node := do
  let record ← Node.recordOf n.type n.name n.inputs n.outputs n.attrs n.domain
  return { n with record := some record }

/-- Puts a changed node back: into the model with a new record; in a plain graph at the end, without
attributes. -/
def putBack (kind : GraphKind) (n : Node) : Emit Unit :=
  match kind with
  | .model => do
    let n ← remade n
    modify fun d => { d with nodes := NodeMap.keep d.nodes n }
  | .plain => modify fun d =>
    { d with nodes := Assoc.erase d.nodes n.name ++ [(n.name, { n with attrs := [] })] }

def renameNode (kind : GraphKind) (names : List (Value × String)) (n : Node) :
    Emit (List (Value × String)) := do
  let (n', s) := ({ names, counts := (← get).renames } : Renamer).node n
  modify fun d =>
    { d with renames := s.counts,
             notices := d.notices ++ s.said.map fun t => .line ("======== " ++ t),
             nodes := Assoc.insert d.nodes n'.name n' }
  if s.failed then slip .wrongKind
  putBack kind n'
  return s.names

/-- Treats nodes one after another, and gives back the names that tensors have at the end. -/
def renameNodes (kind : GraphKind) : List Node → List (Value × String) →
    Emit (List (Value × String))
  | [], names => return names
  | n :: rest, names => do renameNodes kind rest (← renameNode kind names n)

/-- **Gives tensors that are read and written by one node fresh names.** -/
def renameInPlace (kind : GraphKind) : Emit Unit := do
  let _ ← renameNodes kind ((← get).nodes.map Prod.snd) []
  return

def pass? (kind : GraphKind) : Value → Option (Emit Unit)
  | .str "inplace_node_pass" => some (renameInPlace kind)
  | _ => none

/-- Runs a pass; whatever goes wrong in it is reported as its failure. -/
def runPass (kind : GraphKind) (name : Value) : Emit Unit :=
  match pass? kind name with
  | some pass => tryCatch pass fun _ => refuse (.passFailed name)
  | none => refuse (.passFailed name)

def runPasses (kind : GraphKind) : List Value → Emit Unit
  | [] => return
  | name :: rest => do
    runPass kind name
    runPasses kind rest

end Emit

end ModelExport
