import ModelExport.Node
import ModelExport.Program

/-!
# Interface — feed and fetch operations

The interface of a program is written into its global block: a feed operation for each input at the
front, the last input first, and a fetch operation for each output at the end.  `ProgramEdit.rebuild`
drops what was there before and writes a new interface.
-/

namespace ModelExport

/-- **Changes to a program**: what was changed before a fault stays changed. -/
abbrev ProgramEdit := EStateM Fault Program

def Operation.isInterface (op : Operation) : Bool := Node.isInterface op.type

/-- The variable that stands for all inputs, or for all outputs. -/
def holderVar (name : String) : Variable := { name, persistable := true }

def feedOp (holder : String) (i : Nat) (name : String) : Operation :=
  { type := "feed", inputs := [("X", [holder])], outputs := [("Out", [name])],
    attrs := [("col", .int i)] }

def fetchOp (holder : String) (i : Nat) (name : String) : Operation :=
  { type := "fetch", inputs := [("X", [name])], outputs := [("Out", [holder])],
    attrs := [("col", .int i)] }

namespace ProgramEdit

def modifyGlobal (f : Block → Block) : ProgramEdit Unit :=
  modify fun p => { p with global := f p.global }

/-- Puts feed operations in front, from the `i`-th on; each name must be a variable. -/
def prependFrom (holder : String) : Nat → List String → ProgramEdit Unit
  | _, [] => return
  | i, name :: rest => do
    if ((← get).global.var? name).isNone then throw (.refusal (.feedMissing i name))
    modifyGlobal fun b => { b with ops := feedOp holder i name :: b.ops }
    prependFrom holder (i + 1) rest

/-- **Puts feed operations in front.**  Without names nothing is changed. -/
def prependFeeds (names : List String) (holder : String := "feed") : ProgramEdit Unit := do
  if names.isEmpty then return
  modifyGlobal fun b => b.declare (holderVar holder)
  prependFrom holder 0 names

/-- **Puts fetch operations at the end.** -/
def appendFetches (names : List String) (holder : String := "fetch") : ProgramEdit Unit :=
  modifyGlobal fun b =>
    let b := b.declare (holderVar holder)
    { b with ops := b.ops ++ names.mapIdx fun i name => fetchOp holder i name }

def interfacePositions : Nat → List Operation → List Nat
  | _, [] => []
  | i, op :: rest =>
    if op.isInterface then i :: interfacePositions (i + 1) rest else interfacePositions (i + 1) rest

def removeOps : List Nat → ProgramEdit Unit
  | [] => return
  | i :: rest => do
    modifyGlobal fun b => { b with ops := b.ops.eraseIdx i }
    removeOps rest

/-- Drops the interface: positions are noted first, and removed from the last one on, so that those
that are left stay where they were noted. -/
def dropInterface : ProgramEdit Unit := do
  removeOps (interfacePositions 0 (← get).global.ops).reverse

/-- **Writes a new interface in place of the old one.** -/
def rebuild (feeds fetches : List String) : ProgramEdit Unit := do
  dropInterface
  prependFeeds feeds
  appendFetches fetches

/-- Writes a new interface in place of the old one, after a step in between. -/
def rebuildAfter (between : ProgramEdit Unit) (feeds fetches : List String) : ProgramEdit Unit := do
  dropInterface
  between
  prependFeeds feeds
  appendFetches fetches

def run (e : ProgramEdit Unit) (p : Program) : Except Fault Program :=
  match EStateM.run e p with
  | .ok _ p => .ok p
  | .error f _ => .error f

end ProgramEdit

end ModelExport
