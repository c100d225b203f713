import ModelExport.Interface

/-!
# Shelf — programs side by side

A host holds many programs at once, and operations that are asked for go into the one whose guard was
opened last.  Closing a guard brings back the program that was written before, also after a fault.
-/

namespace ModelExport

/-- **Programs side by side.** -/
structure Shelf where
  programs : List Program
  /-- The place of the program whose guard was opened last. -/
  guarded : Nat

/-- **Changes to a shelf**: what was changed before a fault stays changed. -/
abbrev ShelfEdit := EStateM Fault Shelf

namespace ShelfEdit

def program (place : Nat) : ShelfEdit Program := do
  match (← get).programs[place]? with
  | some p => return p
  | none => throw (.slip .outOfRange)

def replace (place : Nat) (p : Program) : ShelfEdit Unit :=
  modify fun s => { s with programs := s.programs.set place p }

/-- Puts a copy of a program at the end, and gives back its place. -/
def clone (place : Nat) : ShelfEdit Nat := do
  let p ← program place
  modifyGet fun s => (s.programs.length, { s with programs := s.programs ++ [p] })

def edit (place : Nat) (e : ProgramEdit α) : ShelfEdit α := do
  match EStateM.run e (← program place) with
  | .ok a p => replace place p; return a
  | .error f p => replace place p; throw f

def write (e : ProgramEdit α) : ShelfEdit α := do edit (← get).guarded e

/-- Opens the guard of a program, or brings back the one that was open before. -/
def guardWith (place : Nat) : ShelfEdit Unit := modify fun s => { s with guarded := place }

/-- **A computation under the guard of a program**, which is closed at its end and after a fault. -/
def guarding (place : Nat) (x : ShelfEdit α) : ShelfEdit α := do
  let before := (← get).guarded
  guardWith place
  let a ← tryCatch x fun f => do guardWith before; throw f
  guardWith before
  return a

end ShelfEdit

end ModelExport
