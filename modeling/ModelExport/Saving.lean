import ModelExport.Draft

/-!
# Saving — where a model is written

A model is written to a path below the working directory, which is empty at first.  The directory of
the path is made when it is missing, and before it the directory it lies in.
-/

namespace ModelExport.Saving

/-- **A place in the file system**: steps up from the working directory, then names down from there. -/
structure Place where
  up : Nat := 0
  names : List String := []
  deriving DecidableEq

def Place.step (p : Place) (part : String) : Place :=
  if part == "." then p
  else if part == ".." then
    if p.names.isEmpty then { p with up := p.up + 1 } else { p with names := p.names.dropLast }
  else { p with names := p.names ++ [part] }

def partLimit : Nat := 255

def pathLimit : Nat := 4095

/-- **Making directories**: those made before a fault stay. -/
abbrev Making := EStateM Slip (List Place)

namespace Making

/-- Is there a directory at a place?  What is not below the working directory counts as there. -/
def isThere (p : Place) : Making Bool := do return p.names.isEmpty || (← get).contains p

/-- Where a path leads, if every directory on the way is there. -/
def locate (start : Place) : List String → Making (Option Place)
  | [] => return some start
  | part :: rest => do
    if ← isThere start then locate (start.step part) rest else return none

def refused? (parts : List String) : Option Slip :=
  if parts.any fun p => p.toList.contains '\x00' then some .badValue
  else if parts.any (·.utf8ByteSize > partLimit) then some .nameTooLong
  else if ("/".intercalate parts).utf8ByteSize > pathLimit then some .nameTooLong
  else none

def make (start : Place) (parts : List String) : Making Unit := do
  match refused? parts, ← locate start parts with
  | some e, _ => throw e
  | none, none => throw .notFound
  | none, some p => if ← isThere p then throw .alreadyThere else modify (· ++ [p])

def leadsToDirectory (start : Place) (parts : List String) : Making Bool := do
  match refused? parts, ← locate start parts with
  | none, some p => isThere p
  | _, _ => return false

/-- **Makes a directory and those it lies in**, given by its parts from the last to the first. -/
def makeAll (start : Place) : List String → Making Unit
  | [] => return
  | last :: before => do
    if !before.isEmpty && !(← leadsToDirectory start before.reverse) then
      try makeAll start before
      catch e => if e == .alreadyThere then pure () else throw e
      if last != "." then make start (last :: before).reverse
    else make start (last :: before).reverse

end Making

def startOf (path : String) : Place := if path.startsWith "/" then { up := 1 } else {}

/-- Writes a file, given by the parts of its directory and its name. -/
def write (start : Place) (directory : List String) (name : String) : Making Place := do
  unless directory.isEmpty || (← Making.leadsToDirectory start directory) do
    Making.makeAll start directory.reverse
  match Making.refused? (directory ++ [name]), ← Making.locate start (directory ++ [name]) with
  | some e, _ => throw e
  | none, none => throw .notFound
  | none, some p =>
    if name.isEmpty || (← Making.isThere p) then throw .isDirectory else return p

/-- **The place that is written for a path.** -/
def target (path : String) : Except Slip Place :=
  if path.isEmpty then .error .notFound
  else
    let parts := path.splitOn "/"
    let writing := write (startOf path) (parts.dropLast.filter (· != "")) (parts.getLast?.getD "")
    match EStateM.run writing [] with
    | .ok p _ => .ok p
    | .error e _ => .error e

/-- The file at a place, if it lies below the working directory. -/
def fileAt (p : Place) : Option String :=
  if p.up == 0 then some ("/".intercalate p.names) else none

end ModelExport.Saving

namespace ModelExport.Emit

/-- Saves a model: gives back the file that is written, and says so. -/
def save (path : String) : Emit (Option String) := do
  let place ← Saving.target path
  notify (.info ("ONNX model saved in " ++ path))
  return Saving.fileAt place

end ModelExport.Emit
