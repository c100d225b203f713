import ModelExport.Draft

/-!
# Reporting — reports at a level

A report is shown when its level is not above the threshold.  An error also stops the program, unless
asked not to, whether it is shown or not.  `Emit.reportBy` takes a report by the name of its kind, with
arguments by place and by name.
-/

namespace ModelExport

/-- **Arguments under the names of parameters**: first those given by place, then those given by name.
There are none when an argument has no parameter, or a parameter two arguments. -/
def bindArguments (params : Attrs) (placed : List Value) (named : Attrs) : Option Attrs :=
  let byPlace := (Assoc.keys params).zip placed
  if placed.length > params.length then none
  else if named.any fun e => !Assoc.contains params e.1 || Assoc.contains byPlace e.1 then none
  else some (Assoc.insertAll (Assoc.insertAll params byPlace) named)

namespace Emit

/-- **Reports a message** at a level that counts up to the threshold. -/
def report (threshold : Int) (level message : Value) (colored : Bool) : Emit Unit := do
  if ← (Value.int threshold).ge level then
    match Level.all.find? fun l => level.same (.int l.rank) with
    | some l => notify (.report l message.plain colored)
    | none => slip .missingKey

def reportError (threshold : Int) (message : Value) (colored stop : Bool) : Emit Unit := do
  report threshold (.int Level.error.rank) message colored
  if stop then throw (.halt (-1))

/-- The parameters of a kind of report, with the values they have when no argument is given. -/
def reportParams : String → Option Attrs
  | "debug" | "info" => some [("message", .str ""), ("use_color", .bool false)]
  | "warning" => some [("message", .str ""), ("use_color", .bool true)]
  | "error" => some [("message", .str ""), ("use_color", .bool true), ("exit", .bool true)]
  | "log" => some [("level", .int 2), ("message", .str ""), ("use_color", .bool false)]
  | _ => none

/-- The level of a kind of report; one kind takes it from its arguments. -/
def reportLevel (kind : String) (args : Attrs) : Value :=
  match kind with
  | "debug" => .int Level.debug.rank
  | "info" => .int Level.info.rank
  | "warning" => .int Level.warning.rank
  | _ => (Assoc.get? args "level").getD .none

/-- **Makes a report of a named kind.** -/
def reportBy (threshold : Int) (kind : String) (placed : List Value) (named : Attrs) : Emit Unit := do
  match reportParams kind with
  | none => slip .missingMember
  | some params => match bindArguments params placed named with
    | none => slip .wrongKind
    | some args =>
      let arg (k : String) : Value := (Assoc.get? args k).getD .none
      if kind == "error" then
        reportError threshold (arg "message") (arg "use_color").truthy (arg "exit").truthy
      else
        report threshold (reportLevel kind args) (arg "message") (arg "use_color").truthy

end Emit

end ModelExport
