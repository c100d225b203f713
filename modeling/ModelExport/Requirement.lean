import ModelExport.Refusal
import ModelExport.Value.Sequence

/-!
# Requirement — what a value must be for a conversion to exist

A requirement compares an actual value with a supported one under a named relation.  The relations
are stated through what they exclude, so a pair that cannot be ordered excludes nothing: a NaN is
greater than, and less than, every number.
-/

namespace ModelExport

/-- **Do two values stand in a named relation?**  Nothing for a name that is no relation. -/
def relates (relation a b : Value) : Except Slip (Option Bool) :=
  match relation with
  | .str "equal" => .ok (some (a.same b))
  | .str "greater_than" => do .ok (some (!(← a.le b)))
  | .str "greater_equal" => do .ok (some (!(← a.lt b)))
  | .str "less_equal" => do .ok (some (!(← a.gt b)))
  | .str "less_than" => do .ok (some (!(← a.ge b)))
  | _ => .ok none

def holds (relation a b : Value) : Except Fault Bool := do
  .ok ((← (relates relation a b).mapError .slip) == some true)

/-- **An attribute must stand in a relation to a supported value.** -/
def requireAttr (actual target name relation : Value) : Except Fault Unit := do
  unless ← holds relation actual target do
    .error (.refusal (.unsupportedAttr name relation target actual))

/-- **Two members of an attribute must stand in a relation.** -/
def requireDims (attr dims name relation : Value) : Except Fault Unit := do
  let i ← (dims.nth 0).mapError .slip
  let a ← (attr.get i).mapError .slip
  let j ← (dims.nth 1).mapError .slip
  let b ← (attr.get j).mapError .slip
  unless ← holds relation a b do
    .error (.refusal (.unsupportedDims name relation i j a b))

end ModelExport
