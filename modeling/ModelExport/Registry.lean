import ModelExport.Draft

/-!
# Registry — which rule maps which operator

A registry gives each operator type its rules by version, and lists composites: operators that are
expanded into a fragment of a program.  A rule of the latest version that is not newer than the
operator set is used (`latestUpTo`).
-/

namespace ModelExport

/-- **What a composite operator stands for.**  In every name the mark `%` stands for the scope of the
expansion. -/
structure Fragment where
  vars : List Variable
  ops : List Operation
  results : List (String × List String)

/-- A composite: a fragment, or a recipe that only the host can turn into operations. -/
inductive Composite where
  | fragment (f : Fragment)
  | recipe

/-- **Rules by operator type and version, and composites by operator type.** -/
structure Registry where
  rules : List (Value × List (Int × Rule))
  composites : List (Value × Composite)

/-- The latest version up to a bound; `-1` when there is none. -/
def latestUpTo (versions : List Int) (bound : Int) : Int :=
  (versions.mergeSort fun a b => a ≤ b).foldl (fun best v => if v ≤ bound then v else best) (-1)

def insertSorted (v : Value) : List Value → Except Slip (List Value)
  | [] => .ok [v]
  | w :: ws => do if ← v.lt w then .ok (v :: w :: ws) else .ok (w :: (← insertSorted v ws))

/-- **The latest of versions of any kind up to a bound**, as far as they can be put in order. -/
def latestAmong (versions bound : Value) : Except Slip Value := do
  let sorted ← (← versions.members).foldlM (fun ws v => insertSorted v ws) []
  sorted.foldlM (fun best v => do .ok (if ← v.le bound then v else best)) (.int (-1))

namespace Registry

def rulesOf (r : Registry) (type : Value) : Option (List (Int × Rule)) :=
  (r.rules.find? fun e => e.1.same type).map Prod.snd

def versions (r : Registry) (type : Value) : Option (List Int) :=
  (r.rulesOf type).map fun rs => rs.map Prod.fst

def composite? (r : Registry) (type : Value) : Option Composite :=
  (r.composites.find? fun e => e.1.same type).map Prod.snd

def isComposite (r : Registry) (type : String) : Bool := (r.composite? (.str type)).isSome

def ruleFor (r : Registry) (type : String) (opset : Int) : Except Slip Rule :=
  match r.rulesOf (.str type) with
  | none => .error .missingKey
  | some rules =>
    match rules.find? fun e => e.1 == latestUpTo (rules.map Prod.fst) opset with
    | some e => .ok e.2
    | none => .error .missingKey

def putVersion (rules : List (Int × Rule)) (version : Int) (rule : Rule) : List (Int × Rule) :=
  if rules.any fun e => e.1 == version then
    rules.map fun e => if e.1 == version then (version, rule) else e
  else rules ++ [(version, rule)]

def put (r : Registry) (type : Value) (version : Int) (rule : Rule) : Registry :=
  if r.rules.any fun e => e.1.same type then
    { r with rules := r.rules.map fun e =>
        if e.1.same type then (e.1, putVersion e.2 version rule) else e }
  else { r with rules := r.rules ++ [(type, [(version, rule)])] }

/-- The registry with a composite for one type; a known type keeps the one it has. -/
def putComposite (r : Registry) (type : Value) (c : Composite) : Registry :=
  if r.composites.any fun e => e.1.same type then r
  else { r with composites := r.composites ++ [(type, c)] }

end Registry

/-! ## Registration -/

/-- A named group of rules: methods with their rules, in the order of their names. -/
structure RuleGroup where
  methods : List (String × Rule)

inductive RuleOffer where
  | group (g : RuleGroup)
  | other (v : Value)

inductive CompositeOffer where
  | composite (c : Composite)
  | withoutForward
  | other (v : Value)

/-- **Changes to a registry**: what was registered before a fault stays registered. -/
abbrev Registration := EStateM Fault Registry

/-- Characters with every occurrence of `part` left out, from the left; so many of the first belong to
an occurrence that has been found. -/
def leaveOut (part : List Char) : Nat → List Char → List Char
  | _, [] => []
  | found + 1, _ :: cs => leaveOut part found cs
  | 0, c :: cs =>
    if part.isPrefixOf (c :: cs) then leaveOut part (part.length - 1) cs else c :: leaveOut part 0 cs

def without (text part : String) : String :=
  if part.isEmpty then text else String.ofList (leaveOut part.toList 0 text.toList)

/-- The mark that a method of a version has in front. -/
def versionMark : String := "opset_"

/-- The version a method is for; nothing when it is not for one. -/
def methodVersion (method : String) : Option (Except Slip Int) :=
  if method.startsWith versionMark then
    some (match Reader.int? (without method versionMark) with
      | some v => .ok v
      | none => .error .badValue)
  else none

/-- How many methods are for a version; a version out of range is refused. -/
def countVersions : List (String × Rule) → Except Fault Nat
  | [] => .ok 0
  | (method, _) :: rest =>
    match methodVersion method with
    | none => countVersions rest
    | some (.error s) => .error (.slip s)
    | some (.ok v) => do
      if v > 13 || v < 1 then .error (.refusal (.ruleVersion method))
      else .ok ((← countVersions rest) + 1)

namespace Registration

/-- Registers a rule for each type in turn; a value that cannot be a key stops it. -/
def putAll (version : Int) (rule : Rule) : List Value → Registration Unit
  | [] => return
  | type :: rest => do
    unless type.isKey do throw (.slip .wrongKind)
    modify fun r => r.put type version rule
    putAll version rule rest

def putMethods (types : List Value) : List (String × Rule) → Registration Unit
  | [] => return
  | (method, rule) :: rest => do
    match methodVersion method with
    | none => putMethods types rest
    | some (.error s) => throw (.slip s)
    | some (.ok v) =>
      putAll v rule types
      putMethods types rest

/-- Registers a group for a type or a list of types, without looking at the versions. -/
def decorate (types : Value) (offer : RuleOffer) : Registration Unit :=
  let types := match types with
    | .list xs => xs
    | v => [v]
  match offer with
  | .group g => putMethods types g.methods
  | .other _ => return

/-- **Registers a group for a type or a list of types**, after checking what is offered. -/
def register (types : Value) (offer : RuleOffer) : Registration Unit := do
  let types ← match types with
    | .str s => pure [Value.str s]
    | .list xs => pure xs
    | v => throw (.refusal (.operatorNames v))
  match offer with
  | .other v => throw (.refusal (.ruleObject v))
  | .group g =>
    match countVersions g.methods with
    | .error f => throw f
    | .ok 0 => throw (.refusal .noRuleVersion)
    | .ok _ => putMethods types g.methods

def putComposites (c : Composite) : List Value → Registration Unit
  | [] => return
  | type :: rest => do
    unless type.isKey do throw (.slip .wrongKind)
    modify fun r => r.putComposite type c
    putComposites c rest

/-- **Registers a composite for a type or a list of types.** -/
def registerComposite (types : Value) (offer : CompositeOffer) : Registration Unit := do
  let types ← match types with
    | .str s => pure [Value.str s]
    | .list xs => pure xs
    | v => throw (.refusal (.compositeNames v))
  match offer with
  | .other v => throw (.refusal (.compositeObject v))
  | .withoutForward => throw (.refusal .noForward)
  | .composite c => putComposites c types

end Registration

end ModelExport
