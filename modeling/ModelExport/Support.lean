import ModelExport.Composite

/-!
# Support — can all operators be mapped?

`Emit.checkSupport` looks at the operators of a graph before they are mapped: each must be composite
or registered, and have a rule for the operator set.  `Emit.recommend` finds the version to use: the
requested one, or the least one that has rules for all operators and for what composites expand to.
-/

namespace ModelExport

/-- The types of a list without repetitions, in order of first appearance. -/
def distinct (types : List String) : List String :=
  types.foldl (fun seen t => if seen.contains t then seen else seen ++ [t]) []

namespace Registry

/-- Types that are neither composite nor registered. -/
def unregistered (r : Registry) (types : List String) : List String :=
  distinct (types.filter fun t => !r.isComposite t && (r.versions (.str t)).isNone)

def lacksVersion (r : Registry) (opset : Int) (type : String) : Bool :=
  match r.versions (.str type) with
  | none => false
  | some vs => !r.isComposite type && latestUpTo vs opset == -1

/-- Types with rules, but none for the operator set. -/
def unsupported (r : Registry) (opset : Int) (types : List String) : List String :=
  distinct (types.filter (r.lacksVersion opset))

def firstVersion (r : Registry) (type : String) : Int :=
  (((r.versions (.str type)).getD []).min?).getD (-1)

def neededVersion (r : Registry) (types : List String) : Int :=
  types.foldl (fun best t => max best (r.firstVersion t)) (-1)

end Registry

def SourceGraph.types (g : SourceGraph) : List String := g.nodes.map fun e => e.2.type

namespace Emit

/-- **Checks that all types can be mapped.**  With `advise` a missing version is only warned of, and
the version to use is given back. -/
def checkSupport (r : Registry) (types : List String) (opset : Int) (advise : Bool) : Emit Int := do
  let unknown := r.unregistered types
  unless unknown.isEmpty do refuse (.unregistered unknown)
  let lacking := r.unsupported opset types
  if lacking.isEmpty then return opset
  let needed := r.neededVersion lacking
  let reason := Refusal.unsupportedVersion lacking opset needed
  if advise then
    notify (.warning reason.message)
    return needed
  else refuse reason

/-- The greatest version that the operators and the expansions of composites among them ask for. -/
def recommendNested (r : Registry) (opset : Int) : List OpNode → Int → Emit Int
  | [], best => return best
  | op :: rest, best => do
    match r.composite? (.str op.type) with
    | none => recommendNested r opset rest best
    | some c =>
      let g ← expand c op
      let needed ← checkSupport r g.types opset true
      recommendNested r opset rest (max best needed)

def recommendation (version : Int) : String :=
  "\n======================\n" ++
    "\nFor a successful conversion, set the recommended opset version : " ++ toString version ++
    "\n" ++ "\n======================\n"

/-- **The version to use for a graph.** -/
def recommend (r : Registry) (nodes : List OpNode) (opset : Int) : Emit Int := do
  let version ← checkSupport r (nodes.map OpNode.type) opset true
  let version ← recommendNested r opset nodes version
  unless version == opset do notify (.warning (recommendation version))
  return version

end Emit

end ModelExport
