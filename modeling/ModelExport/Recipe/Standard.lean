import ModelExport.Recipe.Boxes
import ModelExport.Recipe.Deformable
import ModelExport.Recipe.Proposals

/-!
# Recipe/Standard — the composites that come with the library

`Recipes.standard` lists them by operator type; `Recipes.spellOut` prepares an operator and runs its
recipe.
-/

namespace ModelExport.Recipes

/-- **The recipes that come with the library.** -/
def standard : List (String × RecipeRule) :=
  [("anchor_generator", anchors), ("box_clip", clipBoxes),
    ("collect_fpn_proposals", collectProposals), ("deformable_conv", deformableConvolution),
    ("distribute_fpn_proposals", distributeProposals), ("generate_proposals", generateProposals)]

/-- **A composite spelled out**: its template, its attributes afterwards, the calls that were made
and the tensors for its outputs, unless there was a fault. -/
structure SpelledOut where
  template : Template
  attrs : Attrs
  calls : List Call
  result : Except Fault (List (String × List Value))

def spellOut (op : OpNode) : Except Fault SpelledOut := do
  match Assoc.get? standard op.type with
  | none => .error (.slip .missingKey)
  | some rule =>
    let template ← (Template.of op).mapError .slip
    let p ← rule op template
    match EStateM.run p.recipe {} with
    | .ok results s => .ok { template, attrs := p.attrs, calls := s.calls, result := .ok results }
    | .error f s => .ok { template, attrs := p.attrs, calls := s.calls, result := .error f }

end ModelExport.Recipes
