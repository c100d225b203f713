import ModelExport.Rules.Building

/-!
# Rules/Convolution — convolutions and their transposes

Paddings given for two axes hold on both sides of each; `doubled` writes them out.
-/

namespace ModelExport.Rules

open Emit

def kernelShape (filter : List Int) : Value := .tuple ((spanOf filter (-2) filter.length).map .int)

/-- Paddings of two axes written out for both sides. -/
def doubled (pads : Value) : Except Slip Value := do
  if (← pads.length) == 2 then pads.add pads else .ok pads

/-- How a padding algorithm is asked for: by name, or with the paddings themselves. -/
def paddingAttrs (algorithm : Value) (explicit : Attrs) : Attrs :=
  if algorithm.same (.str "SAME") then [("auto_pad", .str "SAME_UPPER")]
  else if algorithm.same (.str "VALID") then [("auto_pad", .str "VALID")]
  else explicit

def convolution : Rule := fun op => do
  let filter ← op.inputShape "Filter" 0
  let pads ← doubled (op.attr "paddings")
  let attrs := [("dilations", op.attr "dilations"), ("kernel_shape", kernelShape filter),
    ("strides", op.attr "strides"), ("group", op.attr "groups")]
  let inputs ← (op.input "Input").add (op.input "Filter")
  discard <| nodeTo "Conv" inputs (← op.output "Output")
    (attrs ++ paddingAttrs (op.attr "padding_algorithm") [("pads", pads)])

/-- The paddings at the far side: the extra output padding when there is one. -/
def farPaddings (op : OpNode) : Except Slip (Value × Attrs) := do
  let extra := op.attr "output_padding"
  if extra.truthy then
    if (← extra.length) > 0 then return (extra, [("output_padding", extra)])
  return (op.attr "paddings", [])

def convolutionTranspose : Rule := fun op => do
  let filter ← op.inputShape "Filter" 0
  let (far, extra) ← farPaddings op
  let inputs ← (op.input "Input").add (op.input "Filter")
  let outputs ← op.output "Output"
  let pads ← (op.attr "paddings").add far
  discard <| nodeTo "ConvTranspose" inputs outputs
    ([("dilations", op.attr "dilations"), ("kernel_shape", kernelShape filter),
      ("strides", op.attr "strides"), ("group", op.attr "groups"), ("pads", pads)] ++ extra)

end ModelExport.Rules
