import ModelExport.Value.Text

/-!
# Refusal — what the library declines, and why

Each `Refusal` is one reason; `Refusal.message` is its wording and `Refusal.label` the family it is
reported under.  A `Fault` is how a computation ends early: an elementary slip, a refusal, a request
to stop the whole program, or either of the first two seen from the operator that was being mapped.
-/

namespace ModelExport

/-- **A reason to decline.** -/
inductive Refusal where
  -- operators that cannot be expressed
  | softplusParameters
  | slopeShape
  | approximateGelu
  | pNormAxis
  | softLabel
  | scaleNeedsSeven
  | expandTarget
  | sliceStep
  | repeatTimesMissing
  | repeatTimesIllegal
  | fillValueTensor
  | gatherRank
  | shapeUnknown
  | circularPadding
  | paddingTensor
  | resizeTransform
  | unexpected
  | adaptivePool (inputShape outputShape : Value)
  | adaptiveCeil
  | poolCeil
  | groupNormRank
  | ascendingSort
  | staticShape
  | variancePerPrior
  | windowShape
  | windowStride
  | boundIsTensor
  | alignmentLength
  -- values compared with what is supported
  | unsupportedAttr (name : Value) (relation : Value) (target actual : Value)
  | unsupportedDims (name : Value) (relation : Value) (i j : Value) (a b : Value)
  -- graphs
  | nodeInputs (given : Value)
  | slotInputs (given : Value)
  | slotOutputs (given : Value)
  | graphOutputs (given : Value)
  | graphInputs (given : Value)
  | nodeMap (given : Value)
  | parameters (given : Value)
  | noSuchNode (name : Value)
  -- registration and support
  | operatorNames (given : Value)
  | ruleObject (given : Value)
  | ruleVersion (method : String)
  | noRuleVersion
  | compositeNames (given : Value)
  | compositeObject (given : Value)
  | noForward
  | unregistered (types : List String)
  | unsupportedVersion (types : List String) (opset needed : Int)
  | passFailed (name : Value)
  | invalidModel
  | missingModule (name : String)
  -- requests
  | feedNames
  | fetchVariables
  | programKind (given : Value)
  | layerKind (given : Value)
  | inputSpecKind (given : Value)
  | inputSpecMember (given : Value)
  | outputSpecKind (given : Value)
  | outputSpecMember (given : Value)
  | verboseKind (given : Value)
  | checkerKind (given : Value)
  | fallbackKind (given : Value)
  | tracedLayerKind (given : Value)
  | graphLayerKind (given : Value)
  | tracingDisabled
  | noSuchSpec
  | feedMissing (index : Nat) (name : String)
  | modelKind
  | hostVersion
  | modelDirMissing
  | saveFileMissing

namespace Refusal

def typeLines (types : List String) : String :=
  String.join ((types.map fun t => "=========== " ++ t ++ " ===========\n").mergeSort fun a b => !(b < a))

/-- **The wording of a refusal.** -/
def message : Refusal → String
  | softplusParameters =>
    "[ERROR] Operator softplus only supported while beta==1.0 and threshold==20.0"
  | slopeShape => "Slope shape is not expected for prelu"
  | approximateGelu => "Not support approximate is True."
  | pNormAxis => "Only axis == 1 is supported for p_norm"
  | softLabel => "SoftmaxCrossEntropyLoss in onnx not support soft label."
  | scaleNeedsSeven => "please try to convert OP:scale with opset_version >= 7."
  | expandTarget => "Not find attribute: 'target_shape' or tensor 'target_tensor'"
  | sliceStep =>
    "Slice in onnx(opset<10) not support attribute 'step', Try converting with opset_version >=10"
  | repeatTimesMissing => "Not find attribute: 'repeat_times'."
  | repeatTimesIllegal => "illegal Tensor: 'repeat_times'."
  | fillValueTensor => "paddle.full with tensor value parameter is not supported yet."
  | gatherRank =>
    "please try to convert OP:gather(indices's rank >1) with opset_version >= 11."
  | shapeUnknown => "shape tensor and shape attrubite all unkown."
  | circularPadding =>
    "The padding mode = circular is not supported, Please try the other three ways"
  | paddingTensor => "Tensor input type is not supported, Please try input List or Int"
  | resizeTransform =>
    "Resize in onnx(opset<=10) only support coordinate_transformation_mode: 'asymmetric', " ++
      "Try converting with opset_version 11"
  | unexpected => "Unexpected situation happend"
  | adaptivePool i o =>
    "Cannot convert adaptive pool with input_size: " ++ i.plain ++ ", output_size: " ++ o.plain
  | adaptiveCeil =>
    "Cannot convert pool with ceil_model == True to ONNX Opset version < 10."
  | poolCeil => "Cannot convert pool with ceil_model == True to ONNX Opset version < 10"
  | groupNormRank => "Only support 4D-Tensor as input for GroupNorm"
  | ascendingSort => "descending=False only support opset version>=11."
  | staticShape =>
    "Converting this model to ONNX need with static input shape, please fix input shape of this " ++
      "model, see doc Q2 in " ++
      "https://github.com/PaddlePaddle/paddle2onnx/blob/develop/docs/en/FAQ.md."
  | variancePerPrior => "The op box_coder has variable do not support aixs broadcast"
  | windowShape => "Only supported fixed input shape for im2sequence operator."
  | windowStride => "Only out_stride==1 is supported for im2sequence operator."
  | boundIsTensor => "exceptions must derive from BaseException"
  | alignmentLength => "Length of nodes and node_dtypes should be equal."
  | unsupportedAttr name relation target actual =>
    "Support " ++ name.plain ++ " " ++ relation.plain ++ " " ++ target.plain ++ ", actually got " ++
      name.plain ++ "==" ++ actual.plain ++ "."
  | unsupportedDims name relation i j a b =>
    "Support " ++ name.plain ++ "[" ++ i.plain ++ "] " ++ relation.plain ++ " " ++ name.plain ++
      "[" ++ j.plain ++ "], actually got " ++ name.plain ++ "[" ++ i.plain ++ "]==" ++ a.plain ++
      ", not " ++ relation.plain ++ " " ++ name.plain ++ "[" ++ j.plain ++ "]==" ++ b.plain ++ "."
  | nodeInputs v => "Inputs of node must be type: list, Node, or String but got " ++ v.kindText
  | slotInputs v => "Inputs of node must be type: dict, but got " ++ v.kindText
  | slotOutputs v => "Outputs of node must be type: dict, but got " ++ v.kindText
  | graphOutputs v => "output_nodes of Graph must be type: list, but got " ++ v.kindText
  | graphInputs v => "input_nodes of Graph must be type: list, but got " ++ v.kindText
  | nodeMap v => "node_map of Graph must be type: list, but got " ++ v.kindText
  | parameters v => "parameters of Graph must be type: dict, but got " ++ v.kindText
  | noSuchNode name => "Node with name:" ++ name.plain ++ " not in graph"
  | operatorNames v => "paddle_op must be List or string, but got type " ++ v.kindText ++ "."
  | ruleObject v => "mapper_obj must be Class, but got type " ++ v.kindText ++ "."
  | ruleVersion method =>
    "the specific method of operator mapper must be named opset_[number](1<=number<=13), such as " ++
      "opset_9, but got " ++ method ++ "."
  | noRuleVersion =>
    "the specific method of operator mapper must be classmethod, which named " ++
      "opset_[number](1<=number<=13), such as opset_9, but none achieved."
  | compositeNames v => "paddle_op' must be List or string, but got type " ++ v.kindText ++ "."
  | compositeObject v => "'custom_op' must be Class, but got type " ++ v.kindText ++ "."
  | noForward =>
    "Custom paddle operators must be implemented in function named 'forward'."
  | unregistered types =>
    "\nThere's " ++ toString types.length ++ " ops are not supported yet\n" ++ typeLines types
  | unsupportedVersion types opset needed =>
    "\nThere are " ++ toString types.length ++ " ops that are not supported in opset version " ++
      toString opset ++ ", please set opset version >= " ++ toString needed ++ ".\n" ++
      typeLines types
  | passFailed name => "Error happened when excute pass: " ++ name.plain
  | invalidModel => "ONNX model is not valid."
  | missingModule name =>
    "Failed importing " ++ name ++ ". This likely means that some modules requires additional " ++
      "dependencies that have to be manually installed (usually with `pip install " ++ name ++
      "`). "
  | feedNames => "'feed_var_names' should be a list of str."
  | fetchVariables => "'target_vars' should be a list of variable."
  | programKind v =>
    "the input 'program' should be 'Program', but received type is " ++ v.kindText ++ "."
  | layerKind v =>
    "the input 'layer' should be 'Layer', 'TranslatedLayer', but received type is " ++
      v.kindText ++ "."
  | inputSpecKind v =>
    "The input input_spec should be 'list', but received type is " ++ v.kindText ++ "."
  | inputSpecMember v =>
    "The element in input_spec list should be 'Variable' or `paddle.static.InputSpec`, but " ++
      "received element's type is " ++ v.kindText ++ "."
  | outputSpecKind v =>
    "The output_spec should be 'list', but received type is " ++ v.kindText ++ "."
  | outputSpecMember v =>
    "The element in output_spec list should be 'Variable', but received element's type is " ++
      v.kindText ++ "."
  | verboseKind v => "The verbose should be 'bool', but received type is " ++ v.kindText ++ "."
  | checkerKind v =>
    "The 'enable_onnx_checker' should be 'bool', but received type is " ++ v.kindText ++ "."
  | fallbackKind v =>
    "The 'enable_paddle_fallback' should be 'bool', but received type is " ++ v.kindText ++ "."
  | tracedLayerKind v =>
    "The input Layer should be 'Layer', but received  type is " ++ v.kindText ++ "."
  | graphLayerKind v =>
    "The input Layer should be 'Layer' or 'TranslatedLayer', but received  type is " ++
      v.kindText ++ "."
  | tracingDisabled =>
    "The paddle.jit.save doesn't work when setting ProgramTranslator.enable to False."
  | noSuchSpec => "The variable to feed/fetch are not exist."
  | feedMissing index name =>
    "The feed_var_names[" ++ toString index ++ "]: '" ++ name ++
      "' doesn't exist in pruned inference program. Please check whether '" ++ name ++
      "' is a valid feed_var name, or remove it from feed_var_names if '" ++ name ++
      "' is not involved in the fetch_vars calculation."
  | modelKind =>
    "Only support model loaded from paddle.static.load_inference_model() or paddle.jit.load()"
  | hostVersion => "paddlepaddle>=1.8.0 is required"
  | modelDirMissing =>
    "--model_dir should be defined while translating paddle model to onnx"
  | saveFileMissing =>
    "--save_file should be defined while translating paddle model to onnx"

def label : Refusal → String
  | slopeShape | pNormAxis | groupNormRank | windowShape | windowStride | alignmentLength
  | modelDirMissing | saveFileMissing => "AssertionError"
  | boundIsTensor | nodeInputs _ | slotInputs _ | slotOutputs _ | graphOutputs _ | graphInputs _
  | nodeMap _ | parameters _ | noSuchNode _ | feedNames | fetchVariables | programKind _
  | layerKind _ | inputSpecKind _ | inputSpecMember _ | outputSpecKind _ | outputSpecMember _
  | verboseKind _ | checkerKind _ | fallbackKind _ | tracedLayerKind _ | graphLayerKind _ => "TypeError"
  | unsupportedAttr _ _ _ _ | unsupportedDims _ _ _ _ _ _ | operatorNames _ | ruleObject _
  | compositeNames _ | compositeObject _ | feedMissing _ _ => "ValueError"
  | unregistered _ | unsupportedVersion _ _ _ => "NotImplementedError"
  | missingModule _ | hostVersion => "ImportError"
  | tracingDisabled | noSuchSpec => "RuntimeError"
  | _ => "Exception"

end Refusal

structure Site where
  name : String
  type : String
  inputs : Value
  outputs : Value

/-- **How a computation ends early.** -/
inductive Fault where
  | slip (s : Slip)
  | refusal (r : Refusal)
  | halt (code : Int)
  | mapping (site : Site) (cause : Fault)

namespace Fault

/-- What stands before the cause in the text of a failed mapping. -/
def sitePreamble (s : Site) : String :=
  "Error happened when mapping node ['" ++ s.name ++ "'] to onnx, which op_type is '" ++ s.type ++
    "' with inputs: " ++ s.inputs.plain ++ " and outputs: " ++ s.outputs.plain ++
    ", specific error: "

/-- The text of a fault as it stands inside another text. -/
def text : Fault → String
  | slip s => "<" ++ s.label ++ ">"
  | refusal r => r.message
  | halt code => toString code
  | mapping site cause => sitePreamble site ++ cause.text

def label : Fault → String
  | slip s => s.label
  | refusal r => r.label
  | halt _ => "SystemExit"
  | mapping _ _ => "Exception"

/-- The text a fault is reported with; an elementary slip has none. -/
def message? : Fault → Option String
  | slip _ => none
  | f => some f.text

/-- A request to stop passes through; everything else is seen from the operator. -/
def atSite (site : Site) : Fault → Fault
  | halt code => halt code
  | f => mapping site f

end Fault

end ModelExport
