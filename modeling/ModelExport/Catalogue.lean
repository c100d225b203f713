import ModelExport.Registry
import ModelExport.Rules.BoxDecoding
import ModelExport.Rules.Comparison
import ModelExport.Rules.Fallback
import ModelExport.Rules.Normalization
import ModelExport.Rules.Pooling
import ModelExport.Rules.PriorBoxes
import ModelExport.Rules.Recurrent
import ModelExport.Rules.Reduction
import ModelExport.Rules.Resizing
import ModelExport.Rules.Selection
import ModelExport.Rules.Slicing
import ModelExport.Rules.Softmax
import ModelExport.Rules.Suppression
import ModelExport.Rules.Windows

/-!
# Catalogue — the rules that come with the library

`Registry.standard` has a rule for every operator type that can be mapped, by the version of the
operator set from which on it applies.
-/

namespace ModelExport

open Rules

namespace Catalogue

/-- Rules of one operator type, by version. -/
abbrev Entry := String × List (Int × Rule)

def activation : List Entry :=
  [("relu", [(1, unary "Relu")]), ("tanh", [(1, unary "Tanh")]), ("log", [(1, unary "Log")]),
    ("sigmoid", [(1, unary "Sigmoid")]), ("sqrt", [(1, unary "Sqrt")]),
    ("leaky_relu", [(1, leakyRelu)]), ("softplus", [(1, softplus)]),
    ("prelu", [(9, prelu false), (13, prelu true)]), ("relu6", [(1, relu6)]), ("gelu", [(7, gelu)]),
    ("selu", [(6, selu)]), ("hard_sigmoid", [(1, hardSigmoid)]), ("swish", [(7, swish)]),
    ("hard_swish", [(7, hardSwish)]), ("elu", [(1, elu)]), ("softsign", [(1, unary "Softsign")]),
    ("hard_shrink", [(9, hardShrink)]), ("logsigmoid", [(1, logSigmoid)]),
    ("log_softmax", [(1, logSoftmax)]), ("dropout", [(7, dropout)])]

def arithmetic : List Entry :=
  [("matmul", [(1, matmul)]), ("matmul_v2", [(1, matmulV2)]), ("exp", [(1, unary "Exp")]),
    ("abs", [(1, unary "Abs")]), ("erf", [(9, unary "Erf")]), ("isinf_v2", [(10, unary "IsInf")]),
    ("isnan", [(9, isNan)]), ("acos", [(7, unary "Acos")]), ("asin", [(7, unary "Asin")]),
    ("sinh", [(9, unary "Sinh")]), ("sin", [(7, unary "Sin")]), ("atan", [(7, unary "Atan")]),
    ("ceil", [(6, unary "Ceil")]), ("cos", [(7, unary "Cos")]), ("cosh", [(9, unary "Cosh")]),
    ("isnan_v2", [(9, unary "IsNaN")]), ("less_than", [(7, binary "Less" "Y")]),
    ("log2", [(7, logarithm 0.693147180559945309)]), ("logsumexp", [(1, logSumExp)]),
    ("elementwise_add", [(9, elementwise "Add")]), ("elementwise_sub", [(9, elementwise "Sub")]),
    ("elementwise_div", [(9, elementwise "Div")]), ("elementwise_mul", [(9, elementwise "Mul")]),
    ("elementwise_min", [(9, elementwise "Min")]), ("elementwise_max", [(9, elementwise "Max")]),
    ("elementwise_pow", [(9, elementwise "Pow")]), ("elementwise_mod", [(9, elementwise "Mod")]),
    ("elementwise_floordiv", [(7, floorDivide)]), ("pow", [(8, power)]), ("square", [(7, square)]),
    ("cumsum", [(11, cumulativeSum)]), ("mul", [(1, mul)]), ("affine_channel", [(1, affineChannel)]),
    ("bmm", [(1, binary "MatMul" "Y")]), ("sum", [(1, unary "sum")]), ("floor", [(1, unary "Floor")]),
    ("log10", [(7, logarithm 2.30258509299404568401)]), ("log1p", [(7, log1p)]),
    ("brelu", [(6, boundedRelu)]), ("mv", [(1, binary "MatMul" "Vec")]),
    ("round", [(11, unary "Round")]), ("rsqrt", [(6, reciprocalRoot)]), ("sign", [(9, unary "Sign")]),
    ("scale", [(1, scaleIdentity), (7, scale)]), ("reciprocal", [(1, unary "Reciprocal")])]

def reduction : List Entry :=
  [("p_norm", [(1, pNorm false), (13, pNorm true)]), ("reduce_all", [(6, reduceTruth "ReduceMin")]),
    ("reduce_any", [(6, reduceTruth "ReduceMax")]), ("reduce_mean", [(1, reduce "ReduceMean")]),
    ("reduce_sum", [(1, reduce "ReduceSum")]), ("reduce_min", [(1, reduce "ReduceMin")]),
    ("reduce_max", [(1, reduce "ReduceMax")]), ("reduce_prod", [(1, reduce "ReduceProd")]),
    ("mean", [(1, mean)]), ("arg_max", [(1, argMax)]), ("arg_min", [(1, argMin)]),
    ("dot", [(7, dot false), (13, dot true)]), ("dist", [(7, distance)]),
    ("softmax", [(1, softmax)]), ("softmax_with_cross_entropy", [(12, softmaxCrossEntropy)])]

def layers : List Entry :=
  [("conv2d", [(1, convolution)]), ("depthwise_conv2d", [(1, convolution)]),
    ("conv2d_transpose", [(1, convolutionTranspose)]),
    ("depthwise_conv2d_transpose", [(1, convolutionTranspose)]), ("pool2d", [(1, pool)]),
    ("norm", [(1, norm)]), ("layer_norm", [(9, layerNorm)]),
    ("batch_norm", [(1, batchNorm [("is_test", .int 1)]), (7, batchNorm [("spatial", .int 0)]),
      (9, batchNorm [])]),
    ("group_norm", [(11, groupNorm false), (13, groupNorm true)]),
    ("instance_norm", [(1, instanceNorm)]), ("roi_align", [(10, roiAlign)]), ("rnn", [(9, recurrent)])]

def comparison : List Entry :=
  [("greater_equal", [(12, binary "GreaterOrEqual" "Y")]),
    ("equal", [(1, binary "Equal" "Y"), (12, binary "Equal" "Y")]), ("not_equal", [(1, notEqual)]),
    ("greater_than", [(1, binary "Greater" "Y")]), ("logical_and", [(1, binary "And" "Y")]),
    ("logical_not", [(1, unary "Not")]), ("logical_or", [(7, binary "Or" "Y")]),
    ("logical_xor", [(7, binary "Xor" "Y")]), ("less_equal", [(12, binary "LessOrEqual" "Y")]),
    ("isfinite_v2", [(10, isFinite)])]

def selection : List Entry :=
  [("where_index", [(9, nonzeroRows)]), ("top_k_v2", [(11, largest orderAttrs)]),
    ("top_k", [(11, largest fun _ => [])]), ("argsort", [(1, argSortDescending), (11, argSort)]),
    ("index_select", [(1, indexSelect)]), ("lookup_table_v2", [(1, embedding false)]),
    ("lookup_table", [(1, embedding true)]),
    ("gather", [(1, gather none), (11, gather (some "GatherND"))])]

def resizing (mode : String) : List (Int × Rule) :=
  [(9, upsample mode), (10, resizeByScales mode), (11, resize mode)]

def shaping : List Entry :=
  [("concat", [(1, concat)]), ("assign", [(1, unary "Identity")]),
    ("lod_reset", [(1, unary "Identity")]), ("stack", [(1, stack)]), ("unstack", [(1, unstack)]),
    ("expand_as_v2", [(8, expandAs)]), ("expand_v2", [(8, expand)]), ("shape", [(1, shapeOf)]),
    ("size", [(1, sizeOf)]), ("split", [(1, split)]),
    ("slice", [(1, sliceAttributes), (10, sliceConstants)]),
    ("strided_slice", [(1, sliceAttributes), (10, sliceConstants)]),
    ("sequence_expand", [(1, unary "Identity")]), ("expand", [(11, tile)]), ("tile", [(11, tile)]),
    ("squeeze2", [(1, squeeze)]), ("transpose2", [(1, renamed "Transpose" "perm" "axis")]),
    ("flatten2", [(1, renamed "Flatten" "axis" "axis")]),
    ("flatten_contiguous_range", [(5, flattenRange)]), ("reshape2", [(5, reshape)]),
    ("unsqueeze2", [(1, renamed "Unsqueeze" "axes" "axes")]), ("cast", [(1, cast)]),
    ("clip", [(1, clip)]), ("pad2d", [(1, padAttributes), (11, padConstants)]),
    ("pad3d", [(1, padAttributes), (11, padConstants)]), ("pixel_shuffle", [(11, pixelShuffle)]),
    ("bilinear_interp", resizing "linear"), ("nearest_interp", resizing "nearest"),
    ("bilinear_interp_v2", resizing "linear"), ("nearest_interp_v2", resizing "nearest")]

def filling : List Entry :=
  [("range", [(11, range)]), ("fill_constant", [(1, fillConstant)]),
    ("fill_constant_batch_size_like", [(10, fillBatchLike)]),
    ("fill_any_like", [(9, fillLike fun op => op.attr "value")]),
    ("fill_zeros_like", [(9, fillLike fun _ => .int 0)]), ("assign_value", [(1, assignValue)]),
    ("uniform_random_batch_size_like", [(1, randomLike)]), ("uniform_random", [(1, random)])]

def detection : List Entry :=
  [("yolo_box", [(9, yoloBox false), (11, yoloBox true)]),
    ("multiclass_nms", [(10, multiclassSuppression)]),
    ("multiclass_nms2", [(10, multiclassSuppression)]),
    ("matrix_nms", [(10, multiclassSuppression)]),
    ("multiclass_nms3", [(10, multiclassSuppression)]), ("prior_box", [(9, priorBox)]),
    ("density_prior_box", [(9, densityPriorBox)]), ("box_coder", [(7, boxCoder)]),
    ("im2sequence", [(1, windows)])]

def kept : List Entry := keptOperators.map fun k => (k.type, [(1, keep k)])

def entries : List Entry :=
  activation ++ arithmetic ++ reduction ++ layers ++ comparison ++ selection ++ shaping ++ filling ++
    detection ++ kept

end Catalogue

/-- **The registry that comes with the library.**  The operators that can be kept as they are count as
composites. -/
def Registry.standard : Registry :=
  { rules := Catalogue.entries.map fun e => (.str e.1, e.2)
    composites := keptOperators.map fun k => (.str k.type, .recipe) }

end ModelExport
