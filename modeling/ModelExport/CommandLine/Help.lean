/-!
# CommandLine/Help — the summary of the options

What is printed when help is asked for: how the command is called, and a line or more for each option.
-/

namespace ModelExport.CommandLine

def helpLines : List String :=
  [ "usage: paddle2onnx [-h] [--model_dir MODEL_DIR]",
    "                   [--model_filename MODEL_FILENAME]",
    "                   [--params_filename PARAMS_FILENAME] [--save_file SAVE_FILE]",
    "                   [--opset_version OPSET_VERSION]",
    "                   [--input_shape_dict INPUT_SHAPE_DICT]",
    "                   [--enable_onnx_checker ENABLE_ONNX_CHECKER]",
    "                   [--enable_paddle_fallback ENABLE_PADDLE_FALLBACK]",
    "                   [--version]",
    "",
    "options:",
    "  -h, --help            show this help message and exit",
    "  --model_dir MODEL_DIR, -m MODEL_DIR",
    "                        PaddlePaddle model directory, if params stored in",
    "                        single file, you need define '--model_filename' and",
    "                        'params_filename'.",
    "  --model_filename MODEL_FILENAME, -mf MODEL_FILENAME",
    "                        PaddlePaddle model's network file name, which under",
    "                        directory seted by --model_dir",
    "  --params_filename PARAMS_FILENAME, -pf PARAMS_FILENAME",
    "                        PaddlePaddle model's param file name(param files",
    "                        combined in single file), which under directory seted",
    "                        by --model_dir.",
    "  --save_file SAVE_FILE, -s SAVE_FILE",
    "                        file path to save onnx model",
    "  --opset_version OPSET_VERSION, -ov OPSET_VERSION",
    "                        set onnx opset version to export",
    "  --input_shape_dict INPUT_SHAPE_DICT, -isd INPUT_SHAPE_DICT",
    "                        define input shapes, e.g",
    "                        --input_shape_dict=\"\x7b'image':[1, 3, 608, 608]\x7d\" or--",
    "                        input_shape_dict=\"\x7b'image':[1, 3, 608, 608],",
    "                        'im_shape': [1, 2], 'scale_factor': [1, 2]\x7d\"",
    "  --enable_onnx_checker ENABLE_ONNX_CHECKER",
    "                        whether check onnx model validity, if True, please",
    "                        'pip install onnx'",
    "  --enable_paddle_fallback ENABLE_PADDLE_FALLBACK",
    "                        whether use PaddleFallback for custom op, default is",
    "                        False",
    "  --version, -v         get version of paddle2onnx" ]

/-- **The summary of the options.** -/
def help : String := "\n".intercalate helpLines

end ModelExport.CommandLine
