import ModelExport.Value.Basic
import ModelExport.Number.Decimal
import ModelExport.Text.Quoted

/-!
# Value/Text — the text of a value

`Value.written` writes a value the way messages and graph listings do: texts inside sequences stand
between quotes, a text on its own does not (`Value.plain`).  `Value.kindText` names the kind of a
value in messages.
-/

namespace ModelExport.Value

mutual

/-- **The text of a value inside another one.** -/
def written : Value → String
  | .none => "None"
  | .bool b => if b then "True" else "False"
  | .int i => toString i
  | .float x => Decimal.text x
  | .str s => Quoted.quote s
  | .list xs => "[" ++ ", ".intercalate (writtenAll xs) ++ "]"
  | .tuple xs => match xs with
    | [x] => "(" ++ written x ++ ",)"
    | xs => "(" ++ ", ".intercalate (writtenAll xs) ++ ")"
  | .dict fs => "\x7b" ++ ", ".intercalate (writtenFields fs) ++ "\x7d"
  | .object _ name => "<" ++ name ++ ">"
termination_by structural x => x

def writtenAll : List Value → List String
  | [] => []
  | x :: xs => written x :: writtenAll xs
termination_by structural xs => xs

def writtenFields : List (Value × Value) → List String
  | [] => []
  | f :: fs => writtenField f :: writtenFields fs
termination_by structural fs => fs

def writtenField : Value × Value → String
  | (k, v) => written k ++ ": " ++ written v
termination_by structural f => f

end

/-- The text of a value on its own. -/
def plain : Value → String
  | .str s => s
  | v => v.written

def kindName : Value → String
  | .none => "NoneType"
  | .bool _ => "bool"
  | .int _ => "int"
  | .float _ => "float"
  | .str _ => "str"
  | .list _ => "list"
  | .tuple _ => "tuple"
  | .dict _ => "dict"
  | .object .node _ => "paddle2onnx.graph.graph.Node"
  | .object .variable _ => "paddle.fluid.framework.Variable"
  | .object .tensor _ => "paddle.fluid.core.VarBase"
  | .object .inputSpec _ => "paddle.static.InputSpec"
  | .object .unknownElement _ => "paddle.dtype"
  | .object (.constant _ _ _) kind => kind

def kindText (v : Value) : String := "<class " ++ Quoted.quote v.kindName ++ ">"

end ModelExport.Value
