/-!
# Fault — a failed elementary operation

A `Slip` is a failed elementary operation: a missing key, a value of the wrong kind.  It has a label
and no text of its own.  What the library itself refuses, with its reasons, is in `Refusal`.
-/

namespace ModelExport

/-- **A failed elementary operation.** -/
inductive Slip where
  | missingKey
  | outOfRange
  | wrongKind
  | badValue
  | zeroDivision
  | undefinedName
  | unsetVariable
  | missingMember
  | overflow
  | badSyntax
  | badIndent
  | isDirectory
  | notDirectory
  | notFound
  | alreadyThere
  | nameTooLong
  deriving DecidableEq, Repr

def Slip.label : Slip → String
  | .missingKey => "KeyError"
  | .outOfRange => "IndexError"
  | .wrongKind => "TypeError"
  | .badValue => "ValueError"
  | .zeroDivision => "ZeroDivisionError"
  | .undefinedName => "NameError"
  | .unsetVariable => "UnboundLocalError"
  | .missingMember => "AttributeError"
  | .overflow => "OverflowError"
  | .badSyntax => "SyntaxError"
  | .badIndent => "IndentationError"
  | .isDirectory => "IsADirectoryError"
  | .notDirectory => "NotADirectoryError"
  | .notFound => "FileNotFoundError"
  | .alreadyThere => "FileExistsError"
  | .nameTooLong => "OSError"

end ModelExport
