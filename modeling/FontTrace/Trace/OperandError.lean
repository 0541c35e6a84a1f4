/-!
# FontTrace.Trace.OperandError

What can be wrong with the operands of a record.
-/

namespace FontTrace

/-- Why an operand, or the operands of a record, could not be read.  The text
is the one that was looked at. -/
inductive OperandError where
  | number (text : String)
  | pair (text : String)
  | path (text : String)
  | string (text : String)
  | fieldCount (expected found : Nat)
deriving DecidableEq, Repr

/-- The error in words. -/
def OperandError.message : OperandError → String
  | .number t => s!"expected a number, found `{t}`"
  | .pair t => s!"expected a pair `(x,y)`, found `{t}`"
  | .path t => s!"expected a path, found `{t}`"
  | .string t => s!"expected a string, found `{t}`"
  | .fieldCount expected found => s!"expected {expected} fields, found {found}"

end FontTrace
