import FontTrace.Trace.OperandError

/-!
# FontTrace.Skip

Why a construct of the trace is left out.  A skip never ends a replay: it is
reported, and the replay goes on with the next record.
-/

namespace FontTrace

/-- The reason for leaving out a construct. -/
inductive Skip where
  | malformed (op : String) (cause : OperandError)
  | truncated (op : String)
  | unknownPicture (name : String)
  | unknownOperation (name body : String)
  | extensionDisabled (name : String)
  | argumentCount (op : String) (expected given : Nat)
  | expectedString (op : String)
  | complexPictureExpression
  | emptyPictureEquation
  | negatedAddtoTerm
  | cullKeepingZero
  | unsupportedCull (mode : String) (a b : Int)
  | invalidPrivateEntry (key value : String)
  | anonymousGlyph
deriving DecidableEq, Repr

/-- The reason in words. -/
def Skip.message : Skip → String
  | .malformed op cause => s!"malformed operand for `{op}`: {cause.message}"
  | .truncated op => s!"`{op}` is missing the record it expects to follow it"
  | .unknownPicture name => s!"unknown picture `{name}`"
  | .unknownOperation name body =>
    s!"\"{name}\": {body}? This may be a syntax error in the source"
  | .extensionDisabled name => s!"`{name}` belongs to an extension that is switched off"
  | .argumentCount op expected given =>
    s!"`{op}` takes exactly {expected} argument(s) ({given} given)"
  | .expectedString op => s!"argument of `{op}` needs to be a string"
  | .complexPictureExpression => "ignoring complex picture expression"
  | .emptyPictureEquation => "picture equation without a right-hand side"
  | .negatedAddtoTerm => "negated addto term without a picture"
  | .cullKeepingZero => "cull keeping (0, 0) isn't allowed; ignoring this cull command"
  | .unsupportedCull mode a b => s!"cull {mode} ({a}, {b}) is not supported"
  | .invalidPrivateEntry key value =>
    s!"value `{value}` of PostScript private dictionary entry {key} is invalid"
  | .anonymousGlyph => "glyph without code, unicode value and name"

/-- The error of an operand of `op`, as a skip. -/
def orMalformed {α : Type} (op : String) : Except OperandError α → Except Skip α
  | .ok a => .ok a
  | .error cause => .error (.malformed op cause)

end FontTrace
