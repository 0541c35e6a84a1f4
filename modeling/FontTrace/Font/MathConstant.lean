import FontTrace.Number.Binary
import FontTrace.Table

/-!
# FontTrace.Font.MathConstant

Default values for the constants of the MATH table, from the font parameters
of the two classic math fonts: `sigma` of the symbol font (parameters 5 to 22)
and `xi` of the extension font (8 to 13).  A constant whose parameters are not
known has no default.
-/

namespace FontTrace

/-- Font parameters by number, in font units. -/
abbrev FontParams := Table Nat Int

/-- What the defaults are computed from. -/
structure MathInputs where
  sigma : FontParams
  xi : FontParams
  em : Float
  capHeight : Float

namespace MathInputs

/-- The constants in the order of the MATH table, not yet rounded. -/
def constants (m : MathInputs) : List (String × Option Float) :=
  let sigma (k : Nat) : Option Float := (Table.find? m.sigma k).map Float.ofInt
  let xi (k : Nat) : Option Float := (Table.find? m.xi k).map Float.ofInt
  let times (factor : Float) (x : Option Float) : Option Float := x.map (factor * ·)
  [("UpperLimitBaselineRiseMin", xi 11),
   ("UpperLimitGapMin", xi 9),
   ("LowerLimitGapMin", xi 10),
   ("LowerLimitBaselineDropMin", xi 12),
   ("StretchStackTopShiftUp", xi 11),
   ("StretchStackGapAboveMin", xi 9),
   ("StretchStackGapBelowMin", xi 10),
   ("StretchStackBottomShiftDown", xi 12),
   ("OverbarExtraAscender", xi 8),
   ("OverbarRuleThickness", xi 8),
   ("OverbarVerticalGap", times 3 (xi 8)),
   ("UnderbarVerticalGap", times 3 (xi 8)),
   ("UnderbarRuleThickness", xi 8),
   ("UnderbarExtraDescender", xi 8),
   ("FractionNumeratorDisplayStyleShiftUp", sigma 8),
   ("FractionNumeratorShiftUp", sigma 9),
   ("FractionNumeratorDisplayStyleGapMin", times 3 (xi 8)),
   ("FractionNumeratorGapMin", xi 8),
   ("FractionRuleThickness", xi 8),
   ("FractionDenominatorDisplayStyleGapMin", times 3 (xi 8)),
   ("FractionDenominatorGapMin", xi 8),
   ("FractionDenominatorDisplayStyleShiftDown", sigma 11),
   ("FractionDenominatorShiftDown", sigma 12),
   ("StackTopDisplayStyleShiftUp", sigma 8),
   ("StackTopShiftUp", sigma 10),
   ("StackDisplayStyleGapMin", times 7 (xi 8)),
   ("StackGapMin", times 3 (xi 8)),
   ("StackBottomDisplayStyleShiftDown", sigma 11),
   ("StackBottomShiftDown", sigma 12),
   ("SuperscriptShiftUp", sigma 13),
   ("SuperscriptShiftUpCramped", sigma 15),
   ("SubscriptShiftDown", sigma 16),
   ("SuperscriptBaselineDropMax", sigma 18),
   ("SubscriptBaselineDropMin", sigma 19),
   ("SuperscriptBottomMin", times 0.25 (sigma 5)),
   ("SubscriptTopMax", times 0.8 (sigma 5)),
   ("SubSuperscriptGapMin", times 4 (xi 8)),
   ("SuperscriptBottomMaxWithSubscript", times 0.8 (sigma 5)),
   ("SpaceAfterScript", some (0.05 * m.em)),
   ("RadicalExtraAscender", xi 8),
   ("RadicalRuleThickness", xi 8),
   ("RadicalDisplayStyleVerticalGap", do return (← xi 8) + 0.25 * (← sigma 5)),
   ("RadicalVerticalGap", times 1.25 (xi 8)),
   ("RadicalKernBeforeDegree", some (5 / 18 * m.em)),
   ("RadicalKernAfterDegree", some (10 / 18 * m.em)),
   ("RadicalDegreeBottomRaisePercent", some 60),
   ("ScriptPercentScaleDown", some 70),
   ("ScriptScriptPercentScaleDown", some 50),
   ("DisplayOperatorMinHeight", some (1.4 * m.em)),
   ("DelimitedSubFormulaMinHeight", sigma 21),
   ("AxisHeight", sigma 22),
   ("AccentBaseHeight", sigma 5),
   ("FlattenedAccentBaseHeight", some m.capHeight),
   ("MathLeading", some (3 / 18 * m.em)),
   ("MinConnectorOverlap", some 0)]

/-- The constants that have a default, in font units. -/
def defaults (m : MathInputs) : List (String × Int) :=
  m.constants.filterMap fun (name, value) => value.map fun x => (name, roundUnits x)

end MathInputs

end FontTrace
