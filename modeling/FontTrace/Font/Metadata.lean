import FontTrace.Font.Model

/-!
# FontTrace.Font.Metadata

The font-wide values as a flat table of texts, for whoever writes the font out.
Values that are not set are not in it.
-/

namespace FontTrace

/-- The font-wide values as texts by name. -/
def FontInfo.metadata (i : FontInfo) : Table String String :=
  let int? (name : String) (value : Option Int) : Table String String :=
    (value.map fun v => (name, toString v)).toList
  [("font_name", i.fontName), ("family_name", i.familyName), ("full_name", i.fullName),
   ("weight", i.weight), ("version", i.version), ("copyright", i.copyright),
   ("comment", i.comment), ("fontlog", i.fontlog), ("ascent", toString i.ascent),
   ("descent", toString i.descent), ("italic_angle", Decimal.text i.italicAngle)] ++
    int? "cap_height" i.capHeight ++ int? "x_height" i.xHeight ++
    int? "underline_position" i.underlinePosition ++ int? "underline_width" i.underlineWidth ++
    (i.designSize.map fun s => ("design_size", Decimal.text s)).toList ++
    (i.unitsPerEm.map fun n => ("units_per_em", toString n)).toList ++
    i.mathConstants.map (fun (name, value) => (s!"math.{name}", toString value)) ++
    i.privateDict.map fun (key, value) => (s!"private.{key}", value)

end FontTrace
