import FontTrace.Text.Hidden

/-!
# FontTrace.Text.Shown

Texts as messages show them when they may hold anything.
-/

namespace FontTrace

/-- A character inside a shown text: what cannot be seen for itself is spelled out. -/
def shownChar (c : Char) : String :=
  if c = '"' then "\\\""
  else if c = '\\' then "\\\\"
  else if c = '\n' then "\\n"
  else if c = '\r' then "\\r"
  else if c = '\t' then "\\t"
  else if c = Char.ofNat 0 then "\\0"
  else if isHidden c then
    "\\u\x7b" ++ String.ofList (Nat.toDigits 16 c.toNat) ++ "\x7d"
  else String.singleton c

/-- A text in quotes. -/
def shownText (s : String) : String := "\"" ++ String.join (s.toList.map shownChar) ++ "\""

end FontTrace
