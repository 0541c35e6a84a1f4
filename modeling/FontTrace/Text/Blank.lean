/-!
# FontTrace.Text.Blank

White space in the sense of Unicode's `White_Space` property, and the two
things the operand readers do with it: cutting it off both ends of a text and
splitting a text into words at it.
-/

namespace FontTrace

/-- The characters with Unicode's `White_Space` property. -/
def isBlank (c : Char) : Bool :=
  let n := c.toNat
  (9 ≤ n && n ≤ 13) || n == 0x20 || n == 0x85 || n == 0xA0 || n == 0x1680 ||
    (0x2000 ≤ n && n ≤ 0x200A) || n == 0x2028 || n == 0x2029 || n == 0x202F ||
    n == 0x205F || n == 0x3000

/-- The text without the blanks at its two ends. -/
def trimBlanks (cs : List Char) : List Char :=
  ((cs.dropWhile isBlank).reverse.dropWhile isBlank).reverse

/-- `trimBlanks` on strings. -/
def trimmed (s : String) : String := String.ofList (trimBlanks s.toList)

/-- The longest blank-free stretches of a text.  `word` holds the characters
of the current stretch in reverse order. -/
def wordsFrom (word : List Char) : List Char → List (List Char)
  | [] => if word.isEmpty then [] else [word.reverse]
  | c :: cs =>
    if isBlank c then
      if word.isEmpty then wordsFrom [] cs else word.reverse :: wordsFrom [] cs
    else wordsFrom (c :: word) cs

/-- The longest blank-free stretches of a text, in order. -/
def words (cs : List Char) : List (List Char) := wordsFrom [] cs

/-- Every blank in the sense of Lean's own ASCII test is a blank here. -/
theorem isBlank_of_isWhitespace {c : Char} (h : c.isWhitespace = true) : isBlank c = true := by
  simp only [Char.isWhitespace, Bool.or_eq_true, decide_eq_true_eq] at h
  rcases h with ((h | h) | h) | h <;> subst h <;> decide

end FontTrace
