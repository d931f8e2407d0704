/-
# Blank characters and trimming

A character is blank when Unicode gives it the property `White_Space`.  Texts that come from
files, commands and configuration are trimmed of blanks at both ends before they are read.
-/
namespace FleetAgent.Text

/-- The characters with the Unicode property `White_Space`. -/
def isBlank (c : Char) : Bool :=
  let n := c.toNat
  (0x9 ≤ n && n ≤ 0xD) || n == 0x20 || n == 0x85 || n == 0xA0 || n == 0x1680
    || (0x2000 ≤ n && n ≤ 0x200A) || n == 0x2028 || n == 0x2029 || n == 0x202F
    || n == 0x205F || n == 0x3000

/-- Drops the longest run of characters at the end that satisfy `p`. -/
def dropWhileEnd (p : Char → Bool) (s : List Char) : List Char :=
  (s.reverse.dropWhile p).reverse

/-- The characters of a text without the blanks at its two ends. -/
def trimChars (s : List Char) : List Char :=
  dropWhileEnd isBlank (s.dropWhile isBlank)

/-- A text without the blanks at its two ends. -/
def trim (s : String) : String :=
  String.ofList (trimChars s.toList)

/-- Nothing can be dropped from an empty text. -/
@[simp] theorem dropWhileEnd_nil (p : Char → Bool) : dropWhileEnd p [] = [] := rfl

end FleetAgent.Text
