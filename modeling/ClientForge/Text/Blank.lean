/-!
# Blanks

White space as Unicode defines it, trimming, and taking a text apart at a separator.
-/

namespace ClientForge.Text

/-- The characters with the Unicode property White_Space. -/
def isBlank (c : Char) : Bool :=
  let n := c.toNat
  (9 ≤ n && n ≤ 13) || n == 0x20 || n == 0x85 || n == 0xA0 || n == 0x1680 ||
    (0x2000 ≤ n && n ≤ 0x200A) || n == 0x2028 || n == 0x2029 || n == 0x202F || n == 0x205F || n == 0x3000

/-- Drops the characters of a class from both ends. -/
def trimBoth (p : Char → Bool) (cs : List Char) : List Char :=
  ((cs.dropWhile p).reverse.dropWhile p).reverse

/-- The text without blanks at its ends. -/
def trim (s : String) : String := String.ofList (trimBoth isBlank s.toList)

/-- Whether the text holds nothing but blanks. -/
def isBlankText (s : String) : Bool := s.toList.all isBlank

/-- The text without the given characters at its end. -/
def trimEndOf (chars : List Char) (s : String) : String :=
  String.ofList (s.toList.reverse.dropWhile (chars.contains ·)).reverse

/-- The pieces of a text between the occurrences of a separator. There is always at least one. -/
def split (sep : Char) (s : String) : List String := (s.toList.splitOn sep).map String.ofList

/-- Whether the text starts with `front`. -/
def startsWith (s front : String) : Bool := front.toList.isPrefixOf s.toList

/-- Whether the text ends with `back`. -/
def endsWith (s back : String) : Bool := back.toList.isSuffixOf s.toList

/-- The text without `front`, if it starts with it. -/
def dropFront (s front : String) : String := ((front.toList.isPrefixOf? s.toList).map String.ofList).getD s

/-- The text without `back`, if it ends with it. -/
def dropBack (s back : String) : String := ((back.toList.isSuffixOf? s.toList).map String.ofList).getD s

/-- Splits a text at the last occurrence of a character: what stands before it, if it occurs, and what
stands after it. -/
def splitLast (sep : Char) (s : String) : Option String × String :=
  let back := s.toList.reverse
  let after := (back.takeWhile (· ≠ sep)).reverse
  match back.dropWhile (· ≠ sep) with
  | [] => (none, String.ofList after)
  | _ :: before => (some (String.ofList before.reverse), String.ofList after)

/-- Every occurrence of a character replaced by a text. -/
def replaceChar (c : Char) (by_ : String) (s : String) : String :=
  String.ofList (s.toList.flatMap fun d => if d = c then by_.toList else [d])

end ClientForge.Text
