import ClientForge.Text.Shown

/-!
# JSON strings

A text as a JSON string. In files that may end up in a page, the characters with a meaning there are escaped
as well.
-/

namespace ClientForge.Text

/-- The characters that are escaped for the sake of pages and scripts. -/
def isPageMark (c : Char) : Bool :=
  c == '<' || c == '>' || c == '&' || c.toNat == 0x2028 || c.toNat == 0x2029

/-- A character as it stands inside a JSON string. -/
def escapedChar (forPages : Bool) (c : Char) : List Char :=
  if c = '"' then ['\\', '"']
  else if c = '\\' then ['\\', '\\']
  else match c.toNat with
    | 0x08 => ['\\', 'b']
    | 0x09 => ['\\', 't']
    | 0x0A => ['\\', 'n']
    | 0x0C => ['\\', 'f']
    | 0x0D => ['\\', 'r']
    | n => if n < 0x20 || (forPages && isPageMark c) then '\\' :: 'u' :: hexDigits 4 n else [c]

/-- A text as a JSON string. -/
def escaped (forPages : Bool) (s : String) : String :=
  String.ofList ('"' :: s.toList.flatMap (escapedChar forPages) ++ ['"'])

end ClientForge.Text
