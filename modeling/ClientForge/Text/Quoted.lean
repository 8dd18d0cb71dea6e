/-!
# String literals

A text as a double-quoted literal that C#, TypeScript and Go read alike. Quotes, backslashes, line ends and
tabs are escaped; everything else stands as it is.
-/

namespace ClientForge.Text

/-- A character as it stands inside a literal. -/
def quotedChar (c : Char) : List Char :=
  if c = '"' then ['\\', '"']
  else if c = '\\' then ['\\', '\\']
  else if c = '\n' then ['\\', 'n']
  else if c = '\r' then ['\\', 'r']
  else if c = '\t' then ['\\', 't']
  else [c]

/-- The inside of a literal. -/
def quotedChars (cs : List Char) : List Char := cs.flatMap quotedChar

/-- A text as a double-quoted literal. -/
def quoted (s : String) : String :=
  String.ofList ('"' :: quotedChars s.toList ++ ['"'])

end ClientForge.Text
