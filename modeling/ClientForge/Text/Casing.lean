import ClientForge.Text.Blank

/-!
# Identifier casing

Names of elements arrive in any spelling and leave in the casing of their place: types in Pascal case,
locals in camel case, options in kebab case. Only ASCII letters and digits take part; camel and Pascal
case drop every other character, the delimited casings keep it.
-/

namespace ClientForge.Text

inductive Casing where
  | pascal
  | camel
  | snake
  | kebab
  /-- Leaves a name as it is. -/
  | verbatim
deriving DecidableEq, Repr

def isSeparator (c : Char) : Bool := c == '_' || c == ' ' || c == '-' || c == '.'

/-- Joins words: `raise` says that the next letter starts a word, `afterCapital` that the character
before was a capital. -/
def camelFrom (raise first afterCapital : Bool) : List Char → List Char
  | [] => []
  | c :: cs =>
    let written :=
      if raise then (if c.isLower then c.toUpper else c)
      else if c.isUpper && (first || afterCapital) then c.toLower
      else c
    if c.isAlpha then written :: camelFrom false false c.isUpper cs
    else if c.isDigit then c :: camelFrom true false false cs
    else camelFrom (isSeparator c) false false cs

/-- Whether the letter case or class changes between two neighbours, so that a word ends there. -/
def isTurn (c next : Char) : Bool :=
  (c.isUpper && (next.isLower || next.isDigit)) ||
    (c.isLower && (next.isUpper || next.isDigit)) ||
    (c.isDigit && next.isAlpha)

/-- Lower-case words divided by a delimiter. The last capital of a run starts the word that follows it. -/
def delimitedFrom (delimiter : Char) (afterCapital : Bool) : List Char → List Char
  | [] => []
  | c :: cs =>
    let plain := if isSeparator c then delimiter else c.toLower
    let written :=
      match cs with
      | [] => [plain]
      | next :: _ =>
        if isTurn c next then
          (if c.isUpper && next.isLower && afterCapital then [delimiter] else []) ++ [c.toLower] ++
            (if c.isLower || c.isDigit || next.isDigit then [delimiter] else [])
        else [plain]
    written ++ delimitedFrom delimiter c.isUpper cs

/-- A name in the given casing. -/
def Casing.apply (casing : Casing) (s : String) : String :=
  let cs := trimBoth isBlank s.toList
  match casing with
  | .pascal => String.ofList (camelFrom true true false cs)
  | .camel => String.ofList (camelFrom false true false cs)
  | .snake => String.ofList (delimitedFrom '_' false cs)
  | .kebab => String.ofList (delimitedFrom '-' false cs)
  | .verbatim => s

end ClientForge.Text
