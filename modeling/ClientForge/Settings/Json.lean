import ClientForge.Settings.Value
import ClientForge.Text.Blank

/-!
# JSON settings

Each reader takes something off the front of a text and returns it with what follows, and nothing where the
text is not JSON. Every number has double precision.
-/

namespace ClientForge.Settings.Json

open ClientForge.Number

def isGap (c : Char) : Bool := c == ' ' || c == '\t' || c == '\n' || c == '\r'

def skipGap (cs : List Char) : List Char := cs.dropWhile isGap

/-! ### Strings -/

/-- What stands in the place of a character that there is not. -/
def replacement : Char := Char.ofNat 0xFFFD

/-- Whether a code is the first half of a pair that stands for one character. -/
def isFirstHalf (code : Nat) : Bool := 0xD800 ≤ code && code < 0xDC00

def isSecondHalf (code : Nat) : Bool := 0xDC00 ≤ code && code < 0xE000

/-- Reads the character of a numeric escape, which may take two codes. A half without the other is
replaced. -/
def numericEscape (cs : List Char) : Option (Char × List Char) := do
  let (code, rest) ← natFront 16 4 cs
  if isFirstHalf code then
    match rest with
    | '\\' :: 'u' :: more =>
      let (second, after) ← natFront 16 4 more
      if isSecondHalf second then
        pure (Char.ofNat (0x10000 + (code - 0xD800) * 0x400 + (second - 0xDC00)), after)
      else pure (replacement, rest)
    | _ => pure (replacement, rest)
  else if isSecondHalf code then pure (replacement, rest)
  else pure (Char.ofNat code, rest)

def simpleEscape : Char → Option Char
  | '"' => some '"'
  | '\\' => some '\\'
  | '/' => some '/'
  | 'b' => some (Char.ofNat 8)
  | 'f' => some (Char.ofNat 12)
  | 'n' => some '\n'
  | 'r' => some '\r'
  | 't' => some '\t'
  | _ => none

/-- Reads one character of a string. -/
def stringChar : List Char → Option (Char × List Char)
  | '\\' :: 'u' :: rest => numericEscape rest
  | '\\' :: c :: rest => (simpleEscape c).map (·, rest)
  | c :: rest => if c == '\\' || c.toNat < 0x20 then none else some (c, rest)
  | [] => none

/-- Reads a string behind its opening quote. -/
def stringTail : (bound : Nat) → List Char → Option (List Char × List Char)
  | 0, _ => none
  | _, '"' :: rest => some ([], rest)
  | bound + 1, cs => do
    let (c, rest) ← stringChar cs
    let (tail, rest) ← stringTail bound rest
    pure (c :: tail, rest)

/-- Reads a string behind its opening quote. -/
def string (cs : List Char) : Option (String × List Char) :=
  (stringTail (cs.length + 1) cs).map fun (s, rest) => (String.ofList s, rest)

/-! ### Numbers -/

/-- The parts of a number end where a character can no longer belong to it. -/
def isNumberChar (c : Char) : Bool := c.isDigit || c == '.' || c == 'e' || c == 'E' || c == '+' || c == '-'

/-- Whether a number without its sign has a digit on both sides of its point, and no zero in front of its
other digits. -/
def isWellSpelled (unsigned : List Char) : Bool :=
  let (whole, rest) := unsigned.span Char.isDigit
  let front := match whole with
    | [] => false
    | ['0'] => true
    | c :: _ => c != '0'
  let back := match rest with
    | '.' :: c :: _ => c.isDigit
    | ['.'] => false
    | _ => true
  front && back

/-- Reads a number. -/
def number (cs : List Char) : Option (Value × List Char) := do
  let (spelling, rest) := cs.span isNumberChar
  let unsigned := match spelling with
    | '-' :: unsigned => unsigned
    | unsigned => unsigned
  if !isWellSpelled unsigned then none
  let value ← Decimal.ofChars? spelling
  if (Double.ofDecimal value).isNone then none
  pure (.decimal value, rest)

/-! ### Values -/

/-- Reads a word with a meaning of its own. -/
def word (cs : List Char) : Option (Value × List Char) :=
  [("null", Value.null), ("true", .truth true), ("false", .truth false)].findSome? fun (name, v) =>
    (name.toList.isPrefixOf? cs).map (v, ·)

/-- How deep lists and groups may be nested. -/
def maxDepth : Nat := 10000

mutual

/-- Reads a value that has at most `depth` lists and groups in one another. -/
def value : (bound depth : Nat) → List Char → Option (Value × List Char)
  | 0, _, _ | _, _, [] => none
  | bound + 1, depth, c :: cs =>
    if c == '"' then (string cs).map fun (s, rest) => (.text s, rest)
    else if c == '-' || c.isDigit then number (c :: cs)
    else if c != '[' && c != '\x7b' then word (c :: cs)
    else if depth = 0 then none
    else if c == '[' then (items bound (depth - 1) true (skipGap cs)).map fun (vs, rest) => (.list vs, rest)
    else (entries bound (depth - 1) true (skipGap cs)).map fun (es, rest) => (.group es.reverse, rest)

/-- Reads the items of a list. Only at its start may there be none. -/
def items : (bound depth : Nat) → (start : Bool) → List Char → Option (List Value × List Char)
  | 0, _, _, _ => none
  | _, _, true, ']' :: rest => some ([], rest)
  | bound + 1, depth, _, cs => do
    let (v, rest) ← value bound depth cs
    match skipGap rest with
    | ',' :: more =>
      let (vs, rest) ← items bound depth false (skipGap more)
      pure (v :: vs, rest)
    | ']' :: more => pure ([v], more)
    | _ => none

/-- Reads the entries of a group. Of a repeated key the last one counts. -/
def entries : (bound depth : Nat) → (start : Bool) → List Char → Option (List (String × Value) × List Char)
  | 0, _, _, _ => none
  | _, _, true, '\x7d' :: rest => some ([], rest)
  | bound + 1, depth, _, '"' :: cs => do
    let (key, rest) ← string cs
    match skipGap rest with
    | ':' :: more =>
      let (v, rest) ← value bound depth (skipGap more)
      match skipGap rest with
      | ',' :: more =>
        let (es, rest) ← entries bound depth false (skipGap more)
        pure ((key, v) :: es, rest)
      | '\x7d' :: more => pure ([(key, v)], more)
      | _ => none
    | _ => none
  | _, _, _, _ => none

end

/-- Reads a text that is one group, or null for an empty one. -/
def read (text : String) : Option Value := do
  let cs := text.toList
  let (v, rest) ← value (cs.length + 1) maxDepth (skipGap cs)
  if !(skipGap rest).isEmpty then none
  match v with
  | .group es => some (.group es)
  | .null => some (.group [])
  | _ => none

end ClientForge.Settings.Json
