import ClientForge.Number.Calendar
import ClientForge.Settings.Json

/-!
# TOML scalars

Each reader takes something off the front of a text: a gap, a string, a number, or a date or time. Nothing
comes out where the text is not TOML.
-/

namespace ClientForge.Settings.Toml

open ClientForge.Number

/-! ### Gaps -/

def isSpace (c : Char) : Bool := c == ' ' || c == '\t'

def skipSpace (cs : List Char) : List Char := cs.dropWhile isSpace

/-- Whether a character may not stand in a comment or string. -/
def isControl (c : Char) : Bool := (c.toNat < 0x20 && c != '\t') || c.toNat == 0x7F

/-- Takes the end of a line off the front. -/
def lineEnd? : List Char → Option (List Char)
  | '\n' :: rest | '\r' :: '\n' :: rest => some rest
  | _ => none

/-- Skips a comment, up to the end of its line. -/
def skipComment (cs : List Char) : Option (List Char) :=
  match skipSpace cs with
  | '#' :: rest =>
    let rest := rest.dropWhile fun c => !isControl c
    if rest.isEmpty || (lineEnd? rest).isSome then some rest else none
  | rest => some rest

/-- Skips spaces, comments and line ends. -/
def skipLines : (bound : Nat) → List Char → Option (List Char)
  | 0, _ => none
  | bound + 1, cs => do
    let rest ← skipComment cs
    match lineEnd? rest with
    | some rest => skipLines bound rest
    | none => pure rest

/-- What follows the end of a line, which nothing but a comment may come before. -/
def endOfLine (cs : List Char) : Option (List Char) := do
  let rest ← skipComment cs
  if rest.isEmpty then some [] else lineEnd? rest

/-! ### Strings -/

def simpleEscape : Char → Option Char
  | '"' => some '"'
  | '\\' => some '\\'
  | 'b' => some (Char.ofNat 8)
  | 'e' => some (Char.ofNat 27)
  | 'f' => some (Char.ofNat 12)
  | 'n' => some '\n'
  | 'r' => some '\r'
  | 't' => some '\t'
  | _ => none

/-- Reads an escape behind its backslash. -/
def escape : List Char → Option (Char × List Char)
  | c :: rest =>
    let width := if c == 'u' then 4 else if c == 'U' then 8 else 0
    if width = 0 then (simpleEscape c).map (·, rest)
    else do
      let (code, rest) ← natFront 16 width rest
      if code < 0xD800 || (0xE000 ≤ code && code < 0x110000) then some (Char.ofNat code, rest) else none
  | [] => none

/-- Whether a backslash ends a line, and what follows the blanks behind it. -/
def continuation? (cs : List Char) : Option (List Char) :=
  let rest := skipSpace cs
  (lineEnd? rest).map fun rest => rest.dropWhile fun c => isSpace c || c == '\n' || c == '\r'

/-- Reads a string on one line behind its opening quote. -/
def lineString (quote : Char) : (bound : Nat) → List Char → Option (List Char × List Char)
  | 0, _ | _, [] => none
  | bound + 1, c :: rest => do
    if c == quote then pure ([], rest)
    else if isControl c then none
    else
      let (c, rest) ← if c == '\\' && quote == '"' then escape rest else some (c, rest)
      let (tail, rest) ← lineString quote bound rest
      pure (c :: tail, rest)

/-- Reads a string over several lines behind its opening quotes. Up to two quotes may stand before the three
that close it. -/
def blockString (quote : Char) : (bound : Nat) → List Char → Option (List Char × List Char)
  | 0, _ | _, [] => none
  | bound + 1, c :: rest =>
    if c == quote then
      let run := (c :: rest).takeWhile (· == quote)
      if run.length > 5 then none
      else if run.length ≥ 3 then some (run.drop 3, (c :: rest).drop run.length)
      else (blockString quote bound rest).map fun (tail, rest) => (c :: tail, rest)
    else if c == '\\' && quote == '"' then
      match continuation? rest with
      | some rest => blockString quote bound rest
      | none => do
        let (c, rest) ← escape rest
        let (tail, rest) ← blockString quote bound rest
        pure (c :: tail, rest)
    else if isControl c && (lineEnd? (c :: rest)).isNone then none
    else (blockString quote bound rest).map fun (tail, rest) => (c :: tail, rest)

/-- Reads a string with its quotes. The first line end of a block is dropped. -/
def string (cs : List Char) : Option (String × List Char) :=
  match cs with
  | quote :: rest =>
    let body :=
      match [quote, quote].isPrefixOf? rest with
      | some block => blockString quote (cs.length + 1) ((lineEnd? block).getD block)
      | none => lineString quote (cs.length + 1) rest
    body.map fun (s, rest) => (String.ofList s, rest)
  | [] => none

/-! ### Numbers -/

/-- Drops the underscores between digits, and refuses others. -/
def ungrouped (isDigit : Char → Bool) : List Char → Option (List Char)
  | [] => some []
  | [c] => if c == '_' then none else some [c]
  | '_' :: _ => none
  | c :: '_' :: d :: rest =>
    if isDigit c && isDigit d then (ungrouped isDigit (d :: rest)).map (c :: ·) else none
  | c :: rest => (ungrouped isDigit rest).map (c :: ·)

/-- Reads a whole number of 64 bits in a base that its front names. -/
def marked (base : Nat) (digits : List Char) : Option Value := do
  let plain ← ungrouped (digitValue · < base) digits
  let n ← natOfBase base plain
  if n < signedBound then some (.whole n) else none

/-- Reads a number without a base in front. -/
def plainNumber (cs : List Char) : Option Value := do
  let plain ← ungrouped Char.isDigit cs
  let (negative, unsigned) := splitSign plain
  if !Json.isWellSpelled unsigned then none
  if unsigned.all Char.isDigit then
    let n ← natOfBase 10 unsigned
    let signed : Int := if negative then -(n : Int) else n
    if -signedBound ≤ signed && signed < signedBound then some (.whole signed) else none
  else
    let d ← Decimal.ofChars? plain
    if (Double.ofDecimal d).isNone then none
    some (.decimal d)

/-! ### Dates and times -/

/-- Skips a date of four, two and two digits. -/
def skipDate (cs : List Char) : Option (List Char) := do
  let (year, rest) ← natFront 10 4 cs
  let (month, rest) ← natFront 10 2 (← ['-'].isPrefixOf? rest)
  let (day, rest) ← natFront 10 2 (← ['-'].isPrefixOf? rest)
  if isDate year month day then some rest else none

/-- Skips a time of day with an optional fraction of a second. A leap second may be added to a minute. -/
def skipTime (cs : List Char) : Option (List Char) := do
  let (hour, rest) ← natFront 10 2 cs
  let (minute, rest) ← natFront 10 2 (← [':'].isPrefixOf? rest)
  let (second, rest) ← natFront 10 2 (← [':'].isPrefixOf? rest)
  if hour > 23 || minute > 59 || second > 60 then none
  match rest with
  | '.' :: fraction => if fraction.head?.any Char.isDigit then some (fraction.dropWhile Char.isDigit) else none
  | _ => some rest

/-- Skips a distance from universal time, if there is one. -/
def skipZone : List Char → Option (List Char)
  | 'Z' :: rest | 'z' :: rest => some rest
  | '+' :: cs | '-' :: cs => do
    let (hour, rest) ← natFront 10 2 cs
    let (minute, rest) ← natFront 10 2 (← [':'].isPrefixOf? rest)
    if hour > 23 || minute > 59 then none else some rest
  | cs => some cs

/-- Whether a text starts as a date or as a time does. -/
def startsMoment (cs : List Char) : Bool :=
  let (digits, rest) := cs.span Char.isDigit
  (digits.length == 4 && rest.head? == some '-') || (digits.length == 2 && rest.head? == some ':')

/-- Skips a time, or a date behind which a time and its zone may follow. -/
def skipMoment (cs : List Char) : Option (List Char) :=
  if (cs.drop 2).head? == some ':' then skipTime cs
  else do
    let rest ← skipDate cs
    match rest with
    | 'T' :: time | 't' :: time => (skipTime time).bind skipZone
    | ' ' :: time => if time.head?.any Char.isDigit then (skipTime time).bind skipZone else some rest
    | _ => some rest

/-! ### Scalars -/

def isScalarChar (c : Char) : Bool := c.isAlphanum || c == '_' || c == '+' || c == '-' || c == '.'

/-- Reads a number or a word with a meaning of its own. -/
def scalar (cs : List Char) : Option Value :=
  match cs with
  | '0' :: 'x' :: digits => marked 16 digits
  | '0' :: 'o' :: digits => marked 8 digits
  | '0' :: 'b' :: digits => marked 2 digits
  | _ =>
    let spelling := String.ofList cs
    if spelling == "true" then some (.truth true)
    else if spelling == "false" then some (.truth false)
    else if spelling == "inf" || spelling == "+inf" then some (.infinity false)
    else if spelling == "-inf" then some (.infinity true)
    else if spelling == "nan" || spelling == "+nan" || spelling == "-nan" then some .notNumber
    else plainNumber cs

/-- Reads what is neither a string nor a list nor a table. -/
def scalarFront (cs : List Char) : Option (Value × List Char) :=
  if startsMoment cs then (skipMoment cs).map (.moment, ·)
  else
    let (spelling, rest) := cs.span isScalarChar
    (scalar spelling).map (·, rest)

end ClientForge.Settings.Toml
