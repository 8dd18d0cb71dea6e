import ClientForge.Number.Calendar
import ClientForge.Number.Double
import ClientForge.Text.Octets
import ClientForge.Yaml.Node

/-!
# What scalars mean

A plain scalar is null, a truth value, a number, a timestamp or a text, by its spelling; a quoted or block
scalar is a text. A tag in front of a scalar decides instead. The tags of null, truth values, numbers and
timestamps must agree with the spelling; with any other tag a scalar is a text.
-/

namespace ClientForge.Yaml

open ClientForge.Number

inductive Meaning where
  | null
  | truth (value : Bool)
  | whole (value : Int)
  | decimal (value : Decimal)
  /-- Not a number, or an infinity. -/
  | special
  | timestamp
  | text (value : String)
deriving DecidableEq, Repr

/-- The tag of a meaning. -/
def Meaning.tag : Meaning → String
  | .null => "!!null"
  | .truth _ => "!!bool"
  | .whole _ => "!!int"
  | .decimal _ | .special => "!!float"
  | .timestamp => "!!timestamp"
  | .text _ => "!!str"

/-! ### Numbers -/

/-- Reads digits behind the mark of their base. A leading zero marks base eight. -/
def natOfMarked : List Char → Option Nat
  | '0' :: c :: rest =>
    if c == 'x' || c == 'X' then natOfBase 16 rest
    else if c == 'o' || c == 'O' then natOfBase 8 rest
    else if c == 'b' || c == 'B' then natOfBase 2 rest
    else natOfBase 8 (c :: rest)
  | cs => natOfBase 10 cs

/-- A number of 64 bits by its sign and size: signed, or unsigned without a sign. -/
def numberOf (signed negative : Bool) (n : Nat) : Option Int :=
  if negative then (if n ≤ signedBound then some (-(n : Int)) else none)
  else if n < signedBound then some n
  else if n < unsignedBound && !signed then some n
  else none

/-- Reads a number whose sign stands behind the mark of base two or eight. -/
def innerSigned : List Char → Option Int
  | '0' :: c :: rest => do
    let base ← if c == 'b' then some 2 else if c == 'o' then some 8 else none
    let (negative, digits) := splitSign rest
    numberOf (digits.length != rest.length) negative (← natOfBase base digits)
  | _ => none

/-- Reads a whole number of 64 bits. -/
def wholeNumber (cs : List Char) : Option Int :=
  let (negative, digits) := splitSign cs
  ((natOfMarked digits).bind (numberOf (digits.length != cs.length) negative)).or (innerSigned cs)

/-- Reads a decimal number that is in the range of double precision. -/
def decimalNumber (cs : List Char) : Option Decimal :=
  (Decimal.ofChars? cs).filter fun d => (Double.ofDecimal d).isSome

/-- Whether every underscore stands between two digits. -/
def separatesDigits : (before : Bool) → List Char → Bool
  | _, [] => true
  | before, c :: cs =>
    (c != '_' || (before && cs.head?.any Char.isDigit)) && separatesDigits c.isDigit cs

/-- Reads a decimal number that starts with its point, in which underscores may separate digits. -/
def fractionNumber (cs : List Char) : Option Decimal :=
  if separatesDigits false cs then decimalNumber (cs.filter (· != '_')) else none

/-! ### Timestamps -/

/-- Reads one or two digits. -/
def shortNumber (cs : List Char) : Option (Nat × List Char) :=
  let digits := (cs.take 2).takeWhile Char.isDigit
  (natOfBase 10 digits).map fun n => (n, cs.drop digits.length)

def expectChar (c : Char) : List Char → Option (List Char)
  | d :: cs => if c == d then some cs else none
  | [] => none

/-- Reads a date: four digits, and a month and a day of one or two. -/
def dateFront (cs : List Char) : Option (List Char) := do
  let digits := cs.takeWhile Char.isDigit
  if digits.length != 4 then none
  let year ← natOfBase 10 digits
  let rest ← expectChar '-' (cs.drop 4)
  let (month, rest) ← shortNumber rest
  let rest ← expectChar '-' rest
  let (day, rest) ← shortNumber rest
  if isDate year month day then some rest else none

/-- Reads a time of day with an optional fraction of a second, behind a point or a comma. -/
def timeFront (cs : List Char) : Option (List Char) := do
  let (hour, rest) ← shortNumber cs
  let rest ← expectChar ':' rest
  let (minute, rest) ← shortNumber rest
  let rest ← expectChar ':' rest
  let (second, rest) ← shortNumber rest
  if hour ≥ 24 || minute ≥ 60 || second ≥ 60 then none
  match rest with
  | c :: fraction =>
    let digits := fraction.takeWhile Char.isDigit
    if (c == '.' || c == ',') && !digits.isEmpty then some (fraction.drop digits.length) else some rest
  | [] => some []

/-- Whether a text is a time zone: `Z`, or up to 24 hours and 60 minutes with a sign. -/
def isZone : List Char → Bool
  | ['Z'] => true
  | [sign, h, h', ':', m, m'] =>
    (sign == '+' || sign == '-') && [h, h', m, m'].all Char.isDigit &&
      digitValue h * 10 + digitValue h' ≤ 24 && digitValue m * 10 + digitValue m' ≤ 60
  | _ => false

def isTimestamp (cs : List Char) : Bool :=
  match dateFront cs with
  | none => false
  | some [] => true
  | some (c :: rest) =>
    if c == 'T' || c == 't' then (timeFront rest).any isZone
    else if c == ' ' then (timeFront (rest.dropWhile (· == ' '))).any (·.isEmpty)
    else false

/-! ### Spellings -/

/-- The spellings with a meaning of their own. -/
def spellings : List (String × Meaning) :=
  ["", "~", "null", "Null", "NULL"].map (·, .null) ++
  ["true", "True", "TRUE"].map (·, .truth true) ++
  ["false", "False", "FALSE"].map (·, .truth false) ++
  [".nan", ".NaN", ".NAN", ".inf", ".Inf", ".INF", "+.inf", "+.Inf", "+.INF", "-.inf", "-.Inf",
    "-.INF"].map (·, .special)

/-- What a plain scalar means. `tagged` says that a tag other than a timestamp's stands in front of it. -/
def meaningOf (tagged : Bool) (text : String) : Meaning :=
  match spellings.find? (·.1 == text) with
  | some (_, meaning) => meaning
  | none =>
    match text.toList with
    | [] => .null
    | c :: cs =>
      if c == '.' then
        match fractionNumber (c :: cs) with
        | some d => .decimal d
        | none => .text text
      else if c.isDigit || c == '+' || c == '-' then
        if !tagged && isTimestamp (c :: cs) then .timestamp
        else
          let plain := (c :: cs).filter (· != '_')
          match wholeNumber plain with
          | some n => .whole n
          | none =>
            match decimalNumber plain with
            | some d => .decimal d
            | none => .text text
      else .text text

/-- The tags that must agree with the spelling. -/
def spelledTags : List String := ["!!null", "!!bool", "!!int", "!!float", "!!timestamp"]

/-- What a scalar means with its tag. A tag that disagrees with the spelling is refused, but a whole number
that has a sign bit may be taken for a decimal one. -/
def scalarMeaning (tag : Option String) (style : ScalarStyle) (text : String) : Option Meaning :=
  match tag with
  | none => some (if style != .plain || text == "<<" then .text text else meaningOf false text)
  | some "!!binary" => (Text.Octets.ofBase64 text).map .text
  | some tag =>
    if !spelledTags.contains tag then some (.text text)
    else
      let meaning := meaningOf (tag != "!!timestamp") text
      if meaning.tag == tag then some meaning
      else match tag, meaning with
        | "!!float", .whole n => if n < signedBound then some (.decimal ⟨n < 0, n.natAbs, 0⟩) else none
        | _, _ => none

namespace Node

def line : Node → Nat
  | .scalar line .. | .sequence line .. | .mapping line .. | .reference line .. => line

/-- The tag messages show for a scalar. -/
def scalarTag (tag : Option String) (style : ScalarStyle) (text : String) : String :=
  match tag with
  | some tag => tag
  | none =>
    if style != .plain then "!!str" else if text == "<<" then "!!merge" else (meaningOf false text).tag

/-- Whether a key asks to merge the entries of its value. -/
def isMerge : Node → Bool
  | .scalar _ tag style text => text == "<<" && scalarTag tag style text == "!!merge"
  | _ => false

/-- Whether a node has the tag of null, written or by its spelling. -/
def isNull : Node → Bool
  | .scalar _ tag style text => scalarTag tag style text == "!!null"
  | .sequence _ tag _ | .mapping _ tag _ => tag == some "!!null"
  | .reference .. => false

end Node

end ClientForge.Yaml
