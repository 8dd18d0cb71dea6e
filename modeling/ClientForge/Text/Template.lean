import ClientForge.Number.Decimal
import ClientForge.Text.Shown

/-!
# Texts with places for arguments

A place is a percent sign, flags, a width, a precision and a verb that says how to write the argument. Where
verb and argument do not go together, or one of them is missing, the text says so.
-/

namespace ClientForge.Text

inductive Argument where
  | text (value : String)
  | number (value : Int)

/-- How a place wants its argument to look. -/
structure Place where
  flags : List Char := []
  width : Nat := 0
  precision : Option Nat := none

namespace Place

/-- Fills up to the width, at the end if the flags say so. -/
def pad (p : Place) (filler : Char) (s : List Char) : List Char :=
  let gap := p.width - s.length
  if p.flags.contains '-' then s ++ List.replicate gap ' ' else List.replicate gap filler ++ s

/-- Fills up to the width with what the flags name. -/
def padText (p : Place) (s : List Char) : List Char := p.pad (if p.flags.contains '0' then '0' else ' ') s

/-- As much of a text as the precision admits. -/
def cut (p : Place) (s : List Char) : List Char := s.take (p.precision.getD s.length)

/-! ### Numbers -/

/-- The sign of a number, if it shows one. -/
def sign (p : Place) (n : Int) : List Char :=
  if n < 0 then ['-'] else if p.flags.contains '+' then ['+'] else if p.flags.contains ' ' then [' '] else []

/-- How many digits a number has at least. Zeros fill the width only in front, and only without a
precision. -/
def leastDigits (p : Place) (n : Int) : Nat :=
  match p.precision with
  | some least => least
  | none => if p.flags.contains '0' && !p.flags.contains '-' then p.width - (p.sign n).length else 0

/-- The mark of a base in front of digits. -/
def baseMark (p : Place) (verb : Char) (digits : List Char) : List Char :=
  let marked := p.flags.contains '#'
  match verb with
  | 'b' => if marked then ['0', 'b'] else []
  | 'o' => if marked && digits.head? != some '0' then ['0'] else []
  | 'O' => if marked && digits.head? != some '0' then ['0', 'o', '0'] else ['0', 'o']
  | 'x' | 'X' => if marked then ['0', verb] else []
  | _ => []

/-- A number in the base of its verb. A zero of no digits is nothing. -/
def digitsOf (p : Place) (verb : Char) (n : Int) : List Char :=
  let base := match verb with
    | 'b' => 2
    | 'o' | 'O' => 8
    | 'x' | 'X' => 16
    | _ => 10
  if p.precision == some 0 && n == 0 then List.replicate p.width ' '
  else
    let digits := Nat.toDigits base n.natAbs
    let digits := if verb == 'X' then digits.map Char.toUpper else digits
    let digits := List.replicate (p.leastDigits n - digits.length) '0' ++ digits
    p.pad ' ' (p.sign n ++ p.baseMark verb digits ++ digits)

/-- The character with a code. -/
def charOf (n : Int) : Char :=
  if n < 0 || n ≥ 0x110000 || (0xD800 ≤ n && n < 0xE000) then Char.ofNat 0xFFFD else Char.ofNat n.toNat

/-- A character between single quotes. -/
def quotedChar (c : Char) : List Char :=
  let inner := if c == '"' then [c] else if c == '\'' then ['\\', c] else shownChar c
  '\'' :: inner ++ ['\'']

/-- The number of a character. -/
def codePoint (p : Place) (n : Int) : List Char :=
  let c := charOf n
  let named := p.flags.contains '#' && c.toNat == n.toNat && isPrintable c
  let digits := Nat.toDigits 16 n.natAbs
  let least := max 4 (p.precision.getD 0)
  'U' :: '+' :: List.replicate (least - digits.length) '0' ++ digits.map Char.toUpper ++
    if named then [' ', '\'', c, '\''] else []

/-- Writes a number, if the verb is one for numbers. -/
def number? (p : Place) (verb : Char) (n : Int) : Option (List Char) :=
  match verb with
  | 'd' | 'b' | 'o' | 'O' | 'x' | 'X' => some (p.digitsOf verb n)
  | 'v' => some ({ p with flags := p.flags.filter fun f => f != '+' && f != '#' }.digitsOf verb n)
  | 'c' => some (p.padText [charOf n])
  | 'q' => some (p.padText (quotedChar (charOf n)))
  | 'U' => some (p.pad ' ' (p.codePoint n))
  | _ => none

/-! ### Texts -/

/-- The bytes of a text in hexadecimal. -/
def bytesOf (p : Place) (verb : Char) (s : String) : List Char :=
  let bytes := s.toUTF8.toList
  let bytes := (bytes.take (p.precision.getD bytes.length)).map fun b => hexDigits 2 b.toNat
  let bytes := if verb == 'X' then bytes.map (·.map Char.toUpper) else bytes
  let mark := if p.flags.contains '#' then ['0', verb] else []
  if bytes.isEmpty then []
  else if p.flags.contains ' ' then List.intercalate [' '] (bytes.map (mark ++ ·))
  else mark ++ bytes.flatten

/-- Writes a text, if the verb is one for texts. -/
def text? (p : Place) (verb : Char) (s : String) : Option (List Char) :=
  let quoted := p.padText (shown (String.ofList (p.cut s.toList))).toList
  match verb with
  | 's' => some (p.padText (p.cut s.toList))
  | 'v' => some (if p.flags.contains '#' then quoted else p.padText (p.cut s.toList))
  | 'q' => some quoted
  | 'x' | 'X' => some (p.padText (p.bytesOf verb s))
  | _ => none

end Place

/-! ### Arguments -/

namespace Argument

/-- What messages call the type of an argument. -/
def kind : Argument → String
  | text _ => "string"
  | number _ => "int"

def write? (p : Place) (verb : Char) : Argument → Option (List Char)
  | text s => p.text? verb s
  | number n => p.number? verb n

/-- An argument with its type. -/
def named (p : Place) (a : Argument) : List Char :=
  a.kind.toList ++ '=' :: (a.write? p 'v').getD []

/-- Writes an argument in its place. A verb that does not fit it is told. -/
def write (p : Place) (verb : Char) (a : Argument) : List Char :=
  if verb == 'T' then p.padText (p.cut a.kind.toList)
  else (a.write? p verb).getD ('%' :: '!' :: verb :: '(' :: a.named p ++ [')'])

end Argument

/-! ### Templates -/

/-- Reads digits in front. -/
def count (cs : List Char) : Option Nat × List Char :=
  let (digits, rest) := cs.span Char.isDigit
  (Number.natOfBase 10 digits, rest)

def isFlag (c : Char) : Bool := c == '#' || c == '0' || c == '+' || c == '-' || c == ' '

/-- Reads a place up to its verb. -/
def placeFront (cs : List Char) : Place × List Char :=
  let (flags, rest) := cs.span isFlag
  let (width, rest) := count rest
  match rest with
  | '.' :: rest =>
    let (precision, rest) := count rest
    ({ flags, width := width.getD 0, precision := some (precision.getD 0) }, rest)
  | rest => ({ flags, width := width.getD 0 }, rest)

/-- Tells of the arguments that have no place. -/
def extra (args : List Argument) : List Char :=
  if args.isEmpty then []
  else "%!(EXTRA ".toList ++ List.intercalate [',', ' '] (args.map (·.named {})) ++ [')']

def fillFrom : (bound : Nat) → List Char → List Argument → List Char
  | 0, _, _ => []
  | _, [], args => extra args
  | bound + 1, c :: cs, args =>
    if c != '%' then c :: fillFrom bound cs args
    else
      let (place, rest) := placeFront cs
      match rest, args with
      | [], _ => "%!(NOVERB)".toList ++ extra args
      | '%' :: rest, _ => '%' :: fillFrom bound rest args
      | verb :: rest, [] => '%' :: '!' :: verb :: "(MISSING)".toList ++ fillFrom bound rest []
      | verb :: rest, a :: args => a.write place verb ++ fillFrom bound rest args

/-- Puts arguments into the places of a text, one after the other. -/
def fill (template : String) (args : List Argument) : String :=
  String.ofList (fillFrom (template.length + 1) template.toList args)

end ClientForge.Text
