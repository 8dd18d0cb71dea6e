/-!
# Decimal numbers

Reading numbers from digits, and decimal numbers as they are written: some digits and a power of ten.
-/

namespace ClientForge.Number

/-- The value of a digit or letter. Other characters have a value beyond every base. -/
def digitValue (c : Char) : Nat :=
  if c.isDigit then c.toNat - '0'.toNat
  else if c.isLower then c.toNat - 'a'.toNat + 10
  else if c.isUpper then c.toNat - 'A'.toNat + 10
  else 255

/-- Reads digits of a base. -/
def natOfBase (base : Nat) (cs : List Char) : Option Nat :=
  if cs.isEmpty then none
  else cs.foldlM (fun n c => if digitValue c < base then some (base * n + digitValue c) else none) 0

/-- Reads a number of `width` digits off the front. -/
def natFront (base width : Nat) (cs : List Char) : Option (Nat × List Char) :=
  if cs.length < width then none
  else (natOfBase base (cs.take width)).map (·, cs.drop width)

def splitSign : List Char → Bool × List Char
  | '-' :: cs => (true, cs)
  | '+' :: cs => (false, cs)
  | cs => (false, cs)

/-- The first number beyond the signed ones of 64 bits. -/
def signedBound : Nat := Nat.pow 2 63

/-- The first number beyond those of 64 bits. -/
def unsignedBound : Nat := Nat.pow 2 64

/-- A decimal number: `digits` times ten to the `exponent`. -/
structure Decimal where
  negative : Bool
  digits : Nat
  exponent : Int
deriving DecidableEq, Repr

/-- Reads a decimal number with an optional fraction and exponent. -/
def Decimal.ofChars? (cs : List Char) : Option Decimal :=
  let (negative, unsigned) := splitSign cs
  let (whole, rest) := unsigned.span Char.isDigit
  let (fraction, rest, dotted) := match rest with
    | '.' :: rest => let (f, r) := rest.span Char.isDigit; (f, r, true)
    | rest => ([], rest, false)
  let exponent : Option Int := match rest with
    | [] => some 0
    | e :: rest =>
      if e == 'e' || e == 'E' then
        let (negative, digits) := splitSign rest
        (natOfBase 10 digits).map fun n => if negative then -(n : Int) else n
      else none
  if whole.isEmpty && fraction.isEmpty then none
  else if whole.isEmpty && !dotted then none
  else do
    let e ← exponent
    let digits ← natOfBase 10 (whole ++ fraction)
    pure ⟨negative, digits, e - fraction.length⟩

end ClientForge.Number
