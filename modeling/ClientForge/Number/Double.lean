import ClientForge.Number.Decimal

/-!
# Binary numbers of double precision

The double nearest to a decimal number, the fewest digits that lead back to a double, and the whole part of
a double. All of it is exact arithmetic on natural numbers.
-/

namespace ClientForge.Number

/-- A finite double: `mantissa` times two to the `exponent`, where the mantissa has at most 53 bits. -/
structure Double where
  negative : Bool
  mantissa : Nat
  exponent : Int
deriving DecidableEq, Repr

/-- The natural number nearest to a quotient. A half goes to the even neighbour. -/
def roundDiv (n d : Nat) : Nat :=
  let q := n / d
  let twice := 2 * (n % d)
  if twice < d then q else if d < twice then q + 1 else if q % 2 = 0 then q else q + 1

/-- A power of a base above the line and one below it, for an exponent of either sign. -/
def scale (base : Nat) (exponent : Int) : Nat × Nat :=
  if exponent ≥ 0 then (Nat.pow base exponent.toNat, 1) else (1, Nat.pow base (-exponent).toNat)

namespace Double

/-- The double nearest to `n / d`, if it is in range. -/
def ofQuotient (negative : Bool) (n d : Nat) : Option Double :=
  if n = 0 then some ⟨negative, 0, 0⟩
  else
    let low : Int := (n.log2 : Int) - d.log2 - 52
    let fits (e : Int) : Bool :=
      let (up, down) := scale 2 e
      decide (Nat.pow 2 52 * (d * up) ≤ n * down)
    let e := max (if fits low then low else low - 1) (-1074)
    let (up, down) := scale 2 e
    let m := roundDiv (n * down) (d * up)
    let (m, e) := if m = Nat.pow 2 53 then (Nat.pow 2 52, e + 1) else (m, e)
    if e > 971 then none else some ⟨negative, m, e⟩

/-- The double nearest to a decimal number. Numbers far out of range are told apart by their digits. -/
def ofDecimal (x : Decimal) : Option Double :=
  let places : Int := (Nat.toDigits 10 x.digits).length + x.exponent
  if x.digits = 0 || places < -400 then some ⟨x.negative, 0, 0⟩
  else if places > 400 then none
  else
    let (up, down) := scale 10 x.exponent
    ofQuotient x.negative (x.digits * up) down

/-- The whole part, without the fraction. -/
def truncate (x : Double) : Int :=
  let (up, down) := scale 2 x.exponent
  let n := x.mantissa * up / down
  if x.negative then -(n : Int) else n

/-- The nearest decimal number below and above with its last digit at a power of ten, the nearer one first. -/
def neighbours (x : Double) (power : Int) : List Decimal :=
  let (up, down) := scale 2 x.exponent
  let (up', down') := scale 10 power
  let n := x.mantissa * up * down'
  let d := down * up'
  let low := n / d
  let near := roundDiv n d
  [near, if near = low then low + 1 else low].map (⟨x.negative, ·, power⟩)

/-- The decimal number with the fewest digits that leads back to a double, and of those the nearest. -/
def shortest (x : Double) : Decimal :=
  if x.mantissa = 0 then ⟨x.negative, 0, 0⟩
  else
    let (up, down) := scale 2 x.exponent
    let whole := x.mantissa * up / down
    let top : Int :=
      if whole > 0 then (Nat.toDigits 10 whole).length
      else -((Nat.toDigits 10 (down / (x.mantissa * up))).length : Int) + 1
    let tries := (List.range 18).flatMap fun (k : Nat) => x.neighbours (top - k)
    (tries.find? fun d => ofDecimal d == some x).getD ⟨x.negative, x.mantissa, 0⟩

end Double

/-- A decimal number without a power of ten. -/
def Decimal.positional (x : Decimal) : String :=
  let digits := Nat.toDigits 10 x.digits
  let text :=
    if x.exponent ≥ 0 then digits ++ (if x.digits = 0 then [] else List.replicate x.exponent.toNat '0')
    else
      let places := (-x.exponent).toNat
      let padded := List.replicate (places + 1 - digits.length) '0' ++ digits
      padded.take (padded.length - places) ++ ['.'] ++ padded.drop (padded.length - places)
  String.ofList (if x.negative then '-' :: text else text)

/-- A decimal number without zeros at its end. -/
def Decimal.trimmed (x : Decimal) : Decimal :=
  let zeros := ((Nat.toDigits 10 x.digits).reverse.takeWhile (· == '0')).length
  if x.digits = 0 then { x with exponent := 0 }
  else { x with digits := x.digits / Nat.pow 10 zeros, exponent := x.exponent + zeros }

/-- A decimal number in the shorter of two ways to write it: without a power of ten from 0.0001 up to a
million, and with one otherwise. -/
def Decimal.general (x : Decimal) : String :=
  let short := x.trimmed
  let digits := Nat.toDigits 10 short.digits
  let power : Int := digits.length - 1 + short.exponent
  if -4 ≤ power && power < 6 then short.positional
  else
    let fraction := if digits.length > 1 then '.' :: digits.drop 1 else []
    let exponent := Nat.toDigits 10 power.natAbs
    let padded := if exponent.length < 2 then '0' :: exponent else exponent
    String.ofList ((if x.negative then ['-'] else []) ++ digits.take 1 ++ fraction ++
      ['e', if power < 0 then '-' else '+'] ++ padded)

end ClientForge.Number
