/-!
# Texts from bytes

The text that a run of bytes spells, where each byte that is part of no character shows as a mark, and the
bytes that letters of base 64 stand for. Bytes are numbers below 256.
-/

namespace ClientForge.Text.Octets

/-! ### Characters -/

/-- Shown in place of a byte that is part of no character. -/
def mark : Char := Char.ofNat 0xFFFD

/-- The number of bytes of a character, by its first byte. -/
def width (byte : Nat) : Option Nat :=
  if byte < 0x80 then some 1
  else if byte < 0xC0 then none
  else if byte < 0xE0 then some 2
  else if byte < 0xF0 then some 3
  else if byte < 0xF8 then some 4
  else none

/-- Whether a byte goes on with a character that an earlier one started. -/
def isTrailing (byte : Nat) : Bool := 0x80 ≤ byte && byte < 0xC0

/-- The number that the bytes of a character hold. -/
def codeOf : List Nat → Nat
  | [] => 0
  | [a] => a
  | [a, b] => a % 32 * 64 + b % 64
  | [a, b, c] => a % 16 * 4096 + b % 64 * 64 + c % 64
  | a :: b :: c :: d :: _ => a % 8 * 262144 + b % 64 * 4096 + c % 64 * 64 + d % 64

/-- The character that exactly these bytes are. A longer spelling than needed is none. -/
def charOf? (bytes : List Nat) : Option Char :=
  let code := codeOf bytes
  if bytes.tail.all isTrailing && code.isValidChar && (Char.ofNat code).utf8Size == bytes.length then
    some (Char.ofNat code)
  else none

/-- The characters of a run of bytes. -/
def chars : List Nat → List Char
  | [] => []
  | byte :: rest =>
    let more := (width byte).getD 1 - 1
    match charOf? (byte :: rest.take more) with
    | some c => c :: chars (rest.drop more)
    | none => mark :: chars rest
termination_by bytes => bytes.length
decreasing_by
  · simp only [List.length_drop, List.length_cons]; omega
  · simp

/-! ### Base 64 -/

/-- The six bits that a letter stands for. -/
def sextet (c : Char) : Option Nat :=
  if c.isUpper then some (c.toNat - 'A'.toNat)
  else if c.isLower then some (c.toNat - 'a'.toNat + 26)
  else if c.isDigit then some (c.toNat - '0'.toNat + 52)
  else if c == '+' then some 62
  else if c == '/' then some 63
  else none

/-- The bytes of groups of four letters. Equal signs fill up the last group. -/
def ofGroups : List Char → Option (List Nat)
  | [] => some []
  | [a, b, '=', '='] => do
    let bits := (← sextet a) * 64 + (← sextet b)
    pure [bits / 16]
  | [a, b, c, '='] => do
    let bits := ((← sextet a) * 64 + (← sextet b)) * 64 + (← sextet c)
    pure [bits / 1024, bits / 4 % 256]
  | a :: b :: c :: d :: rest => do
    let bits := (((← sextet a) * 64 + (← sextet b)) * 64 + (← sextet c)) * 64 + (← sextet d)
    pure (bits / 65536 :: bits / 256 % 256 :: bits % 256 :: (← ofGroups rest))
  | _ => none

/-- The text that a text in base 64 stands for. Line ends between the letters do not count. -/
def ofBase64 (text : String) : Option String :=
  (ofGroups (text.toList.filter fun c => c != '\n' && c != '\r')).map fun bytes => String.ofList (chars bytes)

end ClientForge.Text.Octets
