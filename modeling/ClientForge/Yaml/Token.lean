/-!
# YAML tokens

The vocabulary of a YAML text: scalars, flow and block indicators, and the starts and ends of block
collections that indentation implies. A token remembers the line it starts on, because messages about a
document name lines.
-/

namespace ClientForge.Yaml

inductive ScalarStyle where
  | plain
  | single
  | double
  | literal
  | folded
deriving DecidableEq, Repr

inductive Lexeme where
  | streamEnd
  | versionDirective (major minor : Nat)
  | tagDirective (handle expansion : String)
  | documentStart
  | documentEnd
  | blockSequenceStart
  | blockMappingStart
  | blockEnd
  | flowSequenceStart
  | flowSequenceEnd
  | flowMappingStart
  | flowMappingEnd
  | blockEntry
  | flowEntry
  | key
  | value
  | reference (anchor : String)
  | anchor (name : String)
  | tag (handle suffix : String)
  | scalar (text : String) (style : ScalarStyle)
deriving DecidableEq, Repr

structure Token where
  lexeme : Lexeme
  line : Nat
deriving Repr

/-! ### Characters in their places -/

/-- A character of a text with the line, the column and the index it stands at, counted from zero. -/
structure Glyph where
  char : Char
  line : Nat
  column : Nat
  index : Nat

/-- Line ends: carriage return, line feed, next line, line separator and paragraph separator. -/
def isBreak (c : Char) : Bool :=
  c == '\n' || c == '\r' || c.toNat == 0x85 || c.toNat == 0x2028 || c.toNat == 0x2029

def isGap (c : Char) : Bool := c == ' ' || c == '\t'

def isWordChar (c : Char) : Bool := c.isAlphanum || c == '_' || c == '-'

/-- The characters a text may hold. -/
def isAllowed (c : Char) : Bool :=
  let n := c.toNat
  n == 0x09 || n == 0x0A || n == 0x0D || (0x20 ≤ n && n ≤ 0x7E) || n == 0x85 ||
    (0xA0 ≤ n && n ≤ 0xD7FF) || (0xE000 ≤ n && n ≤ 0xFFFD) || 0x10000 ≤ n

/-- The characters of a text in their places. A carriage return and the line feed behind it are one
character, so that every line end is one. -/
def glyphsFrom (line column index : Nat) : List Char → List Glyph
  | [] => []
  | '\r' :: '\n' :: cs => ⟨'\n', line, column, index⟩ :: glyphsFrom (line + 1) 0 (index + 2) cs
  | c :: cs =>
    ⟨c, line, column, index⟩ ::
      (if isBreak c then glyphsFrom (line + 1) 0 (index + 1) cs
       else glyphsFrom line (column + 1) (index + 1) cs)

def glyphs (cs : List Char) : List Glyph := glyphsFrom 0 0 0 cs

/-! ### Where a text stands -/

def charAt : List Glyph → Option Char
  | [] => none
  | g :: _ => some g.char

def columnAt : List Glyph → Nat
  | [] => 0
  | g :: _ => g.column

/-- Whether a text is at a blank, at a line end or over. -/
def atBlank : List Glyph → Bool
  | [] => true
  | g :: _ => isGap g.char || isBreak g.char

/-- Whether a text is at a line end or over. -/
def atLineEnd : List Glyph → Bool
  | [] => true
  | g :: _ => isBreak g.char

/-- Whether a text is at a document marker: three equal characters at the start of a line, and then a
blank. -/
def atMarker (c : Char) : List Glyph → Bool
  | a :: b :: d :: rest => a.column == 0 && a.char == c && b.char == c && d.char == c && atBlank rest
  | _ => false

/-- Splits off the characters of a class that a text starts with. -/
def spanChars (p : Char → Bool) (gs : List Glyph) : List Char × List Glyph :=
  let (front, rest) := gs.span fun g => p g.char
  (front.map (·.char), rest)

def dropChars (p : Char → Bool) (gs : List Glyph) : List Glyph := gs.dropWhile fun g => p g.char

/-! ### Line ends inside scalars -/

/-- A line end as a scalar keeps it: the separators of Unicode stay, the others become line feeds. -/
def keptBreak (c : Char) : Char :=
  if c.toNat == 0x2028 || c.toNat == 0x2029 then c else '\n'

/-- The line ends of a gap as a scalar keeps them. -/
def lineEnds (gap : List Char) : List Char := (gap.filter isBreak).map keptBreak

/-- What a scalar keeps of line ends between two words: a single line feed folds to a space, further ones
stay. -/
def foldEnds : List Char → List Char
  | ['\n'] => [' ']
  | '\n' :: more => more
  | ends => ends

/-- What a scalar keeps of the blanks between two words. -/
def foldGap (gap : List Char) : List Char :=
  match lineEnds gap with
  | [] => gap
  | ends => foldEnds ends

end ClientForge.Yaml
