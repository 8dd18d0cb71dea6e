import ClientForge.Text.Octets
import ClientForge.Yaml.Scalar

/-!
# Scanning

Turns a text into tokens, one by one as they are asked for. Indentation opens and closes block collections,
and a scalar becomes a mapping key only when a colon follows it on the same line, so the scanner keeps the
stack of open indentations and, for each open flow collection, the place of a token that may still turn out
to be a key.

The text is taken in by blocks, and a token is handed out only when it is certain what it is and two more
follow it. Where the text cannot be read on, scanning fails, but only for a reader that gets that far.
-/

namespace ClientForge.Yaml

/-- A token that becomes a mapping key if a colon follows. -/
structure PossibleKey where
  /-- Nothing but a key may stand here. -/
  required : Bool
  /-- The number of tokens in front of it. -/
  position : Nat
  line : Nat
  column : Nat
  index : Nat

structure Scanner where
  rest : List Glyph
  /-- The number of characters of the text, which bounds the number of steps of any reader. -/
  size : Nat
  /-- The line behind the last one. -/
  endLine : Nat
  /-- The number of characters of the first block. -/
  window : Nat
  /-- Where the block starts that holds a character which no text may hold. -/
  barrier : Option Nat
  /-- Whether the text starts with a byte order mark. -/
  marked : Bool
  /-- How many characters were looked at. -/
  reach : Nat := 0
  /-- The tokens to be taken next. -/
  queue : List Token := []
  /-- The number of tokens taken so far. -/
  taken : Nat := 0
  /-- The columns of the open block collections, innermost first. -/
  indents : List Nat := []
  /-- Whether a key may start at the next token. -/
  keyAllowed : Bool := true
  /-- Whether the last token took the end of its line with it. -/
  lineEnded : Bool := false
  /-- The possible key outside of any flow collection. -/
  blockKey : Option PossibleKey := none
  /-- The possible keys inside the open flow collections, innermost first. -/
  flowKeys : List (Option PossibleKey) := []

namespace Scanner

def inFlow (s : Scanner) : Bool := !s.flowKeys.isEmpty

/-- The column of the innermost open block collection, and minus one outside of any. -/
def indent (s : Scanner) : Int :=
  match s.indents with
  | [] => -1
  | column :: _ => column

def line (s : Scanner) : Nat :=
  match s.rest with
  | [] => s.endLine
  | g :: _ => g.line

def column (s : Scanner) : Nat := columnAt s.rest

def index (s : Scanner) : Nat :=
  match s.rest with
  | [] => s.size
  | g :: _ => g.index

/-- The number of tokens read so far. -/
def count (s : Scanner) : Nat := s.taken + s.queue.length

def push (s : Scanner) (lexeme : Lexeme) : Scanner := { s with queue := s.queue ++ [⟨lexeme, s.line⟩] }

/-- Puts a token in front of the one at `position`. -/
def insertAt (s : Scanner) (position line : Nat) (lexeme : Lexeme) : Scanner :=
  let before := position - s.taken
  { s with queue := s.queue.take before ++ ⟨lexeme, line⟩ :: s.queue.drop before }

def currentKey (s : Scanner) : Option PossibleKey :=
  match s.flowKeys with
  | [] => s.blockKey
  | key :: _ => key

def setKey (s : Scanner) (key : Option PossibleKey) : Scanner :=
  match s.flowKeys with
  | [] => { s with blockKey := key }
  | _ :: keys => { s with flowKeys := key :: keys }

/-- Gives up the possible key at this level. A required key cannot be given up. -/
def dropKey (s : Scanner) : Option Scanner :=
  match s.currentKey with
  | some key => if key.required then none else some (s.setKey none)
  | none => some s

/-- Remembers that the token about to be read may become a key. -/
def saveKey (s : Scanner) : Option Scanner :=
  if s.keyAllowed then do
    let cleared ← s.dropKey
    pure (cleared.setKey (some
      { required := !s.inFlow && s.indent == (s.column : Int)
        position := s.count, line := s.line, column := s.column, index := s.index }))
  else some s

/-- How deep collections may nest. -/
def maxDepth : Nat := 10000

/-- Opens a block collection at a column unless one that deep is open, with its start token in front of
the token at `position`. -/
def openBlock (s : Scanner) (column position line : Nat) (start : Lexeme) : Option Scanner :=
  if s.inFlow || s.indent ≥ (column : Int) then some s
  else if s.indents.length ≥ maxDepth then none
  else some { s.insertAt position line start with indents := column :: s.indents }

/-- Closes the block collections that are open beyond a column. -/
def closeBlocks (s : Scanner) (column : Int) : Scanner :=
  if s.inFlow then s
  else
    let closed := s.indents.takeWhile fun (depth : Nat) => decide (column < (depth : Int))
    { s with
      indents := s.indents.drop closed.length
      queue := s.queue ++ closed.map fun _ => ⟨.blockEnd, s.line⟩ }

/-! ### Blocks of text -/

/-- The size of a block in bytes. A character is never split between blocks. -/
def blockSize : Nat := 512

/-- The number of characters that fit into a number of bytes. -/
def fitting (room : Nat) : List Char → Nat
  | [] => 0
  | c :: cs => if c.utf8Size ≤ room then fitting (room - c.utf8Size) cs + 1 else 0

/-- The start of the block with the first character that no text may hold. `room` is left in the block that
started at `start`. -/
def barrierFrom (room index start : Nat) : List Char → Option Nat
  | [] => none
  | c :: cs =>
    let (room, start) := if c.utf8Size ≤ room then (room, start) else (blockSize, index)
    if isAllowed c then barrierFrom (room - c.utf8Size) (index + 1) start cs else some start

/-- Looks at the first `n` characters of the text, which fails where they reach into a block that cannot be
taken in. -/
def lookAt (s : Scanner) (n : Nat) : Option Scanner :=
  if s.barrier.any (· < n) then none else some { s with reach := max s.reach n }

/-- Whether the first block is the last one taken in. -/
def inFirstBlock (s : Scanner) : Bool := s.reach ≤ s.window && s.index < s.window

/-- Skips the character that a byte order mark may stand for, be it a line end. -/
def skipMark (s : Scanner) : Scanner :=
  match s.rest with
  | [] => s
  | g :: after =>
    if isBreak g.char then
      { s with rest := glyphsFrom g.line (g.column + 1) (g.index + 1) (after.map (·.char)) }
    else { s with rest := after }

/-! ### Blanks and comments -/

/-- The next comment line behind the end of one. Only blanks and line ends of one byte may stand between
them, and no more than 511 characters. -/
def nextComment : List Glyph → Option (List Glyph)
  | [] => none
  | g :: gs =>
    let ahead := dropChars (fun c => isGap c || c == '\n' || c == '\r') (g :: gs)
    match ahead with
    | a :: _ => if a.char == '#' && a.index < g.index + 512 then some ahead else none
    | [] => none

/-- Skips comment lines that follow one another, with the blanks between them. -/
def skipComments : (bound : Nat) → List Glyph → List Glyph
  | 0, gs => gs
  | bound + 1, gs =>
    let rest := dropChars (!isBreak ·) gs
    match nextComment rest with
    | some ahead => skipComments bound ahead
    | none => rest

/-- Skips blanks, comments and line ends in front of the next token. In a text that starts with a byte order
mark, a line may start with one as long as the first block is in view. -/
def skipToToken : (bound : Nat) → Scanner → Scanner
  | 0, s => s
  | bound + 1, s =>
    let s := if s.marked && s.column == 0 && s.inFirstBlock then s.skipMark else s
    let tabs := s.inFlow || !s.keyAllowed
    let rest := dropChars (fun c => c == ' ' || (tabs && c == '\t')) s.rest
    let rest := if charAt rest == some '#' then skipComments s.size rest else rest
    match rest with
    | [] => { s with rest := [] }
    | g :: after =>
      if isBreak g.char then
        skipToToken bound { s with rest := after, keyAllowed := s.keyAllowed || !s.inFlow }
      else { s with rest }

/-- Skips a comment behind a token on the same line, for which at most 512 characters are looked at. -/
def skipLineComment (s : Scanner) : Option Scanner :=
  let ahead := dropChars isGap s.rest
  let stop := match ahead with
    | [] => s.size
    | g :: _ => g.index
  if charAt ahead == some '#' && stop < s.index + 512 then
    { s with rest := dropChars (!isBreak ·) ahead }.lookAt (stop + 1)
  else s.lookAt (min (stop + 1) (s.index + 512))

/-! ### Directives, tags and anchors -/

/-- Reads a decimal number of one or two digits. -/
def versionNumber (gs : List Glyph) : Option (Nat × List Glyph) :=
  let (digits, rest) := spanChars Char.isDigit gs
  if digits.isEmpty || digits.length > 2 then none
  else some (digits.foldl (fun n d => 10 * n + (d.toNat - '0'.toNat)) 0, rest)

def isUriChar (c : Char) : Bool :=
  isWordChar c || ";/?:@&=+$,.%!~*'()[]".toList.contains c

/-- Reads a tag handle: `!`, or a word between two of them. A handle in a directive has to be closed. -/
def tagHandle (directive : Bool) (gs : List Glyph) : Option (List Char × List Glyph) :=
  if charAt gs != some '!' then none
  else
    let (word, rest) := spanChars isWordChar gs.tail
    if charAt rest == some '!' then some ('!' :: word ++ ['!'], rest.tail)
    else if directive && !word.isEmpty then none
    else some ('!' :: word, rest)

/-- Reads a byte written as a percent sign and two hexadecimal digits. -/
def escapedByte (gs : List Glyph) : Option (Nat × List Glyph) :=
  if charAt gs == some '%' then hexNumber 2 0 gs.tail else none

/-- Reads bytes that go on with a character. -/
def trailingBytes : (count : Nat) → List Glyph → Option (List Nat × List Glyph)
  | 0, gs => some ([], gs)
  | count + 1, gs => do
    let (byte, rest) ← escapedByte gs
    if !Text.Octets.isTrailing byte then none
    let (more, rest) ← trailingBytes count rest
    pure (byte :: more, rest)

/-- Reads a character whose bytes are escaped one by one. -/
def escapedBytes (gs : List Glyph) : Option (List Char × List Glyph) := do
  let (byte, rest) ← escapedByte gs
  let width ← Text.Octets.width byte
  let (more, rest) ← trailingBytes (width - 1) rest
  pure (Text.Octets.chars (byte :: more), rest)

/-- Reads the characters of a tag. -/
def tagUri : (bound : Nat) → List Glyph → Option (List Char × List Glyph)
  | 0, gs => some ([], gs)
  | bound + 1, gs =>
    match charAt gs with
    | none => some ([], gs)
    | some c =>
      if c == '%' then do
        let (front, rest) ← escapedBytes gs
        let (tail, rest) ← tagUri bound rest
        pure (front ++ tail, rest)
      else if isUriChar c then do
        let (tail, rest) ← tagUri bound gs.tail
        pure (c :: tail, rest)
      else some ([], gs)

/-- Reads a tag: verbatim between `!<` and `>`, or a handle and a suffix. -/
def tagLexeme (bound : Nat) (gs : List Glyph) : Option (Lexeme × List Glyph) := do
  let (handle, suffix, rest) ←
    if charAt gs.tail == some '<' then do
      let (uri, rest) ← tagUri bound gs.tail.tail
      if uri.isEmpty || charAt rest != some '>' then none
      pure (([] : List Char), uri, rest.tail)
    else do
      let (handle, rest) ← tagHandle false gs
      let closed := handle.length > 1 && handle.getLast? == some '!'
      let (uri, rest) ← tagUri bound rest
      if closed then
        if uri.isEmpty then none
        pure (handle, uri, rest)
      else
        let suffix := handle.tail ++ uri
        if suffix.isEmpty then pure (([] : List Char), ['!'], rest)
        else pure (['!'], suffix, rest)
  if !atBlank rest then none
  pure (.tag (String.ofList handle) (String.ofList suffix), rest)

/-- Reads the name of an anchor or alias. -/
def anchorName (gs : List Glyph) : Option (String × List Glyph) :=
  let (name, rest) := spanChars isWordChar gs
  let delimited := atBlank rest || (charAt rest).any fun c => "?:,]\x7d%@\x60".toList.contains c
  if name.isEmpty || !delimited then none else some (String.ofList name, rest)

/-- Reads a directive behind its percent sign, up to the end of its line. -/
def directive (bound : Nat) (gs : List Glyph) : Option (Lexeme × List Glyph) := do
  let (name, rest) := spanChars isWordChar gs
  if name.isEmpty || !atBlank rest then none
  let (lexeme, rest) ←
    match String.ofList name with
    | "YAML" => do
      let (major, rest) ← versionNumber (dropChars isGap rest)
      if charAt rest != some '.' then none
      let (minor, rest) ← versionNumber rest.tail
      pure (Lexeme.versionDirective major minor, rest)
    | "TAG" => do
      let (handle, rest) ← tagHandle true (dropChars isGap rest)
      if !(charAt rest).any isGap then none
      let (expansion, rest) ← tagUri bound (dropChars isGap rest)
      if expansion.isEmpty || !atBlank rest then none
      pure (Lexeme.tagDirective (String.ofList handle) (String.ofList expansion), rest)
    | _ => none
  let rest := dropChars isGap rest
  let rest := if charAt rest == some '#' then dropChars (!isBreak ·) rest else rest
  if !atLineEnd rest then none
  pure (lexeme, rest.tail)

/-! ### Tokens -/

/-- Reads an indicator of one character. -/
def indicator (s : Scanner) (lexeme : Lexeme) : Scanner :=
  let s := s.push lexeme
  { s with rest := s.rest.tail }

/-- The start of a scalar, an anchor or a tag: a token that may be a key. -/
def content (s : Scanner) (read : List Glyph → Option (Lexeme × List Glyph)) : Option Scanner := do
  let s ← s.saveKey
  let (lexeme, rest) ← read s.rest
  let s := s.push lexeme
  pure { s with rest, keyAllowed := false }

def plainToken (s : Scanner) : Option Scanner := do
  let s ← s.saveKey
  let scalar ← plainScalar s.size s.inFlow (s.indent + 1).toNat s.rest
  let s := s.push (.scalar (String.ofList scalar.text) .plain)
  pure { s with rest := scalar.rest, keyAllowed := scalar.lineEnded, lineEnded := scalar.lineEnded }

def quotedToken (double : Bool) (s : Scanner) : Option Scanner :=
  s.content fun gs => do
    let (text, rest) ← quotedScalar s.size double gs.tail
    pure (.scalar (String.ofList text) (if double then .double else .single), rest)

def blockToken (literal : Bool) (s : Scanner) : Option Scanner := do
  let s ← s.dropKey
  let (text, rest) ← blockScalar s.size literal s.indent s.rest.tail
  let s := s.push (.scalar (String.ofList text) (if literal then .literal else .folded))
  pure { s with rest, keyAllowed := true, lineEnded := true }

def openFlow (lexeme : Lexeme) (s : Scanner) : Option Scanner := do
  let s ← s.saveKey
  if s.flowKeys.length ≥ maxDepth then none
  let s := s.indicator lexeme
  pure { s with keyAllowed := true, flowKeys := none :: s.flowKeys }

def closeFlow (lexeme : Lexeme) (s : Scanner) : Option Scanner := do
  let s ← s.dropKey
  let s := s.indicator lexeme
  pure { s with keyAllowed := false, flowKeys := s.flowKeys.tail }

def flowEntryToken (s : Scanner) : Option Scanner := do
  let s ← s.dropKey
  pure { s.indicator .flowEntry with keyAllowed := true }

def blockEntryToken (s : Scanner) : Option Scanner := do
  if !s.inFlow && !s.keyAllowed then none
  let s ← s.openBlock s.column s.count s.line .blockSequenceStart
  let s ← s.dropKey
  pure { s.indicator .blockEntry with keyAllowed := true }

def keyToken (s : Scanner) : Option Scanner := do
  if !s.inFlow && !s.keyAllowed then none
  let s ← s.openBlock s.column s.count s.line .blockMappingStart
  let s ← s.dropKey
  pure { s.indicator .key with keyAllowed := !s.inFlow }

/-- Whether a possible key is still one: it started on this line and not too far back. -/
def PossibleKey.isFresh (key : PossibleKey) (s : Scanner) : Bool :=
  key.line == s.line && s.index ≤ key.index + 1024

/-- A colon: turns the possible key in front of it into a key, or gives a value to an explicit one. -/
def valueToken (s : Scanner) : Option Scanner :=
  match s.currentKey with
  | some key =>
    if PossibleKey.isFresh key s then do
      let s := s.insertAt key.position key.line .key
      let s ← s.openBlock key.column key.position key.line .blockMappingStart
      pure { (s.setKey none).indicator .value with keyAllowed := false }
    else if key.required then none
    else explicit (s.setKey none)
  | none => explicit s
where
  explicit (s : Scanner) : Option Scanner := do
    if !s.inFlow && !s.keyAllowed then none
    let s ← s.openBlock s.column s.count s.line .blockMappingStart
    pure { s.indicator .value with keyAllowed := !s.inFlow }

def documentToken (lexeme : Lexeme) (s : Scanner) : Option Scanner := do
  let s ← (s.closeBlocks (-1)).dropKey
  let s := s.push lexeme
  pure { s with rest := s.rest.drop 3, keyAllowed := false }

def directiveToken (s : Scanner) : Option Scanner := do
  let s ← (s.closeBlocks (-1)).dropKey
  let (lexeme, rest) ← directive s.size s.rest.tail
  let s := s.push lexeme
  pure { s with rest, keyAllowed := false }

def endToken (s : Scanner) : Option Scanner := do
  let s ← (s.closeBlocks (-1)).dropKey
  pure { s.push .streamEnd with keyAllowed := false }

/-- Whether a plain scalar may start in front of a text. -/
def startsPlain (inFlow : Bool) : List Glyph → Bool
  | [] => false
  | g :: rest =>
    !(isGap g.char || isBreak g.char || "-?:,[]\x7b\x7d#&*!|>\x27\x22%@\x60".toList.contains g.char) ||
      (g.char == '-' && !(charAt rest).any isGap) ||
      (!inFlow && (g.char == '?' || g.char == ':') && !atBlank rest)

/-- Reads the token in front of a character other than a document marker or directive. -/
def tokenAt (c : Char) (rest : List Glyph) (s : Scanner) : Option Scanner :=
  if c == '[' then s.openFlow .flowSequenceStart
  else if c == '{' then s.openFlow .flowMappingStart
  else if c == ']' then s.closeFlow .flowSequenceEnd
  else if c == '}' then s.closeFlow .flowMappingEnd
  else if c == ',' then s.flowEntryToken
  else if c == '-' && atBlank rest then s.blockEntryToken
  else if c == '?' && (s.inFlow || atBlank rest) then s.keyToken
  else if c == ':' && (s.inFlow || atBlank rest) then s.valueToken
  else if c == '*' then s.content fun gs => (anchorName gs.tail).map fun (n, r) => (.reference n, r)
  else if c == '&' then s.content fun gs => (anchorName gs.tail).map fun (n, r) => (.anchor n, r)
  else if c == '!' then s.content (tagLexeme s.size)
  else if c == '|' && !s.inFlow then s.blockToken true
  else if c == '>' && !s.inFlow then s.blockToken false
  else if c == '\'' then s.quotedToken false
  else if c == '"' then s.quotedToken true
  else if startsPlain s.inFlow s.rest then s.plainToken
  else none

/-- Reads the token in front of a text, and a comment behind it. -/
def token (s : Scanner) : Option Scanner :=
  match s.rest with
  | [] => s.endToken
  | g :: rest =>
    let s := { s.closeBlocks g.column with lineEnded := false }
    if g.column == 0 && g.char == '%' then s.directiveToken
    else if atMarker '-' s.rest then s.documentToken .documentStart
    else if atMarker '.' s.rest then s.documentToken .documentEnd
    else do
      let s ← tokenAt g.char rest s
      if s.lineEnded || s.queue.getLast?.any (·.lexeme == .blockEntry) then pure s else s.skipLineComment

/-- Reads the next token. Four characters are looked at to tell what it is. -/
def step (s : Scanner) : Option Scanner := do
  let s := skipToToken (s.size + 1) s
  let s ← s.lookAt (s.index + 4)
  let s ← s.token
  s.lookAt (s.index + 1)

/-! ### Handing out tokens -/

/-- Whether the next token is certain: two more follow it, and it is not a key that is still possible.
Nothing where a required key did not come. -/
def settled (s : Scanner) : Option Bool :=
  match s.queue with
  | _ :: _ :: _ :: _ =>
    match (s.blockKey :: s.flowKeys).findSome? (·.filter (·.position == s.taken)) with
    | none => some true
    | some key =>
      if PossibleKey.isFresh key s then some false else if key.required then none else some true
  | _ => some false

/-- Reads on until the next token is certain. -/
def settle : (bound : Nat) → Scanner → Option Scanner
  | 0, _ => none
  | bound + 1, s => do
    if ← s.settled then pure s else (← s.step).settle bound

/-- The next token. -/
def next (s : Scanner) : Option (Token × Scanner) := do
  let s ← s.settle (s.size + 5)
  let t ← s.queue.head?
  pure (t, s)

def take (s : Scanner) : Scanner := { s with queue := s.queue.tail, taken := s.taken + 1 }

def byteOrderMark : Char := Char.ofNat 0xFEFF

/-- A scanner at the start of a text. A byte order mark in front is skipped. -/
def ofText (text : String) : Scanner :=
  let (cs, room) := match text.toList with
    | [] => ([], blockSize)
    | c :: cs => if c == byteOrderMark then (cs, blockSize - c.utf8Size) else (c :: cs, blockSize)
  let rest := glyphs cs
  { rest
    size := cs.length
    endLine := match rest.getLast? with
      | none => 0
      | some g => g.line + 1
    window := fitting room cs
    barrier := barrierFrom room 0 0 cs
    marked := cs.head? == some byteOrderMark }

end Scanner

end ClientForge.Yaml
