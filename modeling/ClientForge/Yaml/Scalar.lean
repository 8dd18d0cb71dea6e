import ClientForge.Yaml.Token

/-!
# Reading scalars

Each reader takes the characters of a scalar off the front of a text and returns what the scalar says
with the text that follows. A reader that meets a malformed scalar returns nothing. The readers that go
on by steps of their own take a `bound` on the number of steps; the number of characters of the whole text
is always enough.
-/

namespace ClientForge.Yaml

/-! ### Plain scalars -/

/-- Whether a plain scalar ends in front of a text. -/
def endsPlain (inFlow : Bool) : List Glyph → Bool
  | [] => true
  | g :: rest =>
    let c := g.char
    isGap c || isBreak c || (c == ':' && atBlank rest) ||
      (inFlow && (c == ',' || c == '?' || c == '[' || c == ']' || c == '{' || c == '}'))

/-- The characters up to the next place where a plain scalar may end. -/
def plainWord (inFlow : Bool) : List Glyph → List Char × List Glyph
  | [] => ([], [])
  | g :: rest =>
    if endsPlain inFlow (g :: rest) then ([], g :: rest)
    else
      let (word, after) := plainWord inFlow rest
      (g.char :: word, after)

/-- Whether a tab stands where the indentation of a continuing line is expected. -/
def tabInIndent (indent : Nat) (gap : List Glyph) : Bool :=
  (gap.dropWhile fun g => !isBreak g.char).any fun g => g.char == '\t' && g.column < indent

/-- What a plain scalar says, whether a line end follows it, and the rest of the text. -/
structure PlainScalar where
  text : List Char
  lineEnded : Bool
  rest : List Glyph

/-- Reads the words of a plain scalar. `gap` are the blanks in front of the next word. -/
def plainWords (inFlow : Bool) (indent : Nat) :
    (bound : Nat) → (gap : List Char) → List Glyph → Option PlainScalar
  | 0, gap, gs => some ⟨[], gap.any isBreak, gs⟩
  | bound + 1, gap, gs =>
    let (word, after) := plainWord inFlow gs
    if word.isEmpty || atMarker '-' gs || atMarker '.' gs || charAt gs == some '#' then
      some ⟨[], gap.any isBreak, gs⟩
    else
      let text := foldGap gap ++ word
      let (next, rest) := after.span fun g => isGap g.char || isBreak g.char
      let nextGap := next.map (·.char)
      if next.isEmpty then some ⟨text, false, rest⟩
      else if tabInIndent indent next then none
      else if !inFlow && nextGap.any isBreak && !rest.isEmpty && columnAt rest < indent then
        some ⟨text, true, rest⟩
      else do
        let tail ← plainWords inFlow indent bound nextGap rest
        pure { tail with text := text ++ tail.text }

/-- Reads a plain scalar. Lines that continue it are indented by at least `indent`. -/
def plainScalar (bound : Nat) (inFlow : Bool) (indent : Nat) (gs : List Glyph) : Option PlainScalar :=
  plainWords inFlow indent (bound + 1) [] gs

/-! ### Quoted scalars -/

def hexValue (c : Char) : Option Nat :=
  if c.isDigit then some (c.toNat - '0'.toNat)
  else if 'a' ≤ c && c ≤ 'f' then some (c.toNat - 'a'.toNat + 10)
  else if 'A' ≤ c && c ≤ 'F' then some (c.toNat - 'A'.toNat + 10)
  else none

/-- Reads a number of exactly `digits` hexadecimal digits. -/
def hexNumber : (digits : Nat) → (value : Nat) → List Glyph → Option (Nat × List Glyph)
  | 0, value, gs => some (value, gs)
  | _ + 1, _, [] => none
  | digits + 1, value, g :: gs => do
    let d ← hexValue g.char
    hexNumber digits (16 * value + d) gs

/-- The character a one-letter escape stands for. -/
def escapedChar (c : Char) : Option Char :=
  match c with
  | '0' => some (Char.ofNat 0)
  | 'a' => some (Char.ofNat 7)
  | 'b' => some (Char.ofNat 8)
  | 't' | '\t' => some '\t'
  | 'n' => some '\n'
  | 'v' => some (Char.ofNat 11)
  | 'f' => some (Char.ofNat 12)
  | 'r' => some '\r'
  | 'e' => some (Char.ofNat 27)
  | ' ' | '"' | '\'' | '\\' => some c
  | 'N' => some (Char.ofNat 0x85)
  | '_' => some (Char.ofNat 0xA0)
  | 'L' => some (Char.ofNat 0x2028)
  | 'P' => some (Char.ofNat 0x2029)
  | _ => none

/-- The number of digits of a numeric escape. -/
def escapeWidth (c : Char) : Option Nat :=
  match c with
  | 'x' => some 2
  | 'u' => some 4
  | 'U' => some 8
  | _ => none

/-- Reads the escape after a backslash. -/
def escape : List Glyph → Option (Char × List Glyph)
  | [] => none
  | g :: rest =>
    match escapeWidth g.char with
    | some width => do
      let (n, rest) ← hexNumber width 0 rest
      if n.isValidChar then some (Char.ofNat n, rest) else none
    | none => (escapedChar g.char).map (·, rest)

/-- Why a run of characters inside a quoted scalar ended. -/
inductive RunEnd where
  | closed
  | gap
  /-- At an escaped line end, which joins the lines around it. -/
  | joined

/-- Reads characters up to a blank, the closing quote or an escaped line end. -/
def quotedRun (double : Bool) : (bound : Nat) → List Glyph → Option (List Char × RunEnd × List Glyph)
  | 0, _ => none
  | _ + 1, [] => some ([], .gap, [])
  | bound + 1, g :: rest =>
    let c := g.char
    let continued (d : Char) (rest : List Glyph) : Option (List Char × RunEnd × List Glyph) := do
      let (run, stop, rest) ← quotedRun double bound rest
      pure (d :: run, stop, rest)
    if isGap c || isBreak c then some ([], .gap, g :: rest)
    else if double && c == '"' then some ([], .closed, rest)
    else if double && c == '\\' then
      if (charAt rest).any isBreak then some ([], .joined, rest.tail)
      else do
        let (d, rest) ← escape rest
        continued d rest
    else if !double && c == '\'' then
      if charAt rest == some '\'' then continued c rest.tail else some ([], .closed, rest)
    else continued c rest

/-- Reads a quoted scalar behind its opening quote, run after run. -/
def quotedRuns (double : Bool) : (bound : Nat) → List Glyph → Option (List Char × List Glyph)
  | 0, _ => none
  | bound + 1, gs =>
    if atMarker '-' gs || atMarker '.' gs || gs.isEmpty then none
    else do
      let (run, stop, rest) ← quotedRun double (bound + 1) gs
      match stop with
      | .closed => pure (run, rest)
      | .gap =>
        let (gap, rest) := spanChars (fun c => isGap c || isBreak c) rest
        let (tail, rest) ← quotedRuns double bound rest
        pure (run ++ foldGap gap ++ tail, rest)
      | .joined =>
        if charAt rest == some '"' then pure (run, rest.tail)
        else
          let (gap, rest) := spanChars (fun c => isGap c || isBreak c) rest
          let (tail, rest) ← quotedRuns double bound rest
          pure (run ++ lineEnds gap ++ tail, rest)

/-- Reads a quoted scalar behind its opening quote. -/
def quotedScalar (bound : Nat) (double : Bool) (gs : List Glyph) : Option (List Char × List Glyph) :=
  quotedRuns double (2 * bound + 2) gs

/-! ### Block scalars -/

/-- How a block scalar treats the line ends at its end. -/
inductive Chomping where
  | strip
  | clip
  | keep
deriving DecidableEq

structure BlockHeader where
  chomping : Chomping := .clip
  /-- The indentation relative to the parent, if the header states it. -/
  increment : Option Nat := none

def chompingOf (c : Char) : Option Chomping :=
  if c == '+' then some .keep else if c == '-' then some .strip else none

def digitOf (c : Char) : Option Nat :=
  if c.isDigit then some (c.toNat - '0'.toNat) else none

/-- Reads the indicators behind `|` or `>`, in either order. An indentation of zero is refused. -/
def blockHeader (gs : List Glyph) : Option (BlockHeader × List Glyph) :=
  match (charAt gs).bind chompingOf with
  | some chomping =>
    match (charAt gs.tail).bind digitOf with
    | some 0 => none
    | some n => some (⟨chomping, some n⟩, gs.tail.tail)
    | none => some (⟨chomping, none⟩, gs.tail)
  | none =>
    match (charAt gs).bind digitOf with
    | some 0 => none
    | some n =>
      match (charAt gs.tail).bind chompingOf with
      | some chomping => some (⟨chomping, some n⟩, gs.tail.tail)
      | none => some (⟨.clip, some n⟩, gs.tail)
    | none => some (⟨.clip, none⟩, gs)

/-- Drops spaces while the column is below the limit, if there is one. -/
def dropIndent (limit : Option Nat) : List Glyph → List Glyph
  | [] => []
  | g :: rest =>
    if g.char == ' ' && limit.all (fun n => decide (g.column < n)) then dropIndent limit rest
    else g :: rest

/-- The empty lines in front of a block scalar's next line. -/
structure BlockBreaks where
  ends : List Char
  /-- The largest column reached by indentation. -/
  widest : Nat
  rest : List Glyph

/-- Reads empty lines. `limit` is the indentation of the scalar, if it is known; a tab inside the
indentation is refused. -/
def blockBreaks (limit : Option Nat) :
    (bound : Nat) → (widest : Nat) → List Glyph → Option BlockBreaks
  | 0, widest, gs => some ⟨[], widest, gs⟩
  | bound + 1, widest, gs =>
    let rest := dropIndent limit gs
    match rest with
    | [] => some ⟨[], widest, []⟩
    | g :: after =>
      let widest := max widest g.column
      if g.char == '\t' && limit.all (fun n => decide (g.column < n)) then none
      else if isBreak g.char then do
        let more ← blockBreaks limit bound widest after
        pure { more with ends := keptBreak g.char :: more.ends }
      else some ⟨[], widest, rest⟩

/-- What the lines of a block scalar say, the line end of the last one, and the empty lines behind it. -/
structure BlockText where
  text : List Char
  lastEnd : List Char
  emptyEnds : List Char
  rest : List Glyph

/-- Reads the lines of a block scalar. `lastEnd` is the line end before the next line, `spaced` says that
the line before started with a blank. -/
def blockLines (literal : Bool) (indent : Nat) :
    (bound : Nat) → (lastEnd : List Char) → (spaced : Bool) → BlockBreaks → Option BlockText
  | 0, lastEnd, _, breaks => some ⟨[], lastEnd, breaks.ends, breaks.rest⟩
  | bound + 1, lastEnd, spaced, breaks =>
    if breaks.rest.isEmpty || columnAt breaks.rest != indent then
      some ⟨[], lastEnd, breaks.ends, breaks.rest⟩
    else
      let blank := (charAt breaks.rest).any isGap
      let folds := !literal && !spaced && !blank && lastEnd.head? == some '\n'
      let joint := if folds then (if breaks.ends.isEmpty then [' '] else []) else lastEnd
      let (line, rest) := spanChars (!isBreak ·) breaks.rest
      let nextEnd := (charAt rest).toList.map keptBreak
      do
        let next ← blockBreaks (some indent) (bound + 1) 0 rest.tail
        let tail ← blockLines literal indent bound nextEnd blank next
        pure { tail with text := joint ++ breaks.ends ++ line ++ tail.text }

/-- Reads a block scalar behind its indicator. `parent` is the indentation of the enclosing block, and
minus one outside of any. -/
def blockScalar (bound : Nat) (literal : Bool) (parent : Int) (gs : List Glyph) :
    Option (List Char × List Glyph) := do
  let (header, rest) ← blockHeader gs
  let rest := dropChars isGap rest
  let rest := if charAt rest == some '#' then dropChars (!isBreak ·) rest else rest
  if !atLineEnd rest then none
  let stated := header.increment.map (parent.toNat + ·)
  let breaks ← blockBreaks stated (bound + 1) 0 rest.tail
  let indent := stated.getD (max (max breaks.widest (parent + 1).toNat) 1)
  let block ← blockLines literal indent (2 * bound + 2) [] false breaks
  let tail := match header.chomping with
    | .strip => []
    | .clip => block.lastEnd
    | .keep => block.lastEnd ++ block.emptyEnds
  pure (block.text ++ tail, block.rest)

end ClientForge.Yaml
