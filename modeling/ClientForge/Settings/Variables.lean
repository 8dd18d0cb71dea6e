import ClientForge.Settings.Value
import ClientForge.Text.Blank

/-!
# Settings as variables

A text of lines, each of which gives a name its value. A value in quotes may go over several lines. Escapes
count in double quotes only. Outside single quotes a dollar sign and a name stand for a variable of the
environment, or else for one of an earlier line.
-/

namespace ClientForge.Settings.Variables

/-! ### Lines -/

/-- The lines of a text, which a return, a line feed or both of them end. -/
def linesOf : List Char → List (List Char)
  | [] => [[]]
  | '\r' :: '\n' :: cs | '\n' :: cs | '\r' :: cs => [] :: linesOf cs
  | c :: cs =>
    match linesOf cs with
    | line :: lines => (c :: line) :: lines
    | [] => [[c]]

def isQuote (c : Char) : Bool := c == '"' || c == '\''

/-- The place of the last `c`. -/
def lastPlace? (c : Char) (cs : List Char) : Option Nat :=
  (cs.reverse.idxOf? c).map fun n => cs.length - 1 - n

/-- The quote that a line opens for its value and does not close. -/
def openQuote? (line : List Char) : Option Char := do
  let place ← (line.idxOf? '=').or (line.idxOf? ':')
  let value := (line.drop (place + 1)).dropWhile Text.isBlank
  let quote ← value.head?
  if place = 0 || !isQuote quote then none
  match lastPlace? quote (Text.trimBoth Text.isBlank value.tail) with
  | some n => if value[n]? == some '\\' then some quote else none
  | none => some quote

/-- Adds the lines up to the one that closes a quote. -/
def closeQuote (quote : Char) (line : List Char) :
    List (List Char) → Option (List Char × List (List Char))
  | [] => none
  | next :: lines =>
    let line := line ++ '\n' :: next
    let closes := (lastPlace? quote next).any fun n => n = 0 || next[n - 1]? != some '\\'
    if closes then some (line, lines) else closeQuote quote line lines

/-- The lines that say something, each with those that its quote goes on in. -/
def statements : (bound : Nat) → List (List Char) → Option (List (List Char))
  | 0, _ => none
  | _, [] => some []
  | bound + 1, first :: lines => do
    let line := Text.trimBoth Text.isBlank first
    if line.isEmpty || line.head? == some '#' then statements bound lines
    else
      let (line, lines) ← match openQuote? line with
        | some quote => closeQuote quote line lines
        | none => some (line, lines)
      pure (line :: (← statements bound lines))

/-! ### Statements -/

def isGap (c : Char) : Bool := c == ' ' || c == '\t' || c == '\n' || c == '\r' || c == '\x0c'

def isNameChar (c : Char) : Bool := c.isAlphanum || c == '_' || c == '.'

/-- Whether nothing but a comment on one line is left. -/
def isOver (cs : List Char) : Bool :=
  match cs.dropWhile isGap with
  | [] => true
  | c :: comment => c == '#' && !comment.contains '\n'

/-- Reads up to the last quote behind which the statement is over. -/
def untilQuote (quote : Char) : List Char → Option (List Char)
  | [] => none
  | c :: cs =>
    match untilQuote quote cs with
    | some value => some (c :: value)
    | none => if c == quote && isOver cs then some [c] else none

def quotedValue : List Char → Option (List Char)
  | c :: cs => if isQuote c then (untilQuote c cs).map (c :: ·) else none
  | [] => none

def bareValue (cs : List Char) : Option (List Char) :=
  let (value, rest) := cs.span fun c => c != '#' && c != '\n'
  if !value.isEmpty && isOver rest then some value else none

def value (cs : List Char) : Option (List Char) :=
  (quotedValue cs).or ((bareValue cs).or (if isOver cs then some [] else none))

/-- What is left behind one gap, two gaps and so on. -/
def behindGaps : List Char → List (List Char)
  | [] => []
  | c :: cs => if isGap c then cs :: behindGaps cs else []

/-- Where a value may start behind its name: behind an equals sign, or behind a colon and gaps. -/
def valueStarts (cs : List Char) : List (List Char) :=
  match cs with
  | ':' :: rest => behindGaps rest
  | _ =>
    match cs.dropWhile isGap with
    | '=' :: rest => [rest.dropWhile isGap]
    | _ => []

/-- Reads a name and its value. -/
def named (cs : List Char) : Option (List Char × List Char) :=
  let (name, rest) := cs.span isNameChar
  if name.isEmpty then none else ((valueStarts rest).findSome? value).map (name, ·)

/-- Reads a statement. The word that exports a variable may stand in front of its name. -/
def statement (line : List Char) : Option (List Char × List Char) :=
  let exported := do
    let rest ← "export".toList.isPrefixOf? line
    if rest.head?.any isGap then named (rest.dropWhile isGap) else none
  exported.or (named line)

/-! ### Values -/

/-- Replaces a letter and the backslash in front of it. -/
def replaceEscape (letter result : Char) : List Char → List Char
  | '\\' :: c :: cs =>
    if c == letter then result :: replaceEscape letter result cs
    else '\\' :: replaceEscape letter result (c :: cs)
  | c :: cs => c :: replaceEscape letter result cs
  | [] => []

/-- Drops the backslash in front of every character but a dollar sign. -/
def dropEscapes : List Char → List Char
  | '\\' :: c :: cs => if c == '$' then '\\' :: '$' :: dropEscapes cs else c :: dropEscapes cs
  | c :: cs => c :: dropEscapes cs
  | [] => []

def isVariableChar (c : Char) : Bool := c.isUpper || c.isDigit || c == '_'

/-- Reads the name of a variable behind its dollar sign. Braces around it may be left out on either side. -/
def variableFront (cs : List Char) : Option (List Char × List Char) :=
  let (name, rest) := ((['\x7b'].isPrefixOf? cs).getD cs).span isVariableChar
  if name.isEmpty then none else some (name, (['\x7d'].isPrefixOf? rest).getD rest)

/-- Puts variables in. A backslash keeps a dollar sign as it is. -/
def expand (lookup : String → String) : (bound : Nat) → List Char → List Char
  | 0, cs => cs
  | _, [] => []
  | bound + 1, '\\' :: '$' :: cs => '$' :: expand lookup bound cs
  | bound + 1, c :: cs =>
    match if c == '$' then variableFront cs else none with
    | some (name, rest) => (lookup (String.ofList name)).toList ++ expand lookup bound rest
    | none => c :: expand lookup bound cs

/-- What a value stands for. -/
def meaning (lookup : String → String) (value : List Char) : List Char :=
  let inQuotes (quote : Char) := value.length ≥ 2 && value.head? == some quote && value.getLast? == some quote
  let inner := (value.drop 1).dropLast
  if inQuotes '\'' then inner
  else
    let plain := if inQuotes '"' then
        dropEscapes (replaceEscape 'r' '\r' (replaceEscape 'n' '\n' inner))
      else value
    expand lookup (plain.length + 1) plain

/-! ### Texts -/

/-- Adds the variable of a statement. The latest value of a name counts. -/
def add (env : Environment) (found : List (String × String)) (line : List Char) :
    Option (List (String × String)) := do
  let (name, written) ← statement line
  let lookup (name : String) := ((env name).or (found.lookup name)).getD ""
  let name := String.ofList name
  let value := String.ofList (meaning lookup (Text.trimBoth Text.isBlank written))
  pure ((name, value) :: found.filter (·.1 != name))

/-- Reads a text as a group of settings. A mark of its byte order in front is left out. -/
def read (env : Environment) (text : String) : Option Value := do
  let cs := text.toList
  let lines := linesOf (([Char.ofNat 0xFEFF].isPrefixOf? cs).getD cs)
  let found ← (← statements (lines.length + 1) lines).foldlM (add env) []
  pure (.group (found.map fun (name, value) => (name, .text value)))

end ClientForge.Settings.Variables
