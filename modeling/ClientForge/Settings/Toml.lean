import ClientForge.Settings.Toml.Scalar

/-!
# TOML settings

A text is read line by line into statements: a header that opens a table, a header that adds a table to a
list, or a value for a key. The statements then build up a tree, in which nothing may be said twice.
-/

namespace ClientForge.Settings.Toml

/-! ### Keys -/

def isBareChar (c : Char) : Bool := c.isAlphanum || c == '-' || c == '_'

/-- Reads one part of a key. Strings over several lines are not keys. -/
def keyPart (cs : List Char) : Option (String × List Char) :=
  match cs with
  | c :: rest =>
    if c == '"' || c == '\'' then
      (lineString c (cs.length + 1) rest).map fun (s, rest) => (String.ofList s, rest)
    else
      let (bare, rest) := cs.span isBareChar
      if bare.isEmpty then none else some (String.ofList bare, rest)
  | [] => none

/-- Reads a key: parts with dots between them, and the spaces behind it. -/
def key : (bound : Nat) → List Char → Option (List String × List Char)
  | 0, _ => none
  | bound + 1, cs => do
    let (part, rest) ← keyPart (skipSpace cs)
    match skipSpace rest with
    | '.' :: more =>
      let (parts, rest) ← key bound more
      pure (part :: parts, rest)
    | rest => pure ([part], rest)

/-! ### Trees -/

/-- How a table came about. -/
inductive Origin where
  /-- On the way to the table of a header. -/
  | passed
  /-- On the way to the value of a dotted key, below the table that is open. -/
  | dotted
  /-- By a header, or by dotted keys below a table that is left. No header may open it, and no dotted key
  leads into it. -/
  | stated
deriving DecidableEq

inductive Tree where
  | leaf (value : Value)
  | table (origin : Origin) (entries : List (String × Tree))
  /-- Tables of one name, the latest first. -/
  | tables (members : List (List (String × Tree)))
deriving Inhabited

namespace Tree

mutual

def value : Tree → Value
  | leaf v => v
  | table _ entries => .group (valueEntries entries)
  | tables members => .list (valueMembers members).reverse

def valueEntries : List (String × Tree) → List (String × Value)
  | [] => []
  | (key, t) :: entries => (key, t.value) :: valueEntries entries

def valueMembers : List (List (String × Tree)) → List Value
  | [] => []
  | entries :: members => .group (valueEntries entries) :: valueMembers members

end

mutual

/-- A tree once the table that is open above it is left. -/
def left : Tree → Tree
  | table origin entries => table (if origin = .dotted then .stated else origin) (leftEntries entries)
  | tables members => tables (leftMembers members)
  | t => t

def leftEntries : List (String × Tree) → List (String × Tree)
  | [] => []
  | (key, t) :: entries => (key, t.left) :: leftEntries entries

def leftMembers : List (List (String × Tree)) → List (List (String × Tree))
  | [] => []
  | entries :: members => leftEntries entries :: leftMembers members

end

end Tree

abbrev Entries := List (String × Tree)

/-- Changes what is under a key, which may be nothing yet. -/
def alter (entries : Entries) (key : String) (f : Option Tree → Option Tree) : Option Entries := do
  let t ← f (entries.lookup key)
  pure ((key, t) :: entries.filter (·.1 != key))

/-- Puts a value under a key of a table. -/
def assign (v : Value) : List String → Entries → Option Entries
  | [], _ => none
  | [key], entries =>
    alter entries key fun
      | none => some (.leaf v)
      | some _ => none
  | key :: path, entries =>
    alter entries key fun
      | none => (assign v path []).map (.table .dotted)
      | some (.table origin inner) => if origin = .stated then none else (assign v path inner).map (.table origin)
      | some _ => none

/-- Changes the table at a path, which headers lead to. On the way, the latest table of a list counts. -/
def alterAt (f : Option Tree → Option Tree) : List String → Entries → Option Entries
  | [], _ => none
  | [key], entries => alter entries key f
  | key :: path, entries =>
    alter entries key fun
      | none => (alterAt f path []).map (.table .passed)
      | some (.table origin inner) => (alterAt f path inner).map (.table origin)
      | some (.tables (latest :: earlier)) =>
        (alterAt f path latest).map fun latest => .tables (latest :: earlier)
      | some _ => none

/-! ### Values -/

mutual

def value : (bound : Nat) → List Char → Option (Value × List Char)
  | 0, _ | _, [] => none
  | bound + 1, c :: cs =>
    if c == '"' || c == '\'' then (string (c :: cs)).map fun (s, rest) => (.text s, rest)
    else if c == '[' then (items bound cs).map fun (vs, rest) => (.list vs, rest)
    else if c == '\x7b' then
      (fields bound true [] (skipSpace cs)).map fun (es, rest) => (.group (Tree.valueEntries es), rest)
    else scalarFront (c :: cs)

/-- Reads the items of a list, up to its closing bracket. -/
def items : (bound : Nat) → List Char → Option (List Value × List Char)
  | 0, _ => none
  | bound + 1, cs => do
    match ← skipLines (cs.length + 1) cs with
    | ']' :: rest => pure ([], rest)
    | rest =>
      let (v, rest) ← value bound rest
      match ← skipLines (rest.length + 1) rest with
      | ',' :: rest =>
        let (vs, rest) ← items bound rest
        pure (v :: vs, rest)
      | ']' :: rest => pure ([v], rest)
      | _ => none

/-- Reads the fields of a table on one line, up to its closing brace. -/
def fields : (bound : Nat) → (start : Bool) → Entries → List Char → Option (Entries × List Char)
  | 0, _, _, _ => none
  | _, true, found, '\x7d' :: rest => some (found, rest)
  | bound + 1, _, found, cs => do
    let (path, rest) ← key (cs.length + 1) cs
    let rest ← ['='].isPrefixOf? rest
    let (v, rest) ← value bound (skipSpace rest)
    let found ← assign v path found
    match skipSpace rest with
    | ',' :: rest => fields bound false found (skipSpace rest)
    | '\x7d' :: rest => pure (found, rest)
    | _ => none

end

/-! ### Statements -/

inductive Statement where
  | table (path : List String)
  | listed (path : List String)
  | assign (path : List String) (value : Value)

/-- Reads one statement, without the end of its line. -/
def statement (cs : List Char) : Option (Statement × List Char) :=
  let bound := cs.length + 1
  match cs with
  | '[' :: '[' :: rest => do
    let (path, rest) ← key bound rest
    let rest ← [']', ']'].isPrefixOf? rest
    pure (.listed path, rest)
  | '[' :: rest => do
    let (path, rest) ← key bound rest
    let rest ← [']'].isPrefixOf? rest
    pure (.table path, rest)
  | _ => do
    let (path, rest) ← key bound cs
    let rest ← ['='].isPrefixOf? rest
    let (v, rest) ← value bound (skipSpace rest)
    pure (.assign path v, rest)

def statements : (bound : Nat) → List Char → Option (List Statement)
  | 0, _ => none
  | bound + 1, cs => do
    match ← skipLines (cs.length + 1) cs with
    | [] => pure []
    | cs =>
      let (s, rest) ← statement cs
      let rest ← endOfLine rest
      pure (s :: (← statements bound rest))

/-- Opens the table of a header. -/
def openTable : Option Tree → Option Tree
  | none => some (.table .stated [])
  | some (.table origin entries) => if origin = .stated then none else some (.table .stated entries)
  | some _ => none

/-- Adds a table to a list. -/
def addTable : Option Tree → Option Tree
  | none => some (.tables [[]])
  | some (.tables members) => some (.tables ([] :: members))
  | some _ => none

/-- Puts a value into an open table. -/
def assignIn (path : List String) (v : Value) : Option Tree → Option Tree
  | some (.table origin entries) => (assign v path entries).map (.table origin)
  | some (.tables (latest :: earlier)) => (assign v path latest).map fun e => .tables (e :: earlier)
  | _ => none

/-- The tree so far, and the path of the open table. -/
structure Draft where
  entries : Entries := []
  header : List String := []

/-- The tree once the open table is left. -/
def Draft.left (d : Draft) : Option Entries :=
  if d.header.isEmpty then some (Tree.leftEntries d.entries)
  else alterAt (·.map Tree.left) d.header d.entries

def Draft.apply (d : Draft) : Statement → Option Draft
  | .table path => do pure { entries := ← alterAt openTable path (← d.left), header := path }
  | .listed path => do pure { entries := ← alterAt addTable path (← d.left), header := path }
  | .assign path v => do
    let entries ← if d.header.isEmpty then assign v path d.entries
      else alterAt (assignIn path v) d.header d.entries
    pure { d with entries }

/-- Reads a text as a group of settings. -/
def read (text : String) : Option Value := do
  let cs := text.toList
  let found ← statements (cs.length + 1) cs
  let d ← found.foldlM Draft.apply {}
  pure (.group (Tree.valueEntries d.entries))

end ClientForge.Settings.Toml
