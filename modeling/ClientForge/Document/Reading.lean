import ClientForge.Document.Mismatch

/-!
# Reading shapes

A shape reads a node into a value. Reading goes on after a mismatch, so that one pass finds them all; it
stops only at a node that means nothing at all, such as a tag that contradicts what it stands before, and
where aliases lead in a circle or make up nearly all of a document. A null node leaves its place empty,
whatever the shape.
-/

namespace ClientForge.Document

open ClientForge.Yaml

/-- What reading depends on. -/
structure Scope where
  /-- The nodes that aliases stand for, by number. -/
  anchored : List (Nat × Node)
  /-- Whether a field that a record does not have is a mismatch, or else passed over. -/
  strict : Bool := true
  /-- The places of the aliases that are being followed. -/
  followed : List Nat := []

/-- What reading has come to so far. -/
structure Progress where
  /-- The mismatches, newest first. -/
  found : List Mismatch := []
  /-- The number of nodes read. -/
  visits : Nat := 0
  /-- The number of nodes read inside aliases. -/
  aliased : Nat := 0

/-- Reading, which comes to nothing where the text makes no sense. -/
abbrev Reading := ReaderT Scope (StateT Progress Option)

def report (m : Mismatch) : Reading Unit := modify fun p => { p with found := m :: p.found }

/-! ### Aliases -/

/-- Whether too many of the nodes were read inside aliases. The part they may have is 99 of 100 up to 400000
nodes, from where it falls evenly to 10 of 100 at 4000000. Short documents are let pass. -/
def isExcessive (visits aliased : Nat) : Bool :=
  aliased > 100 && visits > 1000 &&
    if visits ≤ 400000 then aliased * 100 > visits * 99
    else if visits ≥ 4000000 then aliased * 10 > visits
    else aliased * 360000000 > visits * (356400000 - 89 * (visits - 400000))

/-- Counts a node. -/
def visit : Reading Unit := do
  let inside := !(← read).followed.isEmpty
  let p ← get
  let visits := p.visits + 1
  let aliased := if inside then p.aliased + 1 else p.aliased
  if isExcessive visits aliased then failure
  set { p with visits, aliased }

/-- Reads a node, or the one that an alias stands for. An alias that is met again while it is followed is
refused. -/
def follow {α : Type} (n : Node) (readTarget : Node → Reading α) : Reading α := do
  visit
  match n with
  | .reference _ _ place target =>
    let scope ← read
    if scope.followed.contains place then failure
    let node ← scope.anchored.lookup target
    withReader (fun _ => { scope with followed := place :: scope.followed }) do
      visit
      readTarget node
  | n => readTarget n

/-- Reads apart from what is read around it: nodes are counted anew, no alias is being followed, and
fields that a record does not have are passed over. -/
def apart {α : Type} (reading : Reading α) : Reading α := do
  let p ← get
  set { p with visits := 0, aliased := 0 }
  let a ← withReader (fun (scope : Scope) => { scope with strict := false, followed := [] }) reading
  modify fun q => { q with visits := p.visits, aliased := p.aliased }
  pure a

/-! ### What a node offers -/

inductive Offer where
  | empty
  | scalar (line : Nat) (tag : String) (meaning : Meaning) (text : String)
  | sequence (line : Nat) (tag : String) (items : List Node)
  | mapping (line : Nat) (tag : String) (entries : List (Node × Node))

def offer : Node → Reading Offer
  | .scalar line tag style text =>
    match scalarMeaning tag style text with
    | none => failure
    | some .null => pure .empty
    | some meaning => pure (.scalar line (Node.scalarTag tag style text) meaning text)
  | .sequence line tag items => pure (.sequence line (tag.getD "!!seq") items)
  | .mapping line tag entries => pure (.mapping line (tag.getD "!!map") entries)
  | .reference .. => failure

/-- The keys that a mapping gives more than once. -/
def repeatedKeys : List (Node × Node) → List Mismatch
  | [] => []
  | (key, _) :: rest => rest.filterMap (fun other => again key other.1) ++ repeatedKeys rest
where
  /-- Keys are told apart by their kind and their text, and aliases by their anchor. -/
  again : Node → Node → Option Mismatch
    | .scalar first _ _ text, .scalar line _ _ text' =>
      if text == text' then some (.repeatedKey line text first) else none
    | .sequence first .., .sequence line .. => some (.repeatedKey line "" first)
    | .mapping first .., .mapping line .. => some (.repeatedKey line "" first)
    | .reference first anchor .., .reference line anchor' .. =>
      if anchor == anchor' then some (.repeatedKey line anchor first) else none
    | _, _ => none

/-- Why an offer does not fit. A mapping that gives a key twice is refused for that alone. -/
def Offer.unfit : Offer → (expected : String) → List Mismatch
  | .empty, _ => []
  | .scalar line tag _ text, expected => [.unfit line tag text expected]
  | .sequence line tag _, expected => [.unfit line tag "" expected]
  | .mapping line tag entries, expected =>
    match repeatedKeys entries with
    | [] => [.unfit line tag "" expected]
    | found => found

/-! ### Shapes -/

/-- A way to read a node that is no alias, with the name that messages use for what is expected. -/
structure Shape (α : Type) where
  expected : String
  readTarget : Node → Reading (Option α)

namespace Shape

def read {α : Type} (shape : Shape α) (n : Node) : Reading (Option α) := follow n shape.readTarget

/-- Reports that a node does not fit. -/
def misfit {α : Type} (expected : String) (o : Offer) : Reading (Option α) := do
  (o.unfit expected).forM report
  pure none

/-- Any scalar, as it is written, or as the text that it means. -/
def text : Shape String where
  expected := "string"
  readTarget n := do
    match ← offer n with
    | .scalar _ _ (.text value) _ => pure (some value)
    | .scalar _ _ _ text => pure (some text)
    | o => misfit "string" o

/-- The texts for a truth value besides its own spellings. -/
def truthWord (text : String) : Option Bool :=
  if ["y", "Y", "yes", "Yes", "YES", "on", "On", "ON"].contains text then some true
  else if ["n", "N", "no", "No", "NO", "off", "Off", "OFF"].contains text then some false
  else none

/-- The truth value that a meaning has, if any. -/
def truthOf : Meaning → Option Bool
  | .truth b => some b
  | .text value => truthWord value
  | _ => none

def flag : Shape Bool where
  expected := "bool"
  readTarget n := do
    match ← offer n with
    | .scalar line tag meaning text =>
      match truthOf meaning with
      | some b => pure (some b)
      | none => misfit "bool" (.scalar line tag meaning text)
    | o => misfit "bool" o

/-- A sequence. Items that are null or do not fit are left out. -/
def list {α : Type} (item : Shape α) : Shape (List α) where
  expected := "[]" ++ item.expected
  readTarget n := do
    match ← offer n with
    | .sequence _ _ items => return some ((← items.mapM item.read).filterMap id)
    | o => misfit ("[]" ++ item.expected) o

/-- A shape whose place may stay empty. A container with the tag of null does not fit there. -/
def optional {α : Type} (shape : Shape α) : Shape α where
  expected := "*" ++ shape.expected
  readTarget n := do
    if n.isNull then misfit ("*" ++ shape.expected) (← offer n) else shape.readTarget n

end Shape

/-! ### Records -/

/-- A field of a record and how its value is stored. -/
structure Field (α : Type) where
  name : String
  store : Node → α → Reading α

/-- A field that holds a value of a shape. -/
def Field.of {α β : Type} (name : String) (shape : Shape β) (set : β → α → α) : Field α where
  name
  store n a := do
    match ← shape.read n with
    | some b => pure (set b a)
    | none => pure a

structure Record (α : Type) where
  expected : String
  blank : α
  fields : List (Field α)
  /-- How a merged mapping is stored, if not like the entries of the record itself. -/
  storeMerged : Option (Node → α → Reading α) := none

namespace Record

/-- A record while its entries are read. -/
structure Entries (α : Type) where
  value : α
  /-- The fields that were set by entries of the same mapping. -/
  stored : List String := []
  /-- In a merged mapping, the keys that it may not set again. -/
  given : Option (List String)

variable {α : Type}

def storeEntry (r : Record α) (p : Entries α) (key value : Node) : Reading (Entries α) := do
  match ← Shape.text.read key with
  | none => pure p
  | some name =>
    if p.given.any (·.contains name) then return p
    let p := { p with given := p.given.map (name :: ·) }
    match r.fields.find? (·.name == name) with
    | some field =>
      if p.stored.contains name then
        report (.repeatedField key.line name r.expected)
        pure p
      else
        pure { p with value := ← field.store value p.value, stored := name :: p.stored }
    | none =>
      if (← read).strict then report (.unknownField key.line name r.expected)
      pure p

/-- The text of a key among the entries of a mapping that merges others. A container cannot be a key
there. -/
def ownKey (key : Node) : Reading (Option String) :=
  follow key fun target => do
    match ← offer target with
    | .scalar _ _ (.text value) _ => pure (some value)
    | .mapping _ _ entries =>
      match repeatedKeys entries with
      | [] => failure
      | found => found.forM report *> pure none
    | .sequence .. => failure
    | _ => pure none

/-- Whether a node is a mapping or an alias of one. -/
def isMapping (n : Node) : Reading Bool := do
  match n with
  | .mapping .. => pure true
  | .reference _ _ _ target => return ((← read).anchored.lookup target).any (· matches .mapping ..)
  | _ => pure false

/-- The mappings that a merge key names: one, or a sequence of them. -/
def mergedNodes (n : Node) : Reading (List Node) := do
  let nodes := match n with
    | .sequence _ _ items => items
    | n => [n]
  if ← nodes.allM isMapping then pure nodes else failure

/-- Reads the entries of a mapping into a record: its own first, and then those that it merges, which
yield to what was given before. -/
def fill (r : Record α) : (bound : Nat) → (given : Option (List String)) → List (Node × Node) → α →
    Reading (α × Option (List String))
  | 0, _, _, _ => failure
  | bound + 1, given, entries, value =>
    match repeatedKeys entries with
    | m :: ms => do
      (m :: ms).forM report
      pure (value, given)
    | [] => do
      let p ← entries.foldlM
        (fun p (key, value) => if key.isMerge then pure p else r.storeEntry p key value)
        { value, given : Entries α }
      match (entries.filter (·.1.isMerge)).getLast? with
      | none => pure (p.value, p.given)
      | some (_, merged) =>
        let names ← match p.given with
          | some names => pure names
          | none => pure ((← entries.mapM fun e => ownKey e.1).filterMap id)
        let (value, names) ← (← mergedNodes merged).foldlM
          (fun (acc : α × List String) n => follow n fun target => do
            match target, r.storeMerged.filter fun _ => !target.isNull with
            | _, some store => pure (← store target acc.1, acc.2)
            | .mapping _ _ entries, none =>
              let (value, names) ← r.fill bound (some acc.2) entries acc.1
              pure (value, names.getD acc.2)
            | _, none => failure)
          (p.value, names)
        pure (value, p.given.map fun _ => names)

/-- The shape of a record. Mappings nested deeper than the bound are refused. -/
def shape (r : Record α) (bound : Nat) : Shape α where
  expected := r.expected
  readTarget n := do
    match ← offer n with
    | .mapping _ _ entries => return some (← r.fill bound none entries r.blank).1
    | o => Shape.misfit r.expected o

end Record

/-- Reads a document in a shape: the value, or all that does not fit. Nothing where the text makes no
sense. The document itself counts as a node. -/
def Shape.run {α : Type} (shape : Shape α) (tree : Tree) : Option (Except (List Mismatch) (Option α)) :=
  match (shape.read tree.root).run { anchored := tree.anchored } |>.run { visits := 1 } with
  | none => none
  | some (value, ⟨[], _, _⟩) => some (.ok value)
  | some (_, p) => some (.error p.found.reverse)

end ClientForge.Document
