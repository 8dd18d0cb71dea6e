import ClientForge.Yaml.Scan

/-!
# YAML nodes

The first document of a text as a tree of scalars, sequences and mappings. Every node remembers its line
and the tag written in front of it. An alias names a node by number, because that node may hold the alias.
-/

namespace ClientForge.Yaml

inductive Node where
  | scalar (line : Nat) (tag : Option String) (style : ScalarStyle) (text : String)
  | sequence (line : Nat) (tag : Option String) (items : List Node)
  | mapping (line : Nat) (tag : Option String) (entries : List (Node × Node))
  /-- An alias of the anchored node with the number `target`. No two aliases have the same `place`. -/
  | reference (line : Nat) (anchor : String) (place target : Nat)
deriving Inhabited

/-- A document with its anchored nodes by number. -/
structure Tree where
  root : Node
  anchored : List (Nat × Node)

/-- The text left to read and what it may refer to. -/
structure Composer where
  scanner : Scanner
  /-- The anchors so far with the numbers of their nodes, latest first. -/
  anchors : List (String × Nat) := []
  /-- The anchored nodes that are complete. -/
  anchored : List (Nat × Node) := []
  /-- Tag handles with what they stand for. -/
  handles : List (String × String) := []

abbrev Compose := StateT Composer Option

namespace Composer

/-- The next token, unless the text cannot be read that far. -/
def peek : Compose Token := do
  let c ← get
  let (t, scanner) ← c.scanner.next
  set { c with scanner }
  pure t

def skip : Compose Unit := modify fun c => { c with scanner := c.scanner.take }

def emptyScalar (line : Nat) : Node := .scalar line none .plain ""

/-- The short form of a tag: the standard tags start with two exclamation marks. -/
def shortTag (tag : String) : String :=
  let standard := "tag:yaml.org,2002:"
  if standard.toList.isPrefixOf tag.toList then "!!" ++ String.ofList (tag.toList.drop standard.length)
  else tag

/-- The tag a handle and a suffix stand for. A lone exclamation mark counts as no tag. -/
def resolveTag (handle suffix : String) : Compose (Option String) := do
  let tag ←
    if handle.isEmpty then pure suffix
    else match (← get).handles.find? (·.1 == handle) with
      | some (_, expansion) => pure (expansion ++ suffix)
      | none => failure
  pure (if tag.isEmpty || tag == "!" then none else some (shortTag tag))

/-- The anchor and the tag in front of a node, in either order. -/
def properties : Compose (Option String × Option String) := do
  let t ← peek
  match t.lexeme with
  | .anchor name =>
    skip
    match (← peek).lexeme with
    | .tag handle suffix => skip; pure (some name, ← resolveTag handle suffix)
    | _ => pure (some name, none)
  | .tag handle suffix =>
    skip
    match (← peek).lexeme with
    | .anchor name => skip; pure (some name, ← resolveTag handle suffix)
    | _ => pure (none, ← resolveTag handle suffix)
  | _ => pure (none, none)

/-- Opens an anchor and returns the number of its node. -/
def openAnchor (name : String) : Compose Nat := do
  let c ← get
  let number := c.anchors.length
  set { c with anchors := (name, number) :: c.anchors }
  pure number

def closeAnchor (number : Nat) (node : Node) : Compose Unit :=
  modify fun c => { c with anchored := (number, node) :: c.anchored }

/-- An alias, which the number of tokens in front of it tells from all others. -/
def aliasNode (line : Nat) (name : String) : Compose Node := do
  let c ← get
  match c.anchors.lookup name with
  | some number => pure (.reference line name c.scanner.taken number)
  | none => failure

/-- Whether a block entry or mapping part is left out. -/
def isMissing (ends : List Lexeme) (t : Token) : Bool := ends.contains t.lexeme

mutual

/-- Reads a node. `block` admits block collections, `indentless` a sequence at its parent's indentation. -/
def node : (bound : Nat) → (block indentless : Bool) → Compose Node
  | 0, _, _ => failure
  | bound + 1, block, indentless => do
    let first ← peek
    match first.lexeme with
    | .reference name =>
      let n ← aliasNode first.line name
      skip
      pure n
    | _ =>
      let (anchor, tag) ← properties
      match anchor with
      | none => body bound block indentless first.line tag (tag.isSome || first.lexeme matches .tag ..)
      | some name =>
        let number ← openAnchor name
        let n ← body bound block indentless first.line tag true
        closeAnchor number n
        pure n

/-- Reads what stands behind the properties of a node. `optional` says that there are some, so that the
rest may be left out. -/
def body : (bound : Nat) → (block indentless : Bool) → (line : Nat) → (tag : Option String) →
    (optional : Bool) → Compose Node
  | 0, _, _, _, _, _ => failure
  | bound + 1, block, indentless, line, tag, optional => do
    let t ← peek
    match t.lexeme with
    | .scalar text style => skip; pure (.scalar line tag style text)
    | .flowSequenceStart => skip; pure (.sequence line tag (← flowItems bound true))
    | .flowMappingStart => skip; pure (.mapping line tag (← flowEntries bound true))
    | .blockEntry =>
      if indentless then pure (.sequence line tag (← indentlessItems bound)) else missing line tag optional
    | .blockSequenceStart =>
      if block then
        skip
        pure (.sequence line tag (← blockItems bound))
      else missing line tag optional
    | .blockMappingStart =>
      if block then
        skip
        pure (.mapping line tag (← blockEntries bound))
      else missing line tag optional
    | _ => missing line tag optional

def missing (line : Nat) (tag : Option String) (optional : Bool) : Compose Node :=
  if optional then pure (.scalar line tag .plain "") else failure

/-- A node, or an empty scalar where one of the given tokens follows instead. -/
def nodeUnless : (bound : Nat) → (ends : List Lexeme) → (block indentless : Bool) → Compose Node
  | 0, _, _, _ => failure
  | bound + 1, ends, block, indentless => do
    let t ← peek
    if isMissing ends t then pure (emptyScalar t.line) else node bound block indentless

def blockItems : (bound : Nat) → Compose (List Node)
  | 0 => failure
  | bound + 1 => do
    match (← peek).lexeme with
    | .blockEntry =>
      skip
      let item ← nodeUnless bound [.blockEntry, .blockEnd] true false
      pure (item :: (← blockItems bound))
    | .blockEnd => skip; pure []
    | _ => failure

def indentlessItems : (bound : Nat) → Compose (List Node)
  | 0 => failure
  | bound + 1 => do
    match (← peek).lexeme with
    | .blockEntry =>
      skip
      let item ← nodeUnless bound [.blockEntry, .key, .value, .blockEnd] true false
      pure (item :: (← indentlessItems bound))
    | _ => pure []

/-- Reads the entries of a block mapping. A key that is left out stands where its mark does. -/
def blockEntries : (bound : Nat) → Compose (List (Node × Node))
  | 0 => failure
  | bound + 1 => do
    let t ← peek
    match t.lexeme with
    | .key =>
      skip
      let key ←
        if isMissing [.key, .value, .blockEnd] (← peek) then pure (emptyScalar t.line)
        else node bound true true
      let value ← blockValue bound
      pure ((key, value) :: (← blockEntries bound))
    | .blockEnd => skip; pure []
    | _ => failure

def blockValue : (bound : Nat) → Compose Node
  | 0 => failure
  | bound + 1 => do
    let t ← peek
    if t.lexeme == .value then
      skip
      nodeUnless bound [.key, .value, .blockEnd] true true
    else pure (emptyScalar t.line)

/-- Reads the items of a flow sequence. An item written as a pair is a mapping of one entry. -/
def flowItems : (bound : Nat) → (first : Bool) → Compose (List Node)
  | 0, _ => failure
  | bound + 1, first => do
    if (← peek).lexeme == .flowSequenceEnd then
      skip
      return []
    if !first then
      if (← peek).lexeme == .flowEntry then skip else failure
    let t ← peek
    match t.lexeme with
    | .flowSequenceEnd => skip; pure []
    | .key =>
      skip
      let key ← pairKey bound
      let value ← flowValue bound [.flowEntry, .flowSequenceEnd]
      pure (.mapping t.line none [(key, value)] :: (← flowItems bound false))
    | _ =>
      let item ← node bound false false
      pure (item :: (← flowItems bound false))

/-- The key of a pair in a flow sequence. Where it is left out, the token in its place is consumed. -/
def pairKey : (bound : Nat) → Compose Node
  | 0 => failure
  | bound + 1 => do
    let t ← peek
    if isMissing [.value, .flowEntry, .flowSequenceEnd] t then
      skip
      pure (emptyScalar t.line)
    else node bound false false

def flowValue : (bound : Nat) → (ends : List Lexeme) → Compose Node
  | 0, _ => failure
  | bound + 1, ends => do
    let t ← peek
    if t.lexeme == .value then
      skip
      nodeUnless bound ends false false
    else pure (emptyScalar t.line)

def flowEntries : (bound : Nat) → (first : Bool) → Compose (List (Node × Node))
  | 0, _ => failure
  | bound + 1, first => do
    if (← peek).lexeme == .flowMappingEnd then
      skip
      return []
    if !first then
      if (← peek).lexeme == .flowEntry then skip else failure
    let t ← peek
    match t.lexeme with
    | .flowMappingEnd => skip; pure []
    | .key =>
      skip
      let key ← nodeUnless bound [.value, .flowEntry, .flowMappingEnd] false false
      let value ← flowValue bound [.flowEntry, .flowMappingEnd]
      pure ((key, value) :: (← flowEntries bound false))
    | _ =>
      let key ← node bound false false
      pure ((key, emptyScalar t.line) :: (← flowEntries bound false))

end

/-- Reads the directives in front of a document. -/
def directives : (bound : Nat) → (versioned : Bool) → (handles : List (String × String)) →
    Compose (Bool × List (String × String))
  | 0, _, _ => failure
  | bound + 1, versioned, handles => do
    match (← peek).lexeme with
    | .versionDirective major minor =>
      if versioned || major != 1 || minor != 1 then failure
      skip
      directives bound true handles
    | .tagDirective handle expansion =>
      if handles.any (·.1 == handle) then failure
      skip
      directives bound versioned (handles ++ [(handle, expansion)])
    | _ => pure (versioned || !handles.isEmpty, handles)

/-- Reads the first document: nothing for an empty text, and an empty scalar for an empty document. -/
def firstDocument (bound : Nat) : Compose (Option Tree) := do
  let t ← peek
  if t.lexeme == .streamEnd then return none
  let (directed, handles) ← directives bound false []
  modify fun c => { c with handles := handles ++ [("!", "!"), ("!!", "tag:yaml.org,2002:")] }
  let t ← peek
  let root ←
    if t.lexeme == .documentStart then
      skip
      match (← peek).lexeme with
      | .versionDirective .. | .tagDirective .. | .documentStart | .documentEnd | .streamEnd =>
        pure (emptyScalar t.line)
      | _ => node bound true false
    else if directed then failure
    else node bound true false
  discard peek
  return some ⟨root, (← get).anchored⟩

end Composer

/-- The first document of a text. The outer option is empty when the text is not YAML, the inner one when
there is no document. -/
def document (text : String) : Option (Option Tree) :=
  (Composer.firstDocument (16 * text.length + 64)).run' { scanner := .ofText text }

end ClientForge.Yaml
