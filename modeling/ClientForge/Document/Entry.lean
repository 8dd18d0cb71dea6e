import ClientForge.Document.Reading
import ClientForge.Text.Blank

/-!
# Entries of a document

A document as it is written: a tree of namespaces whose enums, classes and members name one another by text.
Nothing is resolved here. `Outcome.ofText` reads a whole document.
-/

namespace ClientForge.Document

/-- A type as written: a name, possibly in a collection, or a choice or combination of types. -/
structure TypeEntry where
  name : String := ""
  collection : String := ""
  nullable : Bool := false
  union : List TypeEntry := []
  intersection : List TypeEntry := []
deriving Inhabited

structure TextEntry where
  description : String := ""
  link : String := ""
  label : String := ""
deriving DecidableEq

structure OptionEntry where
  name : String := ""
  serializationName : String := ""
  text : TextEntry := {}
deriving DecidableEq

structure EnumEntry where
  name : String := ""
  flags : Bool := false
  options : List OptionEntry := []
  text : TextEntry := {}
deriving DecidableEq

structure MappingEntry where
  key : String := ""
  type : TypeEntry := {}

structure DiscriminatorEntry where
  property : String := ""
  mappings : List MappingEntry := []

structure PropertyEntry where
  name : String := ""
  serializationName : String := ""
  kind : String := ""
  type : TypeEntry := {}
  defaultValue : String := ""
  readOnly : Bool := false
  access : String := ""
  inBase : Bool := false
  text : TextEntry := {}

structure ParameterEntry where
  name : String := ""
  serializationName : String := ""
  kind : String := ""
  type : TypeEntry := {}
  optional : Bool := false
  defaultValue : String := ""
  possibleValues : List String := []
  text : TextEntry := {}

structure IndexerEntry where
  name : String := ""
  indexType : TypeEntry := {}
  returnType : TypeEntry := {}
  serializationName : String := ""
  parameterName : String := ""
  text : TextEntry := {}

structure ErrorMappingEntry where
  code : String := ""
  type : TypeEntry := {}

structure PagingEntry where
  itemName : String := ""
  nextLinkName : String := ""
  operationName : String := ""
deriving DecidableEq

structure MethodEntry where
  name : String := ""
  kind : String := ""
  returnType : Option TypeEntry := none
  parameters : List ParameterEntry := []
  access : String := ""
  http : String := ""
  errorMappings : List ErrorMappingEntry := []
  acceptedResponseTypes : List String := []
  bodyContentType : String := ""
  paging : Option PagingEntry := none
  /-- Names of members of the same class. -/
  representedMethod : String := ""
  representedIndexer : String := ""
  accessedProperty : String := ""
  baseUrl : String := ""
  serializerModules : List String := []
  deserializerModules : List String := []
  text : TextEntry := {}

structure ClassEntry where
  name : String := ""
  kind : String := ""
  inherits : Option TypeEntry := none
  implements : List TypeEntry := []
  discriminator : Option DiscriminatorEntry := none
  properties : List PropertyEntry := []
  indexers : List IndexerEntry := []
  methods : List MethodEntry := []
  text : TextEntry := {}

structure NamespaceEntry where
  name : String := ""
  enums : List EnumEntry := []
  classes : List ClassEntry := []
  namespaces : List NamespaceEntry := []
deriving Inhabited

/-! ### Shapes

Types and namespaces nest, so their shapes take a bound on the depth. -/

open ClientForge.Yaml

/-- The fields of a description, inside the record that it describes. -/
def textFields {α : Type} (get : α → TextEntry) (set : TextEntry → α → α) : List (Field α) :=
  [.of "description" .text fun s a => set { get a with description := s } a,
    .of "link" .text fun s a => set { get a with link := s } a,
    .of "link_label" .text fun s a => set { get a with label := s } a]

/-- A type written as one word: `?` after it makes it nullable, and `[]` before that a list. -/
def TypeEntry.ofWord (word : String) : TypeEntry :=
  let word := Text.trim word
  let nullable := Text.endsWith word "?"
  let word := Text.dropBack word "?"
  { name := Text.dropBack word "[]"
    collection := if Text.endsWith word "[]" then "list" else ""
    nullable }

def typeFields (members : Shape (List TypeEntry)) : List (Field TypeEntry) := [
  .of "name" .text fun s t => { t with name := s },
  .of "collection" .text fun s t => { t with collection := s },
  .of "nullable" .flag fun b t => { t with nullable := b },
  .of "union" members fun ts t => { t with union := ts },
  .of "intersection" members fun ts t => { t with intersection := ts }]

/-- The mapping form of a type. It is read apart, so that fields that a type does not have are passed
over. -/
def typeMapping (members : Shape (List TypeEntry)) : Record TypeEntry where
  expected := "irdoc.plain"
  blank := {}
  fields := typeFields members

/-- Reads the mapping form of a type into a type. -/
def readTypeMapping (bound : Nat) (members : Shape (List TypeEntry)) (t : TypeEntry) (n : Node) :
    Reading (Option TypeEntry) :=
  let record := { typeMapping members with blank := t }
  apart (visit *> (record.shape bound).readTarget n)

/-- The mapping form of a type behind the tag of null. It is read with all that is around it, but what it
merges is not, and sets again what was set before. -/
def nullTypeMapping (bound : Nat) (members : Shape (List TypeEntry)) : Record TypeEntry where
  expected := "irdoc.typeDoc"
  blank := {}
  fields := typeFields members
  storeMerged := some fun n t => return (← readTypeMapping bound members t n).getD t

/-- A type: a word or a mapping. -/
def typeShape (bound : Nat) : Shape TypeEntry where
  expected := "irdoc.typeDoc"
  readTarget n :=
    match bound with
    | 0 => failure
    | bound + 1 =>
      if n.isNull then ((nullTypeMapping bound (typeShape bound).list).shape bound).readTarget n
      else match n with
        | .scalar _ _ _ text => pure (some (.ofWord text))
        | n => readTypeMapping bound (typeShape bound).list {} n

def optionRecord : Record OptionEntry where
  expected := "irdoc.optionDoc"
  blank := {}
  fields :=
    [.of "name" .text fun s o => { o with name := s },
      .of "serialization_name" .text fun s o => { o with serializationName := s }] ++
    textFields (·.text) fun t o => { o with text := t }

def enumRecord (bound : Nat) : Record EnumEntry where
  expected := "irdoc.enumDoc"
  blank := {}
  fields :=
    [.of "name" .text fun s e => { e with name := s },
      .of "flags" .flag fun b e => { e with flags := b },
      .of "options" (optionRecord.shape bound).list fun os e => { e with options := os }] ++
    textFields (·.text) fun t e => { e with text := t }

def mappingRecord (bound : Nat) : Record MappingEntry where
  expected := "irdoc.mappingDoc"
  blank := {}
  fields := [
    .of "key" .text fun s m => { m with key := s },
    .of "type" (typeShape bound) fun t m => { m with type := t }]

def discriminatorRecord (bound : Nat) : Record DiscriminatorEntry where
  expected := "irdoc.discriminatorDoc"
  blank := {}
  fields := [
    .of "property" .text fun s d => { d with property := s },
    .of "mappings" ((mappingRecord bound).shape bound).list fun ms d => { d with mappings := ms }]

def propertyRecord (bound : Nat) : Record PropertyEntry where
  expected := "irdoc.propertyDoc"
  blank := {}
  fields :=
    [.of "name" .text fun s p => { p with name := s },
      .of "serialization_name" .text fun s p => { p with serializationName := s },
      .of "kind" .text fun s p => { p with kind := s },
      .of "type" (typeShape bound) fun t p => { p with type := t },
      .of "default" .text fun s p => { p with defaultValue := s },
      .of "read_only" .flag fun b p => { p with readOnly := b },
      .of "access" .text fun s p => { p with access := s },
      .of "exists_in_base_type" .flag fun b p => { p with inBase := b }] ++
    textFields (·.text) fun t p => { p with text := t }

def parameterRecord (bound : Nat) : Record ParameterEntry where
  expected := "irdoc.parameterDoc"
  blank := {}
  fields :=
    [.of "name" .text fun s p => { p with name := s },
      .of "serialization_name" .text fun s p => { p with serializationName := s },
      .of "kind" .text fun s p => { p with kind := s },
      .of "type" (typeShape bound) fun t p => { p with type := t },
      .of "optional" .flag fun b p => { p with optional := b },
      .of "default" .text fun s p => { p with defaultValue := s },
      .of "possible_values" Shape.text.list fun vs p => { p with possibleValues := vs }] ++
    textFields (·.text) fun t p => { p with text := t }

def indexerRecord (bound : Nat) : Record IndexerEntry where
  expected := "irdoc.indexerDoc"
  blank := {}
  fields :=
    [.of "name" .text fun s x => { x with name := s },
      .of "index_type" (typeShape bound) fun t x => { x with indexType := t },
      .of "return_type" (typeShape bound) fun t x => { x with returnType := t },
      .of "serialization_name" .text fun s x => { x with serializationName := s },
      .of "parameter_name" .text fun s x => { x with parameterName := s }] ++
    textFields (·.text) fun t x => { x with text := t }

def errorMappingRecord (bound : Nat) : Record ErrorMappingEntry where
  expected := "irdoc.errorMappingDoc"
  blank := {}
  fields := [
    .of "code" .text fun s e => { e with code := s },
    .of "type" (typeShape bound) fun t e => { e with type := t }]

def pagingRecord : Record PagingEntry where
  expected := "irdoc.pagingDoc"
  blank := {}
  fields := [
    .of "item_name" .text fun s p => { p with itemName := s },
    .of "next_link_name" .text fun s p => { p with nextLinkName := s },
    .of "operation_name" .text fun s p => { p with operationName := s }]

def methodRecord (bound : Nat) : Record MethodEntry where
  expected := "irdoc.methodDoc"
  blank := {}
  fields :=
    [.of "name" .text fun s m => { m with name := s },
      .of "kind" .text fun s m => { m with kind := s },
      .of "return_type" (typeShape bound).optional fun t m => { m with returnType := some t },
      .of "parameters" ((parameterRecord bound).shape bound).list fun ps m => { m with parameters := ps },
      .of "access" .text fun s m => { m with access := s },
      .of "http_method" .text fun s m => { m with http := s },
      .of "error_mappings" ((errorMappingRecord bound).shape bound).list
        fun es m => { m with errorMappings := es },
      .of "accepted_response_types" Shape.text.list fun ts m => { m with acceptedResponseTypes := ts },
      .of "request_body_content_type" .text fun s m => { m with bodyContentType := s },
      .of "paging" (pagingRecord.shape bound).optional fun p m => { m with paging := some p },
      .of "original_method" .text fun s m => { m with representedMethod := s },
      .of "original_indexer" .text fun s m => { m with representedIndexer := s },
      .of "accessed_property" .text fun s m => { m with accessedProperty := s },
      .of "base_url" .text fun s m => { m with baseUrl := s },
      .of "serializer_modules" Shape.text.list fun ms m => { m with serializerModules := ms },
      .of "deserializer_modules" Shape.text.list fun ms m => { m with deserializerModules := ms }] ++
    textFields (·.text) fun t m => { m with text := t }

def classRecord (bound : Nat) : Record ClassEntry where
  expected := "irdoc.classDoc"
  blank := {}
  fields :=
    [.of "name" .text fun s c => { c with name := s },
      .of "kind" .text fun s c => { c with kind := s },
      .of "inherits" (typeShape bound).optional fun t c => { c with inherits := some t },
      .of "implements" (typeShape bound).list fun ts c => { c with implements := ts },
      .of "discriminator" ((discriminatorRecord bound).shape bound).optional
        fun d c => { c with discriminator := some d },
      .of "properties" ((propertyRecord bound).shape bound).list fun ps c => { c with properties := ps },
      .of "indexers" ((indexerRecord bound).shape bound).list fun xs c => { c with indexers := xs },
      .of "methods" ((methodRecord bound).shape bound).list fun ms c => { c with methods := ms }] ++
    textFields (·.text) fun t c => { c with text := t }

def namespaceRecord (bound : Nat) (children : Shape (List NamespaceEntry)) : Record NamespaceEntry where
  expected := "irdoc.namespaceDoc"
  blank := {}
  fields := [
    .of "name" .text fun s n => { n with name := s },
    .of "enums" ((enumRecord bound).shape bound).list fun es n => { n with enums := es },
    .of "classes" ((classRecord bound).shape bound).list fun cs n => { n with classes := cs },
    .of "namespaces" children fun ns n => { n with namespaces := ns }]

/-- A namespace with all that is below it. -/
def namespaceShape (bound : Nat) : Shape NamespaceEntry where
  expected := "irdoc.namespaceDoc"
  readTarget n :=
    match bound with
    | 0 => failure
    | bound + 1 => ((namespaceRecord bound (namespaceShape bound).list).shape bound).readTarget n

/-- What reading a document comes to. -/
inductive Outcome where
  /-- The text is not YAML. -/
  | unreadable
  /-- There is no document in the text. -/
  | absent
  | mismatched (found : List Mismatch)
  | read (root : NamespaceEntry)

/-- Reads the namespace that a text describes. No node is nested deeper than the text is long. -/
def Outcome.ofText (text : String) : Outcome :=
  match Yaml.document text with
  | none => .unreadable
  | some none => .absent
  | some (some tree) =>
    match (namespaceShape (text.length + 1)).run tree with
    | none => .unreadable
    | some (.error found) => .mismatched found
    | some (.ok root) => .read (root.getD {})

end ClientForge.Document
