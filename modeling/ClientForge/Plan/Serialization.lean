import ClientForge.Plan.Context

/-!
# Serializing and deserializing

A class writes and reads its own custom properties, in the order of their names. Both directions choose the
variant of a value by the same rule, so that what is written can be read; read-only properties are read and
never written.
-/

namespace ClientForge.Plan

open ClientForge.Graph

/-- How values of a type are read and written. Every property of a document has a type; where one is missing, it is
refused as a composed type would be. -/
def variantOf (c : Context) (type : Option TypeExpr) : Except Failure ValueVariant :=
  match type.bind TypeExpr.ref? with
  | none =>
    if c.policy.composedTypes then .ok .composed
    else .error (Convention.unsupportedType c.graph c.policy.target (type.getD (.scalar ⟨"", none, .none, false⟩)))
  | some t =>
    .ok <|
      if (c.graph.enumOf t).isSome then if t.isCollection then .collectionOfEnum else .enumeration
      else if (c.graph.classOf t).isSome then if t.isCollection then .collectionOfObject else .object
      else if t.isCollection then .collectionOfPrimitive
      else if t.isByteArray then .byteArray
      else .primitive

/-- The custom properties that a class handles itself, by name, with or without those that are only read. -/
def ownProperties (cls : ClassDef) (withReadOnly : Bool) : List Property :=
  (cls.properties.filter fun p =>
    p.kind == .custom && !p.inBase && (withReadOnly || !p.readOnly)).mergeSort
    fun p q => decide (p.name ≤ q.name)

def slotOf (c : Context) (p : Property) : Except Failure ValueSlot := do
  pure ⟨p.wireName, p, ← variantOf c p.type⟩

def serializer (c : Context) (cls : ClassDef) (m : Method) : Except Failure Body := do
  let slots ← (ownProperties cls false).mapM (slotOf c)
  pure {
    method := m
    operations :=
      ((c.graph.baseClass cls).map Operation.callBaseSerializer).toList ++
        slots.map Operation.writeValue ++
        ((cls.propertyOfKind .additionalData).map Operation.writeAdditionalData).toList }

def deserializer (c : Context) (cls : ClassDef) (m : Method) : Except Failure Body := do
  let slots ← (ownProperties cls true).mapM (slotOf c)
  pure { method := m, operations := [.fieldMap (c.graph.baseClass cls) slots] }

end ClientForge.Plan
