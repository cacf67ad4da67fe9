import JobOperator.Json.Record

/-!
Metadata that every object of a cluster has. The objects a cluster defines itself are lenient: any
field may be missing or `null`, and of repeated members the last counts.
-/

namespace JobOperator

/-- A reference from an object to one that owns it. -/
structure OwnerReference where
  apiVersion : String := ""
  kind : String := ""
  name : String := ""
  uid : String := ""
  controller : Option Bool := none
  blockOwnerDeletion : Option Bool := none
  deriving DecidableEq, Repr

namespace OwnerReference

def fields := Fields.cons (.zeroed "apiVersion" "" .string) <|
  .cons (.zeroed "kind" "" .string) <|
  .cons (.zeroed "name" "" .string) <|
  .cons (.zeroed "uid" "" .string) <|
  .cons (.optional "controller" .bool) <|
  .cons (.optional "blockOwnerDeletion" .bool) .nil

def codec : Codec OwnerReference :=
  .lenientRecord fields
    (fun (apiVersion, kind, name, uid, controller, blockOwnerDeletion, ()) =>
      { apiVersion, kind, name, uid, controller, blockOwnerDeletion })
    (fun o => (o.apiVersion, o.kind, o.name, o.uid, o.controller, o.blockOwnerDeletion, ()))

end OwnerReference

/-- The metadata of an object. -/
structure ObjectMeta where
  name : Option String := none
  generateName : Option String := none
  «namespace» : Option String := none
  uid : Option String := none
  resourceVersion : Option String := none
  generation : Option Int64 := none
  labels : Option (StringMap String) := none
  annotations : Option (StringMap String) := none
  finalizers : Option (List String) := none
  ownerReferences : Option (List OwnerReference) := none
  deriving DecidableEq, Repr

namespace ObjectMeta

def fields := Fields.cons (.optional "name" .string) <|
  .cons (.optional "generateName" .string) <|
  .cons (.optional "namespace" .string) <|
  .cons (.optional "uid" .string) <|
  .cons (.optional "resourceVersion" .string) <|
  .cons (.optional "generation" .int64) <|
  .cons (.optional "labels" (.stringMap .string)) <|
  .cons (.optional "annotations" (.stringMap .string)) <|
  .cons (.optional "finalizers" (.list .string)) <|
  .cons (.optional "ownerReferences" (.list OwnerReference.codec)) .nil

def codec : Codec ObjectMeta :=
  .lenientRecord fields
    (fun (name, generateName, ns, uid, resourceVersion, generation, labels, annotations,
        finalizers, ownerReferences, ()) =>
      { name, generateName, «namespace» := ns, uid, resourceVersion, generation, labels,
        annotations, finalizers, ownerReferences })
    (fun m => (m.name, m.generateName, m.namespace, m.uid, m.resourceVersion, m.generation,
      m.labels, m.annotations, m.finalizers, m.ownerReferences, ()))

/-- The name of an object: its own, or else the one its name is generated from. -/
def nameAny (m : ObjectMeta) : String := (m.name.or m.generateName).getD ""

/-- The text of a label in a metadata that has it. -/
def label? (m : ObjectMeta) (key : String) : Option String := do (← m.labels).get? key

end ObjectMeta

end JobOperator
