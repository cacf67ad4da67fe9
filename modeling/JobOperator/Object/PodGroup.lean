import JobOperator.Object.Meta

/-!
Pod groups, whose pods a gang scheduler admits together. Custom resources are strict: a field is
given once, and a field with a default may be missing but not `null`.
-/

namespace JobOperator

/-- How many pods are admitted together, and in which queue. -/
structure PodGroupSpec where
  minMember : Int32
  queue : Option String := none
  priorityClassName : Option String := none
  deriving DecidableEq, Repr

namespace PodGroupSpec

def fields := Fields.cons (.required "minMember" .int32) <|
  .cons (.optional "queue" .string) <|
  .cons (.optional "priorityClassName" .string) .nil

def codec : Codec PodGroupSpec :=
  .strictRecord fields
    (fun (minMember, queue, priorityClassName, ()) => { minMember, queue, priorityClassName })
    (fun s => (s.minMember, s.queue, s.priorityClassName, ()))

end PodGroupSpec

/-- A pod group. -/
structure PodGroup where
  metadata : ObjectMeta
  spec : PodGroupSpec
  deriving DecidableEq, Repr

namespace PodGroup

/-- The version of the interface that pod groups belong to. -/
def apiVersion : String := "scheduling.volcano.sh/v1beta1"

def fields := Fields.cons (.required "metadata" ObjectMeta.codec) <|
  .cons (.required "spec" PodGroupSpec.codec) .nil

def codec : Codec PodGroup :=
  .withHeader [("apiVersion", apiVersion), ("kind", "PodGroup")] <|
    .strictRecord fields (fun (metadata, spec, ()) => { metadata, spec })
      (fun g => (g.metadata, g.spec, ()))

end PodGroup

end JobOperator
