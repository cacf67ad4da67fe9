import JobOperator.Object.Meta

/-! Services, which give pods names in the network. -/

namespace JobOperator

/-- A port of a service. -/
structure ServicePort where
  name : Option String := none
  port : Int32
  deriving DecidableEq, Repr

namespace ServicePort

def fields := Fields.cons (.optional "name" .string) <| .cons (.zeroed "port" 0 .int32) .nil

def codec : Codec ServicePort :=
  .lenientRecord fields (fun (name, port, ()) => { name, port }) (fun p => (p.name, p.port, ()))

end ServicePort

/-- Which pods a service stands for, and how it is reached. -/
structure ServiceSpec where
  ports : Option (List ServicePort) := none
  selector : Option (StringMap String) := none
  clusterIP : Option String := none
  deriving DecidableEq, Repr

namespace ServiceSpec

def fields := Fields.cons (.optional "ports" (.list ServicePort.codec)) <|
  .cons (.optional "selector" (.stringMap .string)) <|
  .cons (.optional "clusterIP" .string) .nil

def codec : Codec ServiceSpec :=
  .lenientRecord fields
    (fun (ports, selector, clusterIP, ()) => { ports, selector, clusterIP })
    (fun s => (s.ports, s.selector, s.clusterIP, ()))

end ServiceSpec

/-- A service. -/
structure Service where
  metadata : ObjectMeta := {}
  spec : Option ServiceSpec := none
  deriving DecidableEq, Repr

namespace Service

def fields := Fields.cons (.constant "apiVersion" "v1") <|
  .cons (.constant "kind" "Service") <|
  .cons (.zeroed "metadata" {} ObjectMeta.codec) <|
  .cons (.optional "spec" ServiceSpec.codec) .nil

def codec : Codec Service :=
  .lenientRecord fields (fun ((), (), metadata, spec, ()) => { metadata, spec })
    (fun s => ((), (), s.metadata, s.spec, ()))

end Service

end JobOperator
