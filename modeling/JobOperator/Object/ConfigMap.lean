import JobOperator.Object.Meta
import JobOperator.Text.Base64

/-! Config maps and the bytes they hold. -/

namespace JobOperator

/-- Bytes, written as Base64; `null` stands for none. -/
def Codec.bytes : Codec (List UInt8) where
  encode bytes := .str (String.ofList (Base64.encode bytes))
  decode
    | .null => .ok []
    | .str text =>
      match Base64.decode text.toList with
      | some bytes => .ok bytes
      | none => .error .mismatch
    | other => refuse other

/-- Named files, as bytes or as text. -/
structure ConfigMap where
  metadata : ObjectMeta := {}
  binaryData : Option (StringMap (List UInt8)) := none
  data : Option (StringMap String) := none
  deriving DecidableEq, Repr

namespace ConfigMap

def fields := Fields.cons (.constant "apiVersion" "v1") <|
  .cons (.constant "kind" "ConfigMap") <|
  .cons (.zeroed "metadata" {} ObjectMeta.codec) <|
  .cons (.optional "binaryData" (.stringMap .bytes)) <|
  .cons (.optional "data" (.stringMap .string)) .nil

def codec : Codec ConfigMap :=
  .lenientRecord fields
    (fun ((), (), metadata, binaryData, data, ()) => { metadata, binaryData, data })
    (fun c => ((), (), c.metadata, c.binaryData, c.data, ()))

end ConfigMap

end JobOperator
