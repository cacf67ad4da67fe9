import JobOperator.Json.Basic

/-!
Schemas of custom resources: what an API server lets into a field, and what it fills in where a
field is missing.
-/

namespace JobOperator.Crd

/-- What a schema says besides the type of a value: what the value is for, what is filled in where it
is missing, and whether it may be null. -/
structure Note where
  title : Option String := none
  description : Option String := none
  default : Option Json := none
  nullable : Bool := false
  deriving DecidableEq

/-- A schema. -/
inductive Schema where
  | boolean (note : Note)
  /-- An integer of 32 bits, not below the bound if there is one. -/
  | integer (note : Note) (minimum : Option Nat)
  | string (note : Note) (format : Option String)
  /-- An object with these properties, of which some are required. -/
  | record (note : Note) (properties : List (String × Schema)) (required : List String)
  /-- An object whose properties have any names. -/
  | map (note : Note) (values : Schema)
  /-- An object that is kept as it is. -/
  | anyObject (note : Note)

namespace Schema

/-- What some types add to a schema. -/
structure Facets where
  values : Option Json := none
  format : Option String := none
  minimum : Option Nat := none
  properties : List (String × Json) := []
  required : List String := []
  keepsUnknown : Bool := false

/-- A schema of a type as a document, its members in the order of their keys. -/
def assemble (type : String) (note : Note) (facets : Facets) : Json :=
  let number (n : Nat) : Json := .num (.decimal (toString n ++ ".0"))
  let members : List (String × Option Json) :=
    [ ("additionalProperties", facets.values),
      ("default", note.default),
      ("description", note.description.map .str),
      ("format", facets.format.map .str),
      ("minimum", facets.minimum.map number),
      ("nullable", if note.nullable then some (.bool true) else none),
      ("properties", if facets.properties.isEmpty then none else some (.obj facets.properties)),
      ("required", if facets.required.isEmpty then none
        else some (.arr (facets.required.map Json.str))),
      ("title", note.title.map .str),
      ("type", some (.str type)),
      ("x-kubernetes-preserve-unknown-fields",
        if facets.keepsUnknown then some (.bool true) else none) ]
  .obj (members.filterMap fun (key, value) => value.map (key, ·))

mutual

/-- A schema as a document. -/
def encode : Schema → Json
  | boolean note => assemble "boolean" note {}
  | integer note minimum => assemble "integer" note { format := some "int32", minimum }
  | string note format => assemble "string" note { format }
  | record note properties required =>
    assemble "object" note { properties := encodeProperties properties, required }
  | map note values => assemble "object" note { values := some (encode values) }
  | anyObject note => assemble "object" note { keepsUnknown := true }

/-- Properties as members. -/
def encodeProperties : List (String × Schema) → List (String × Json)
  | [] => []
  | (name, schema) :: rest => (name, encode schema) :: encodeProperties rest

end

end Schema

end JobOperator.Crd
