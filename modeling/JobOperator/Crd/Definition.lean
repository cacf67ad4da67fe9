import JobOperator.Crd.Schema

/-!
Definitions of custom resources: under which names an API server keeps the resources of a kind, what
it lets into them, and which columns a list of them shows.
-/

namespace JobOperator.Crd

/-- A column of a list of resources. -/
structure Column where
  name : String
  type : String
  path : String
  deriving DecidableEq, Repr

/-- The definition of a custom resource whose objects belong to a namespace. -/
structure Definition where
  group : String
  version : String
  kind : String
  singular : String
  plural : String
  shortNames : List String := []
  columns : List Column := []
  /-- Whether the status is written apart from the rest. -/
  hasStatus : Bool := false
  schema : Schema

namespace Definition

/-- A column as a document. -/
def encodeColumn (column : Column) : Json :=
  .obj [("jsonPath", .str column.path), ("name", .str column.name), ("type", .str column.type)]

/-- The only version of a resource as a document. -/
def encodeVersion (definition : Definition) : Json :=
  .obj
    [ ("additionalPrinterColumns", .arr (definition.columns.map encodeColumn)),
      ("name", .str definition.version),
      ("schema", .obj [("openAPIV3Schema", definition.schema.encode)]),
      ("served", .bool true),
      ("storage", .bool true),
      ("subresources", .obj (if definition.hasStatus then [("status", .obj [])] else [])) ]

/-- The names of a resource as a document. -/
def encodeNames (definition : Definition) : Json :=
  .obj
    [ ("categories", .arr []),
      ("kind", .str definition.kind),
      ("plural", .str definition.plural),
      ("shortNames", .arr (definition.shortNames.map Json.str)),
      ("singular", .str definition.singular) ]

/-- A definition as a document. -/
def encode (definition : Definition) : Json :=
  .obj
    [ ("apiVersion", .str "apiextensions.k8s.io/v1"),
      ("kind", .str "CustomResourceDefinition"),
      ("metadata", .obj [("name", .str (definition.plural ++ "." ++ definition.group))]),
      ("spec", .obj
        [ ("group", .str definition.group),
          ("names", definition.encodeNames),
          ("scope", .str "Namespaced"),
          ("versions", .arr [definition.encodeVersion]) ]) ]

end Definition

end JobOperator.Crd
