import JobOperator.Job.Basic
import JobOperator.Object.PodGroup
import JobOperator.Object.Service

/-! The kinds of objects that a store keeps, and what their objects have in common. -/

namespace JobOperator

/-- A kind of objects. -/
inductive Kind where
  | job
  | pod
  | configMap
  | service
  | podGroup
  deriving DecidableEq, Repr, Inhabited

namespace Kind

/-- All kinds. -/
def all : List Kind := [.job, .pod, .configMap, .service, .podGroup]

/-- The name of a kind. -/
def name : Kind → String
  | job => Job.kind
  | pod => "Pod"
  | configMap => "ConfigMap"
  | service => "Service"
  | podGroup => "PodGroup"

/-- The name of the collection of a kind. -/
def plural : Kind → String
  | job => "lpjobs"
  | pod => "pods"
  | configMap => "configmaps"
  | service => "services"
  | podGroup => "podgroups"

/-- The version of the interface that a kind belongs to. -/
def apiVersion : Kind → String
  | job => Job.apiVersion
  | podGroup => PodGroup.apiVersion
  | pod | configMap | service => "v1"

/-- The objects of a kind. -/
@[reducible] def Object : Kind → Type
  | job => Job
  | pod => Pod
  | configMap => ConfigMap
  | service => Service
  | podGroup => PodGroup

/-- The notation of the objects of a kind. -/
def codec : (kind : Kind) → Codec kind.Object
  | job => Job.codec
  | pod => Pod.codec
  | configMap => ConfigMap.codec
  | service => Service.codec
  | podGroup => PodGroup.codec

/-- The metadata of an object. -/
def metadata : (kind : Kind) → kind.Object → ObjectMeta
  | job, object => Job.metadata object
  | pod, object => Pod.metadata object
  | configMap, object => ConfigMap.metadata object
  | service, object => Service.metadata object
  | podGroup, object => PodGroup.metadata object

/-- An object with other metadata. -/
def withMetadata : (kind : Kind) → ObjectMeta → kind.Object → kind.Object
  | job, metadata, (object : Job) => { object with metadata }
  | pod, metadata, (object : Pod) => { object with metadata }
  | configMap, metadata, (object : ConfigMap) => { object with metadata }
  | service, metadata, (object : Service) => { object with metadata }
  | podGroup, metadata, (object : PodGroup) => { object with metadata }

end Kind

end JobOperator
