import JobOperator.Job.Ownership
import JobOperator.Store.Program

/-!
A store in memory. It gives each object a namespace and a uid, keeps the calls that change it, and
can be told to refuse calls, or to answer as if another client had been faster.
-/

namespace JobOperator

/-- Objects of one kind, by namespace and name. -/
abbrev Table (α : Type) := StringMap (StringMap α)

namespace Table

variable {α : Type}

/-- The objects of a namespace. -/
def within (table : Table α) (ns : String) : StringMap α := (table.get? ns).getD ∅

/-- The object of this namespace and name. -/
def find? (table : Table α) (ns name : String) : Option α := (table.within ns).get? name

/-- The table with an object set. -/
def put (table : Table α) (ns name : String) (object : α) : Table α :=
  table.insert ns ((table.within ns).insert name object)

/-- The table without an object. -/
def remove (table : Table α) (ns name : String) : Table α :=
  table.insert ns ((table.within ns).erase name)

end Table

/-- The objects of all kinds. -/
structure Tables where
  jobs : Table Job := ∅
  pods : Table Pod := ∅
  configMaps : Table ConfigMap := ∅
  services : Table Service := ∅
  podGroups : Table PodGroup := ∅

namespace Tables

/-- The objects of a kind. -/
def table (tables : Tables) : (kind : Kind) → Table kind.Object
  | .job => tables.jobs
  | .pod => tables.pods
  | .configMap => tables.configMaps
  | .service => tables.services
  | .podGroup => tables.podGroups

/-- The tables with other objects of a kind. -/
def setTable (tables : Tables) : (kind : Kind) → Table kind.Object → Tables
  | .job, jobs => { tables with jobs }
  | .pod, pods => { tables with pods }
  | .configMap, configMaps => { tables with configMaps }
  | .service, services => { tables with services }
  | .podGroup, podGroups => { tables with podGroups }

end Tables

/-- A call that may change a store. -/
inductive Change where
  | create (kind : Kind) (name : String)
  | delete (kind : Kind) (name : String)
  | writeStatus (name : String)
  deriving DecidableEq, Repr

/-- Objects in memory, the number of uids given, the changes asked for, last first, and how calls
fail: deleting a name in `undeletable` is refused; one in `vanishing` is reported not to be there;
creating an object of a kind in `uncreatable` is refused; one of a kind in `contested` is reported
to exist, as if another client had just created it. -/
structure Memory where
  tables : Tables := {}
  uids : Nat := 0
  changes : List Change := []
  undeletable : List String := []
  vanishing : List String := []
  uncreatable : List Kind := []
  contested : List Kind := []
  statusRefused : Bool := false

namespace Memory

/-- The object of this kind, namespace and name. -/
def find? (memory : Memory) (kind : Kind) (ns name : String) : Option kind.Object :=
  (memory.tables.table kind).find? ns name

/-- The names of the objects of a kind and namespace, in order. -/
def names (memory : Memory) (kind : Kind) (ns : String) : List String :=
  ((memory.tables.table kind).within ns).keys

/-- The uid that follows `n` others. -/
def freshUid (n : Nat) : String := "uid-" ++ String.ofList (Decimal.ofNat (n + 1))

/-- Keeps an object under its name, with this namespace, and with a fresh uid if it has none. -/
def keep (memory : Memory) (kind : Kind) (ns : String) (object : kind.Object) :
    kind.Object × Memory :=
  let metadata := { kind.metadata object with «namespace» := some ns }
  let (metadata, uids) := match metadata.uid with
    | some _ => (metadata, memory.uids)
    | none => ({ metadata with uid := some (freshUid memory.uids) }, memory.uids + 1)
  let object := kind.withMetadata metadata object
  let table := (memory.tables.table kind).put ns metadata.nameAny object
  (object, { memory with tables := memory.tables.setTable kind table, uids })

/-- Notes a change that is asked for. -/
def note (memory : Memory) (change : Change) : Memory :=
  { memory with changes := change :: memory.changes }

/-- Gives a pod another status, if there is such a pod. -/
def setPodStatus? (memory : Memory) (ns name : String) (status : PodStatus) : Option Memory :=
  (memory.find? .pod ns name).map fun pod =>
    (memory.keep .pod ns ({ pod with status := some status } : Pod)).2

/-- The status of a pod in a phase, whose only container is in a state. -/
def podStatus (phase : String) (state : ContainerState) : PodStatus :=
  { phase := some phase
    containerStatuses := some [{ name := "main", state := some state }] }

/-- The status of a pod that runs. -/
def running : PodStatus := podStatus "Running" { running := some {} }

/-- The status of a pod that has ended with an exit code. -/
def terminated (exitCode : Int32) : PodStatus :=
  podStatus (if exitCode = 0 then "Succeeded" else "Failed") { terminated := some { exitCode } }

/-- Creates an object. -/
def create (memory : Memory) (kind : Kind) (ns : String) (object : kind.Object) :
    Except StoreError kind.Object × Memory :=
  let name := (kind.metadata object).nameAny
  let memory := memory.note (.create kind name)
  if memory.uncreatable.contains kind then (.error (.rejected kind name "create rejected"), memory)
  else if (memory.find? kind ns name).isSome then (.error (.alreadyExists kind name), memory)
  else
    let (object, memory) := memory.keep kind ns object
    if memory.contested.contains kind then (.error (.alreadyExists kind name), memory)
    else (.ok object, memory)

/-- Deletes an object. -/
def delete (memory : Memory) (kind : Kind) (ns name : String) : Except StoreError Unit × Memory :=
  let memory := memory.note (.delete kind name)
  if memory.undeletable.contains name then
    (.error (.rejected kind name "delete rejected"), memory)
  else
    let table := (memory.tables.table kind).remove ns name
    let left := { memory with tables := memory.tables.setTable kind table }
    if memory.vanishing.contains name || (memory.find? kind ns name).isNone then
      (.error (.notFound kind name), left)
    else (.ok (), left)

/-- Writes the status of a job. -/
def writeStatus (memory : Memory) (job : Job) : Except StoreError Unit × Memory :=
  let name := job.name
  let ns := job.metadata.namespace.getD ""
  let memory := memory.note (.writeStatus name)
  if memory.statusRefused then (.error (.rejected .job name "status update rejected"), memory)
  else
    match memory.find? .job ns name with
    | none => (.error (.notFound .job name), memory)
    | some stored =>
      (.ok (), (memory.keep .job ns ({ stored with status := job.status } : Job)).2)

/-- The pods that a job controls in its namespace. -/
def listPods (memory : Memory) (job : Job) : List Pod :=
  (memory.tables.pods.within (job.metadata.namespace.getD "")).values.filter
    (fun pod => job.controls pod.metadata)

/-- The store of a memory. -/
def handler : Handler Memory
  | .get kind ns name, memory => (.ok (memory.find? kind ns name), memory)
  | .create kind ns object, memory => memory.create kind ns object
  | .delete kind ns name, memory => memory.delete kind ns name
  | .listPods job, memory => (.ok (memory.listPods job), memory)
  | .writeStatus job, memory => memory.writeStatus job

end Memory

end JobOperator
