import JobOperator.Crd.Definition

/-! The definitions of the custom resources: jobs, and the pod groups that they may have. -/

namespace JobOperator.Crd

/-- A note that says what a value is for. -/
def described (description : String) : Note := { description := some description }

/-- The schema of a resource with this kind. -/
def resourceSchema (kind : String) (properties : List (String × Schema)) : Schema :=
  .record
    { title := some kind
      description := some ("Auto-generated derived type for " ++ kind ++ "Spec via `CustomResource`") }
    properties ["spec"]

/-- The schema of a role. -/
def roleSchema : Schema :=
  .record (described "A homogeneously configured group of worker replicas")
    [ ("executable",
        .string { described "Program sent to each pod for execution" with default := some (.str "") }
          (some "byte")),
      ("replicas",
        .integer { described "Desired number of pods. Defaults to 1." with default := some (.int 1) }
          (some 1)),
      ("template",
        .anyObject
          { described "Pod template every replica of this role is created from" with
            default := some (.obj []) }) ]
    []

/-- The schema of a repository of source code. -/
def gitSourceSchema : Schema :=
  let credential : Schema :=
    .string { described "Empty for public repositories" with default := some (.str "") } none
  .record { nullable := true }
    [("password", credential), ("url", .string {} none), ("username", credential)]
    ["url"]

/-- The schema of an archive of source code. -/
def objectStoreSourceSchema : Schema :=
  .record { described "An archive stored in an S3 compatible bucket" with nullable := true }
    [ ("accessKey", .string {} none),
      ("bucket", .string {} none),
      ("endpoint", .string (described "`host:port` of the object store") none),
      ("path", .string (described "Object key of a tar archive inside `bucket`") none),
      ("secretKey", .string {} none) ]
    ["accessKey", "bucket", "endpoint", "path", "secretKey"]

/-- The schema of the specification of a job. -/
def jobSpecSchema : Schema :=
  .record (described "Desired state of an LpJob")
    [ ("enableGangScheduling",
        .boolean
          { described "Whether all pods of the job are admitted together by the gang scheduler" with
            default := some (.bool false) }),
      ("roles",
        .map { described "Roles keyed by name, iterated in name order" with default := some (.obj []) }
          roleSchema),
      ("source",
        .record
          { described "Where application source code is fetched from" with nullable := true }
          [("git", gitSourceSchema), ("objectStore", objectStoreSourceSchema)] []) ]
    []

/-- The schema of the status of a job. -/
def jobStatusSchema : Schema :=
  let time : Schema := .string { nullable := true } (some "date-time")
  let counter : Schema := .integer {} none
  .record { described "Observed state of an LpJob" with nullable := true }
    [ ("completionTime", time),
      ("lastReconcileTime", time),
      ("roleStatuses",
        .map { default := some (.obj []) }
          (.record (described "Pod counters of one role")
            [("completed", counter), ("failed", counter), ("running", counter)]
            ["completed", "failed", "running"])),
      ("startTime", time) ]
    []

/-- The definition of jobs. -/
def job : Definition where
  group := "realai.cn"
  version := "v1alpha1"
  kind := "LpJob"
  singular := "lpjob"
  plural := "lpjobs"
  shortNames := ["lpj"]
  columns :=
    [ { name := "Started", type := "date", path := ".status.startTime" },
      { name := "Completed", type := "date", path := ".status.completionTime" },
      { name := "Age", type := "date", path := ".metadata.creationTimestamp" } ]
  hasStatus := true
  schema := resourceSchema "LpJob" [("spec", jobSpecSchema), ("status", jobStatusSchema)]

/-- The definition of pod groups. -/
def podGroup : Definition where
  group := "scheduling.volcano.sh"
  version := "v1beta1"
  kind := "PodGroup"
  singular := "podgroup"
  plural := "podgroups"
  schema := resourceSchema "PodGroup"
    [ ("spec",
        .record {}
          [ ("minMember",
              .integer
                (described "Pods that must be schedulable together before any of them is admitted")
                none),
            ("priorityClassName", .string { nullable := true } none),
            ("queue", .string { nullable := true } none) ]
          ["minMember"]) ]

end JobOperator.Crd
