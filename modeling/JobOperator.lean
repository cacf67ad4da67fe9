import JobOperator.SortedMap
import JobOperator.Json.Reader
import JobOperator.Json.Printer
import JobOperator.Json.MergePatch
import JobOperator.Json.Record
import JobOperator.Text.Base64
import JobOperator.Instant.Timestamp
import JobOperator.Object.Pod
import JobOperator.Object.ConfigMap
import JobOperator.Object.Service
import JobOperator.Object.PodGroup
import JobOperator.Job.State
import JobOperator.Job.Names
import JobOperator.Job.Replica
import JobOperator.Pass.Basic
import JobOperator.Api.Key
import JobOperator.Api.Request
import JobOperator.Api.Cluster
import JobOperator.Api.Server
import JobOperator.Api.Client
import JobOperator.Store.Memory
import JobOperator.Yaml.Cursor
import JobOperator.Yaml.Scalar
import JobOperator.Yaml.Token
import JobOperator.Yaml.Node
import JobOperator.Config.Reader
import JobOperator.Controller.Basic
import JobOperator.Controller.Run
import JobOperator.Yaml.Printer
import JobOperator.Crd.Resources
import JobOperator.Api.Access
import JobOperator.CommandLine.Launch
import JobOperator.CommandLine.Reader
import JobOperator.Main
import JobOperator.Proofs.SortedMap
import JobOperator.Proofs.Json.Members
import JobOperator.Proofs.Json.MergePatch
import JobOperator.Proofs.Codec.Record
import JobOperator.Proofs.Codec.Lawful
import JobOperator.Proofs.Text.Base64
import JobOperator.Proofs.Object.Lawful
import JobOperator.Proofs.Text.Decimal
import JobOperator.Proofs.Instant.Calendar
import JobOperator.Proofs.Instant.Timestamp
import JobOperator.Proofs.Job.Names
import JobOperator.Proofs.Codec.Patch
import JobOperator.Proofs.Job.Status
import JobOperator.Proofs.Job.Patch
import JobOperator.Proofs.Job.Renewal
import JobOperator.Proofs.Json.Words
import JobOperator.Proofs.Json.Printed
import JobOperator.Proofs.Codec.Plain
import JobOperator.Proofs.Job.RoundTrip
import JobOperator.Proofs.Store.Program
import JobOperator.Proofs.Api.Cluster
import JobOperator.Proofs.Object.Metadata
import JobOperator.Proofs.Api.Client
import JobOperator.Proofs.Api.Server
import JobOperator.Proofs.Pass.Children
import JobOperator.Proofs.Pass.Replicas
import JobOperator.Proofs.Pass.Calls
import JobOperator.Proofs.Pass.Listing
import JobOperator.Proofs.Pass.Desired
import JobOperator.Proofs.Pass.Growth
import JobOperator.Proofs.Pass.Progress
import JobOperator.Proofs.Pass.Effect
import JobOperator.Proofs.Pass.Step
import JobOperator.Proofs.Pass.Idempotence
import JobOperator.Proofs.Pass.Retry
import JobOperator.Proofs.Pass.Timeline
import JobOperator.Proofs.Store.History
import JobOperator.Proofs.Pass.Finalization
import JobOperator.Proofs.Json.Unrepeated
import JobOperator.Proofs.Pass.Persisted
import JobOperator.Proofs.Api.Conversation
import JobOperator.Proofs.Pass.Schedule
import JobOperator.Proofs.Pass.Course
import JobOperator.Proofs.Object.Retention
import JobOperator.Proofs.Api.Shared
import JobOperator.Proofs.Pass.Homed
import JobOperator.Proofs.Pass.Incarnation
import JobOperator.Proofs.Api.Frame
import JobOperator.Proofs.Api.Deletion
import JobOperator.Proofs.Pass.Stage
import JobOperator.Proofs.Pass.Stopping
import JobOperator.Proofs.Pass.Survivors
import JobOperator.Proofs.Pass.Recount
import JobOperator.Proofs.Pass.StopRequest
import JobOperator.Proofs.Store.Interleaving
import JobOperator.Proofs.Pass.Separation
import JobOperator.Proofs.Pass.Foreign
import JobOperator.Proofs.Json.Path
import JobOperator.Proofs.Pass.Untouched
import JobOperator.Proofs.Pass.Overlap
import JobOperator.Proofs.Pass.Accounted
import JobOperator.Proofs.Pass.Neighbours
import JobOperator.Proofs.Pass.Gang
import JobOperator.Proofs.Controller.Decision
import JobOperator.Proofs.Pass.Absence
import JobOperator.Proofs.Pass.Counters
import JobOperator.Proofs.Pass.Verdict
import JobOperator.Proofs.Pass.Owned
import JobOperator.Proofs.Text.Shell
import JobOperator.Proofs.Text.Spelled
import JobOperator.Proofs.Job.Script
import JobOperator.Proofs.Job.Template
import JobOperator.Proofs.Job.Distinct
import JobOperator.Proofs.Text.Split
import JobOperator.Proofs.Config.Draft
import JobOperator.Proofs.Config.Loading
