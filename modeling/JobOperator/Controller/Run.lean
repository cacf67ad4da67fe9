import JobOperator.Api.Client
import JobOperator.Controller.Basic

/-!
A controller at work. It first asks for one job, to learn whether jobs can be listed at all, and
then lists what it watches: the jobs, and the pods and services that belong to some job. From then
on it makes passes over the jobs it knows, one after the other.
-/

namespace JobOperator.Controller

variable {σ : Type}

/-- The request that shows whether jobs can be listed. -/
def probeRequest (ns : Option String) : Request := .list .job ns none (some 1)

/-- How many objects a page of a watched list has. -/
def pageSize : Nat := 500

/-- The list of the jobs that are watched. -/
def jobsRequest (ns : Option String) : Request := .list .job ns none (some pageSize)

/-- The list of the objects of a kind that belong to some job. -/
def ownedRequest (kind : Kind) (ns : Option String) : Request :=
  .list kind ns (some (.present appLabel)) (some pageSize)

/-- Whether there are requests about a namespace, or about all. -/
def hasRequests (ns : Option String) : Bool :=
  ns.all (·.toList.all Client.mayStandInPath)

/-- Whether a pass over a job makes any request. Where it makes none it fails, and so does every
later one. -/
def reaches (job : Job) : Bool :=
  job.metadata.namespace.any (Client.hasPath · job.name)

/-- Starts a controller: the jobs it is to make passes over, unless jobs cannot be listed. A list
that fails later tells of no jobs. -/
def start (send : Transport σ) (ns : Option String) (s : σ) : Except ClientError (List Job) × σ :=
  if !hasRequests ns then (.error .noRequest, s)
  else
    let (probe, s) := send (probeRequest ns) s
    match Client.listOf .job probe with
    | .error e => (.error e, s)
    | .ok _ =>
      let (jobs, s) := send (jobsRequest ns) s
      let (_, s) := send (ownedRequest .pod ns) s
      let (_, s) := send (ownedRequest .service ns) s
      match Client.listOf .job jobs with
      | .ok (jobs : List Job) => (.ok (jobs.filter reaches), s)
      | .error _ => (.ok [], s)

/-- What a controller has done: how many passes it has made, and which jobs are due for another. -/
structure Progress where
  made : Nat
  due : List Job
  deriving DecidableEq, Repr

/-- Makes passes over the jobs that are due, at most `limit`, the `n`th at the time `clock n`. A job
is due again behind all others when its delay is not longer than `patience`. -/
def passes (send : Transport σ) (config : Config) (clock : Nat → Instant) (patience : Duration) :
    (limit : Nat) → Progress → σ → Progress × σ
  | limit + 1, { made, due := job :: due }, s =>
    let (result, s) := (pass config (clock made) job).run (Client.handler send) s
    let again :=
      match Decision.ofPass config.requeue result with
      | .awaitChange => []
      | .requeue delay => if delay.nanos ≤ patience.nanos then [job] else []
    passes send config clock patience limit { made := made + 1, due := due ++ again } s
  | _, progress, s => (progress, s)

end JobOperator.Controller
