import JobOperator.Api.Cluster

/-!
An API server that can fail. A fault takes the place of the answer to the requests it is meant for,
as often as it has been told to; the request may have taken effect or not.
-/

namespace JobOperator

/-- A failure that waits for requests: which requests it is meant for, how many it still answers
(any number if not told), what it answers, and whether a request has its effect all the same. -/
structure Fault where
  verb : Verb
  kind : Kind
  name : Option String := none
  left : Option Nat := none
  response : Response
  applies : Bool := false
  deriving DecidableEq

namespace Fault

/-- Whether a fault answers a request. -/
def answers (fault : Fault) (request : Request) : Bool :=
  fault.verb == request.verb && fault.kind == request.kind &&
    fault.name.all (· == request.name) && fault.left != some 0

/-- A fault after it has answered a request. -/
def spend (fault : Fault) : Fault := { fault with left := fault.left.map (· - 1) }

/-- The first fault that answers a request, and the faults as they are after that. -/
def take? (request : Request) : List Fault → Option (Fault × List Fault)
  | [] => none
  | fault :: rest =>
    if fault.answers request then some (fault, fault.spend :: rest)
    else (take? request rest).map (fun (found, rest) => (found, fault :: rest))

end Fault

/-- A request with its response. -/
structure Exchange where
  request : Request
  response : Response
  deriving DecidableEq

/-- A server: the objects of its cluster, the faults that wait, and the exchanges it has had, last
first. -/
structure Server where
  cluster : Cluster := ∅
  faults : List Fault := []
  log : List Exchange := []

namespace Server

/-- Notes an exchange. -/
def note (server : Server) (request : Request) (response : Response) : Server :=
  { server with log := { request, response } :: server.log }

/-- Answers a request. -/
def exchange (request : Request) (server : Server) : Response × Server :=
  let (answer, cluster) := server.cluster.exchange request
  match Fault.take? request server.faults with
  | some (fault, faults) =>
    (fault.response,
      { server with
        cluster := if fault.applies then cluster else server.cluster
        faults }.note request fault.response)
  | none => (answer, { server with cluster }.note request answer)

/-- The exchanges that a server has had, in their order. -/
def exchanges (server : Server) : List Exchange := server.log.reverse

/-- A server that has had no exchanges yet. -/
def forget (server : Server) : Server := { server with log := [] }

end Server

end JobOperator
