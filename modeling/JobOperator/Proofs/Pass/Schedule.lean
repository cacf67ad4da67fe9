import JobOperator.Proofs.Api.Conversation
import JobOperator.Proofs.Pass.Finalization

/-!
The schedule of a pass: the requests that it makes, in their order, given what it finds on the way.
A conversation carries out a schedule as far as it gets: it stops at the first response that the pass
takes for a failure, and then the pass fails with exactly that.
-/

namespace JobOperator

open Client

/-- The failure in a result, if it is one. -/
def failureOf {ε α : Type} : Except ε α → Option ε
  | .ok _ => none
  | .error e => some e

@[simp] theorem failureOf_ok {ε α : Type} (a : α) : failureOf (.ok a : Except ε α) = none := rfl

@[simp] theorem failureOf_error {ε α : Type} (e : ε) :
    failureOf (.error e : Except ε α) = some e := rfl

@[simp] theorem failureOf_map {ε α β : Type} (f : α → β) (x : Except ε α) :
    failureOf (x.map f) = failureOf x := by
  cases x <;> rfl

@[simp] theorem failureOf_mapError {ε ε' α : Type} (f : ε → ε') (x : Except ε α) :
    failureOf (x.mapError f) = (failureOf x).map f := by
  cases x <;> rfl

/-- The failure of a pass at an object of this kind and name. -/
def PassError.ofObject (kind : Kind) (name : String) (cause : StoreError) : PassError :=
  match kind with
  | .job => .loadJob cause
  | .configMap => .syncConfigMap cause
  | .service => .syncService cause
  | .podGroup => .syncPodGroup cause
  | .pod => .createPod name cause

/-- The value that a selector asks for. -/
def LabelSelector.value : LabelSelector → String
  | .equals _ value => value
  | .present _ => ""

/-- The failure of a pass that a response to one of its requests makes, if any. A look that finds
nothing is no failure, nor is a name that is taken, and no deletion makes a pass fail. -/
def Exchange.failure? (e : Exchange) : Option PassError :=
  match e.request with
  | .get key =>
    (failureOf (readAs key.kind key.name (objectOf? key.kind e.response))).map
      (.ofObject key.kind key.name)
  | .list kind _ selector _ =>
    (failureOf (readAs kind ((selector.map LabelSelector.value).getD "")
      (listOf kind e.response))).map .listPods
  | .post kind _ body =>
    ((failureOf (readAs kind (Request.postedName body) (objectOf kind e.response))).filter
      (!·.isAlreadyExists)).map (.ofObject kind (Request.postedName body))
  | .delete _ => none
  | .patchStatus key _ =>
    (failureOf (readAs key.kind key.name (objectOf key.kind e.response))).map .persistStatus

theorem Exchange.failure?_get (key : ObjectKey) (response : Response) :
    failure? { request := .get key, response } =
      (failureOf (readAs key.kind key.name (objectOf? key.kind response))).map
        (.ofObject key.kind key.name) := rfl

theorem Exchange.failure?_podsRequest (job : Job) (ns : String) (response : Response) :
    failure? { request := podsRequest job ns, response } =
      (failureOf (readAs .pod job.name (listOf .pod response))).map .listPods := rfl

theorem Exchange.failure?_patchStatus (key : ObjectKey) (patch : Json) (response : Response) :
    failure? { request := .patchStatus key patch, response } =
      (failureOf (readAs key.kind key.name (objectOf key.kind response))).map .persistStatus := rfl

namespace Pass

/-! ### Carrying out a schedule -/

/-- Whether exchanges carry out a schedule, up to a failure if there is one: each response but that
of the failure agrees with what the schedule supposes. -/
inductive CarriesOut (agrees : Exchange → Prop) :
    List Request → List Exchange → Option PassError → Prop
  | finished : CarriesOut agrees [] [] none
  | failed {request : Request} {later : List Request} {response : Response} {error : PassError}
      (failure : Exchange.failure? { request, response } = some error) :
      CarriesOut agrees (request :: later) [{ request, response }] (some error)
  | went {request : Request} {later : List Request} {response : Response}
      {exchanges : List Exchange} {error? : Option PassError}
      (failure : Exchange.failure? { request, response } = none)
      (agreed : agrees { request, response })
      (tail : CarriesOut agrees later exchanges error?) :
      CarriesOut agrees (request :: later) ({ request, response } :: exchanges) error?

namespace CarriesOut

variable {agrees : Exchange → Prop} {requests later : List Request}
  {exchanges others before after : List Exchange} {error? : Option PassError} {error : PassError}
  {e : Exchange}

/-- A single request. -/
theorem single {request : Request} {response : Response} (h : agrees { request, response }) :
    CarriesOut agrees [request] [{ request, response }]
      (Exchange.failure? { request, response }) := by
  cases hfailure : Exchange.failure? { request, response } with
  | some error => exact .failed hfailure
  | none => exact .went hfailure h .finished

theorem append (h : CarriesOut agrees requests exchanges none)
    (h' : CarriesOut agrees later others error?) :
    CarriesOut agrees (requests ++ later) (exchanges ++ others) error? := by
  generalize hnone : (none : Option PassError) = first at h
  induction h with
  | finished => exact h'
  | failed failure => cases hnone
  | went failure agreed tail ih => exact .went failure agreed (ih hnone)

/-- After a failure, nothing more is done. -/
theorem append_of_failed (h : CarriesOut agrees requests exchanges (some error))
    (later : List Request) : CarriesOut agrees (requests ++ later) exchanges (some error) := by
  generalize hsome : some error = first at h
  induction h with
  | finished => cases hsome
  | failed failure =>
    cases hsome
    exact .failed failure
  | went failure agreed tail ih => exact .went failure agreed (ih hsome)

theorem order (h : CarriesOut agrees requests exchanges error?) :
    exchanges.map (·.request) <+: requests := by
  induction h with
  | finished => exact List.prefix_refl []
  | failed failure => exact List.cons_prefix_cons.2 ⟨rfl, List.nil_prefix⟩
  | went failure agreed tail ih => exact List.cons_prefix_cons.2 ⟨rfl, ih⟩

theorem requests_eq (h : CarriesOut agrees requests exchanges none) :
    exchanges.map (·.request) = requests := by
  generalize hnone : (none : Option PassError) = first at h
  induction h with
  | finished => rfl
  | failed failure => cases hnone
  | went failure agreed tail ih => exact congrArg (_ :: ·) (ih hnone)

theorem agreed (h : CarriesOut agrees requests exchanges error?) (he : e ∈ exchanges)
    (hfailure : e.failure? = none) : agrees e := by
  induction h with
  | finished => cases he
  | failed failure =>
    rw [List.mem_singleton.1 he, failure] at hfailure
    cases hfailure
  | went failure agreed tail ih =>
    rcases List.mem_cons.1 he with rfl | he
    · exact agreed
    · exact ih he

/-- A failure is the last exchange, and what the pass fails with. -/
theorem aborts (h : CarriesOut agrees requests exchanges error?)
    (heq : exchanges = before ++ e :: after) (hfailure : e.failure? = some error) :
    after = [] ∧ error? = some error := by
  induction h generalizing before with
  | finished => cases before <;> cases heq
  | failed failure =>
    cases before with
    | nil =>
      cases heq
      exact ⟨rfl, failure.symm.trans hfailure⟩
    | cons first before => cases before <;> cases heq
  | went failure agreed tail ih =>
    cases before with
    | nil =>
      cases heq
      rw [failure] at hfailure
      cases hfailure
    | cons first before =>
      cases heq
      exact ih rfl

/-- What the pass fails with is the failure of the last exchange. -/
theorem blames (h : CarriesOut agrees requests exchanges (some error)) :
    ∃ last, exchanges.getLast? = some last ∧ last.failure? = some error := by
  generalize hsome : some error = first at h
  induction h with
  | finished => cases hsome
  | failed failure => exact ⟨_, rfl, failure⟩
  | went failure agreed tail ih =>
    obtain ⟨last, hlast, hfailure⟩ := ih hsome
    exact ⟨last, by rw [List.getLast?_cons, hlast]; rfl, hfailure⟩

/-- A sequence carries out one schedule after the other. -/
theorem bind {α β : Type} {program : Program PassError α} {f : α → Program PassError β}
    {result : Except PassError β} (h : Converses (program >>= f) exchanges result)
    (hfirst : ∀ first r, Converses program first r →
      CarriesOut agrees requests first (failureOf r))
    (hrest : ∀ a rest, Converses (f a) rest result →
      CarriesOut agrees later rest (failureOf result)) :
    CarriesOut agrees (requests ++ later) exchanges (failureOf result) := by
  rcases h.of_bind with ⟨e, rfl, hfailed⟩ | ⟨a, first, rest, rfl, hended, htail⟩
  · exact (hfirst _ _ hfailed).append_of_failed later
  · exact (hfirst _ _ hended).append (hrest a rest htail)

/-- What is made of a result needs no request. -/
theorem bind_pure {α β : Type} {program : Program PassError α} {f : α → β}
    {result : Except PassError β} (h : Converses (program >>= fun a => pure (f a)) exchanges result)
    (hfirst : ∀ first r, Converses program first r →
      CarriesOut agrees requests first (failureOf r)) :
    CarriesOut agrees requests exchanges (failureOf result) := by
  rw [← List.append_nil requests]
  refine .bind h hfirst fun a rest hrest => ?_
  cases hrest
  exact .finished

end CarriesOut

/-- How exchanges relate to a schedule and to the result of the pass: they begin it in its order, and
finish it if the pass ends well; a failing response is the last one, and the pass fails with exactly
what the last response makes of it. -/
structure Conducts (agrees : Exchange → Prop) (requests : List Request) (exchanges : List Exchange)
    (result : Except PassError Outcome) : Prop where
  order : exchanges.map (·.request) <+: requests
  finished : ∀ outcome, result = .ok outcome → exchanges.map (·.request) = requests
  agreed : ∀ e ∈ exchanges, e.failure? = none → agrees e
  aborts : ∀ before e after error, exchanges = before ++ e :: after → e.failure? = some error →
    after = [] ∧ result = .error error
  blames : ∀ error, result = .error error →
    ∃ last, exchanges.getLast? = some last ∧ last.failure? = some error

theorem CarriesOut.conducts {agrees : Exchange → Prop} {requests : List Request}
    {exchanges : List Exchange} {result : Except PassError Outcome}
    (h : CarriesOut agrees requests exchanges (failureOf result)) :
    Conducts agrees requests exchanges result := by
  refine ⟨h.order, ?_, fun e he => h.agreed he, fun before e after error heq hfailure => ?_, ?_⟩
  · rintro outcome rfl
    exact h.requests_eq
  · obtain ⟨hafter, herror⟩ := h.aborts heq hfailure
    refine ⟨hafter, ?_⟩
    cases result with
    | ok outcome => cases herror
    | error e => rw [Option.some.inj herror]
  · rintro error rfl
    exact h.blames

/-- A response that the pass goes on from is no failure. -/
theorem Conducts.failure?_eq_none {agrees : Exchange → Prop} {requests : List Request}
    {exchanges before after : List Exchange} {result : Except PassError Outcome} {e : Exchange}
    (h : Conducts agrees requests exchanges result) (heq : exchanges = before ++ e :: after)
    (hafter : after ≠ []) : e.failure? = none := by
  cases hfailure : e.failure? with
  | none => rfl
  | some error => exact absurd (h.aborts before e after error heq hfailure).1 hafter

/-! ### The schedule of a pass -/

/-- What a pass over a job finds on its way, and the status that it arrives at. -/
structure Findings where
  /-- Whether there is no object of this kind yet, of those that the job has one of. -/
  absent : Kind → Bool
  pods : List Pod
  status : JobStatus

/-- Whether a response shows what was found: a look shows whether there is an object, and the list
shows the pods that the job controls. -/
def Findings.Agrees (job : Job) (findings : Findings) (e : Exchange) : Prop :=
  match e.request with
  | .get key => findings.absent key.kind = true ↔ objectOf? key.kind e.response = .ok none
  | .list .. => ∃ pods, listOf .pod e.response = .ok pods ∧
      findings.pods = pods.filter fun pod => job.controls pod.metadata
  | _ => True

/-- The request that creates an object. -/
def postOf (entry : ObjectKey × Json) : Request :=
  .post entry.1.kind entry.1.namespace entry.2

/-- An object is refused, when it is, by its own name. -/
theorem failure?_postOf (identity : Identity) (kind : Kind) (object : kind.Object)
    (response : Response) :
    Exchange.failure? { request := postOf (identity.entry kind object), response } =
      ((failureOf (readAs kind (kind.metadata object).nameAny (objectOf kind response))).filter
        (!·.isAlreadyExists)).map (.ofObject kind (kind.metadata object).nameAny) := by
  have hname : Request.postedName (identity.entry kind object).2 =
      (kind.metadata object).nameAny := by
    rw [Identity.entry, Kind.postedName_encode, Identity.nameAny_owned]
  rw [← hname]
  rfl

/-- The requests for an object that the job has one of: a look, and its creation if there is none. -/
def lookRequests (absent : Kind → Bool) (entry : ObjectKey × Json) : List Request :=
  .get entry.1 :: if absent entry.1.kind then [postOf entry] else []

/-- The replicas that a job should have: by the names of their roles, then by index. -/
def replicas (job : Job) : List (String × Nat) :=
  job.spec.roles.toList.flatMap fun r => (List.range r.2.desiredReplicas).map (r.1, ·)

/-- The replicas that a job should have and that are not among its pods. -/
def unlisted (job : Job) (identity : Identity) (pods : List Pod) : List (String × Nat) :=
  (replicas job).filter fun r => (podNamed? pods (replicaName identity.name r.1 r.2)).isNone

/-- The pod of a replica, as it is posted. -/
def podBody (job : Job) (identity : Identity) (images : Images) (role : String) (index : Nat) :
    Json :=
  match job.replica role (Int32.ofNat index) images with
  | .ok pod => (identity.entry .pod pod).2
  | .error _ => .null

/-- The requests that create the missing replicas of a job that goes on. -/
def creationRequests (job : Job) (identity : Identity) (images : Images) (pods : List Pod) :
    List Request :=
  (unlisted job identity pods).map fun r =>
    .post .pod identity.namespace (podBody job identity images r.1 r.2)

/-- The requests that delete the pods of a job that stops, where there is a path for them. -/
def deletionRequests (identity : Identity) (pods : List Pod) : List Request :=
  ((pods.filter (outlives identity)).filter fun pod =>
    hasPath identity.namespace pod.name).map fun pod =>
      .delete ⟨.pod, identity.namespace, pod.name⟩

/-- The requests of a pass over a job up to where it writes the status. -/
def preparation (settings : PassSettings) (job : Job) (identity : Identity) (absent : Kind → Bool)
    (pods : List Pod) : List Request :=
  (children job identity settings.servicePort).flatMap (lookRequests absent) ++
    podsRequest job identity.namespace ::
      if pods.any Pod.requestsStop then deletionRequests identity pods
      else creationRequests job identity settings.images pods

/-- The requests of a pass over a job after it has read it. -/
def schedule (settings : PassSettings) (job : Job) (identity : Identity) (findings : Findings) :
    List Request :=
  preparation settings job identity findings.absent findings.pods ++
    [.patchStatus identity.key (statusPatch (job.withStatus findings.status))]

end Pass

end JobOperator
