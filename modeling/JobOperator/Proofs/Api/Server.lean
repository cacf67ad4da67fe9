import JobOperator.Api.Server
import JobOperator.Proofs.Api.Client

/-!
Servers whose faults are failures. Whatever such a server does to a call of a client, its cluster is
as before or as after the answer of a server without faults, and a call that is not answered by its
cluster does not succeed.
-/

namespace JobOperator

/-- Whether a response reports an error: there is none, or it has an error status. -/
def Response.IsFailure : Response → Prop
  | .dropped => True
  | .reply code _ => 400 ≤ code ∧ code < 600

instance (r : Response) : Decidable r.IsFailure :=
  match r with
  | .dropped => inferInstanceAs (Decidable True)
  | .reply code _ => inferInstanceAs (Decidable (400 ≤ code ∧ code < 600))

/-- Whether all faults answer with failures. -/
def Failing (faults : List Fault) : Prop := ∀ fault ∈ faults, fault.response.IsFailure

theorem failing_nil : Failing [] := fun _ hfault => absurd hfault List.not_mem_nil

namespace Fault

theorem length_of_take? {request : Request} {faults rest : List Fault} {fault : Fault}
    (h : take? request faults = some (fault, rest)) : rest.length = faults.length := by
  induction faults generalizing rest with
  | nil => cases h
  | cons first others ih =>
    simp only [take?] at h
    split at h
    · cases h
      rfl
    · obtain ⟨⟨found, rest'⟩, htake, heq⟩ := Option.map_eq_some_iff.1 h
      cases heq
      exact congrArg (· + 1) (ih htake)

/-- A fault that answers is one of the faults, and the faults keep their responses. -/
theorem failing_of_take? {request : Request} {faults rest : List Fault} {fault : Fault}
    (h : take? request faults = some (fault, rest)) (hf : Failing faults) :
    fault.response.IsFailure ∧ Failing rest := by
  induction faults generalizing rest with
  | nil => cases h
  | cons first others ih =>
    have hfirst := hf first List.mem_cons_self
    have hothers : Failing others := fun f hf' => hf f (List.mem_cons_of_mem _ hf')
    simp only [take?] at h
    split at h
    · cases h
      refine ⟨hfirst, fun f hf' => ?_⟩
      rcases List.mem_cons.1 hf' with rfl | hf'
      · exact hfirst
      · exact hothers f hf'
    · obtain ⟨⟨found, rest'⟩, htake, heq⟩ := Option.map_eq_some_iff.1 h
      cases heq
      obtain ⟨hfault, hrest⟩ := ih htake hothers
      refine ⟨hfault, fun f hf' => ?_⟩
      rcases List.mem_cons.1 hf' with rfl | hf'
      · exact hfirst
      · exact hrest f hf'

end Fault

namespace Server

variable {server : Server}

/-- A request is answered by the cluster; or a fault answers it, and it may have its effect all the
same. -/
theorem exchange_cases (h : Failing server.faults) (request : Request) :
    Failing (server.exchange request).2.faults ∧
      (server.exchange request).2.faults.length = server.faults.length ∧
      (((server.exchange request).1 = (server.cluster.exchange request).1 ∧
          (server.exchange request).2.cluster = (server.cluster.exchange request).2) ∨
        server.faults ≠ [] ∧ (server.exchange request).1.IsFailure ∧
          ((server.exchange request).2.cluster = server.cluster ∨
            (server.exchange request).2.cluster = (server.cluster.exchange request).2)) := by
  simp only [exchange]
  split
  · rename_i fault faults htake
    obtain ⟨hfault, hrest⟩ := Fault.failing_of_take? htake h
    have hne : server.faults ≠ [] := by
      intro hnil
      rw [hnil] at htake
      cases htake
    refine ⟨hrest, Fault.length_of_take? htake, .inr ⟨hne, hfault, ?_⟩⟩
    simp only [note]
    cases fault.applies with
    | true => exact .inr rfl
    | false => exact .inl rfl
  · exact ⟨h, rfl, .inl ⟨rfl, rfl⟩⟩

/-- Whatever the faults, a request has its effect on the cluster or none. -/
theorem cluster_exchange (request : Request) (server : Server) :
    (server.exchange request).2.cluster = server.cluster ∨
      (server.exchange request).2.cluster = (server.cluster.exchange request).2 := by
  simp only [exchange]
  split
  · rename_i fault faults htake
    simp only [note]
    cases fault.applies with
    | true => exact .inr rfl
    | false => exact .inl rfl
  · exact .inr rfl

theorem log_exchange (request : Request) (server : Server) :
    (server.exchange request).2.log =
      { request, response := (server.exchange request).1 } :: server.log := by
  simp only [exchange]
  split <;> rfl

end Server

/-! ### Calls -/

/-- Whether an answer is one that a call can have without being answered by the cluster: a look at an
object finds none, and nothing else succeeds. -/
def Call.Refused : (c : Call) → Except StoreError c.Answer → Prop
  | .get .., answer => ∀ object, answer ≠ .ok (some object)
  | .create .., answer => ∀ object, answer ≠ .ok object
  | .delete .., answer => ∀ u, answer ≠ .ok u
  | .listPods _, answer => ∀ pods, answer ≠ .ok pods
  | .writeStatus _, answer => ∀ u, answer ≠ .ok u

/-- Whether a call is no deletion. -/
def Call.DeletesNothing : Call → Prop
  | .delete .. => False
  | _ => True

namespace Client

theorem bodyOf_failure {r : Response} (h : r.IsFailure) : ∃ e, bodyOf r = .error e := by
  cases r with
  | dropped => exact ⟨_, rfl⟩
  | reply code body => exact ⟨_, if_pos h⟩

theorem objectOf_failure {r : Response} (h : r.IsFailure) (kind : Kind) :
    ∃ e, objectOf kind r = .error e := by
  obtain ⟨e, he⟩ := bodyOf_failure h
  exact ⟨e, by rw [objectOf, he]; rfl⟩

theorem objectOf?_failure {r : Response} (h : r.IsFailure) (kind : Kind) (object : kind.Object) :
    objectOf? kind r ≠ .ok (some object) := by
  obtain ⟨e, he⟩ := objectOf_failure h kind
  simp only [objectOf?, he]
  cases e with
  | api code reason =>
    simp only
    split <;> simp
  | _ => simp

theorem listOf_failure {r : Response} (h : r.IsFailure) (kind : Kind) :
    ∃ e, listOf kind r = .error e := by
  obtain ⟨e, he⟩ := bodyOf_failure h
  exact ⟨e, by rw [listOf, he]; rfl⟩

theorem deletionOf_failure {r : Response} (h : r.IsFailure) (kind : Kind) :
    ∃ e, deletionOf kind r = .error e := by
  obtain ⟨e, he⟩ := bodyOf_failure h
  exact ⟨e, by rw [deletionOf, he]; rfl⟩

/-- The store that a client of a server is. -/
abbrev serverStore : Handler Server := handler Server.exchange

variable {server : Server}

/-- How a server with failing faults does what its cluster alone would do: it does the same; or it
has faults, the answer is a refusal, and the cluster is as before or as it would be. -/
def Follows {α : Type} (Refused : Except StoreError α → Prop) (before : Server)
    (served : Except StoreError α × Server) (plain : Except StoreError α × Cluster) : Prop :=
  Failing served.2.faults ∧ served.2.faults.length = before.faults.length ∧
    (served.1 = plain.1 ∧ served.2.cluster = plain.2 ∨
      before.faults ≠ [] ∧ Refused served.1 ∧
        (served.2.cluster = before.cluster ∨ served.2.cluster = plain.2))

theorem follows_perform {α : Type} {Refused : Except StoreError α → Prop}
    (h : Failing server.faults) (hasRequest : Bool) (request : Request)
    {read : Response → Except ClientError α} {onError : ClientError → StoreError}
    (hrefused : ∀ response : Response, response.IsFailure →
      Refused ((read response).mapError onError)) :
    Follows Refused server (perform Server.exchange hasRequest request read onError server)
      (perform Cluster.exchange hasRequest request read onError server.cluster) := by
  cases hasRequest with
  | false => exact ⟨h, rfl, .inl ⟨rfl, rfl⟩⟩
  | true =>
    obtain ⟨hfaults, hlength, hcases⟩ := Server.exchange_cases h request
    refine ⟨hfaults, hlength, ?_⟩
    rcases hcases with ⟨hresponse, hcluster⟩ | ⟨hne, hfailure, hcluster⟩
    · refine .inl ⟨?_, hcluster⟩
      simp only [perform, if_true, hresponse]
    · exact .inr ⟨hne, hrefused _ hfailure, hcluster⟩

theorem Follows.map {α β : Type} {Refused : Except StoreError α → Prop}
    {Refused' : Except StoreError β → Prop} {before : Server}
    {served : Except StoreError α × Server} {plain : Except StoreError α × Cluster}
    (h : Follows Refused before served plain) (f : α → β)
    (hrefused : ∀ answer, Refused answer → Refused' (answer.map f)) :
    Follows Refused' before (served.1.map f, served.2) (plain.1.map f, plain.2) := by
  obtain ⟨hfaults, hlength, ⟨hanswer, hcluster⟩ | ⟨hne, hanswer, hcluster⟩⟩ := h
  · exact ⟨hfaults, hlength, .inl ⟨congrArg (Except.map f) hanswer, hcluster⟩⟩
  · exact ⟨hfaults, hlength, .inr ⟨hne, hrefused _ hanswer, hcluster⟩⟩

theorem map_ne_ok {ε α β : Type} {x : Except ε α} (h : ∀ a, x ≠ .ok a) (f : α → β) (b : β) :
    x.map f ≠ .ok b := by
  intro hmap
  obtain ⟨a, ha, -⟩ := map_eq_ok.1 hmap
  exact h a ha

theorem mapError_error {ε ε' α : Type} {x : Except ε α} {f : ε → ε'} (h : ∃ e, x = .error e)
    (a : α) : x.mapError f ≠ .ok a := by
  obtain ⟨e, rfl⟩ := h
  exact nofun

theorem follows_store (h : Failing server.faults) (c : Call) :
    Follows c.Refused server (serverStore c server) (store c server.cluster) := by
  cases c with
  | get kind ns name =>
    refine follows_perform h _ _ fun r hr object hobject => ?_
    exact objectOf?_failure hr kind object (mapError_eq_ok.1 hobject)
  | create kind ns object =>
    exact follows_perform h _ _ fun r hr => mapError_error (objectOf_failure hr kind)
  | delete kind ns name =>
    exact follows_perform h _ _ fun r hr => mapError_error (deletionOf_failure hr kind)
  | listPods job =>
    simp only [serverStore, store, handler]
    cases namespaceOf job with
    | error e => exact ⟨h, rfl, .inl ⟨rfl, rfl⟩⟩
    | ok ns =>
      have hlist : Follows (fun answer => ∀ pods, answer ≠ .ok pods) server
          (perform Server.exchange _ (podsRequest job ns) (listOf .pod) (storeError .pod job.name)
            server)
          (perform Cluster.exchange _ (podsRequest job ns) (listOf .pod)
            (storeError .pod job.name) server.cluster) :=
        follows_perform h (ns.toList.all mayStandInPath) _ fun r hr =>
          mapError_error (listOf_failure hr .pod)
      exact hlist.map _ fun answer hanswer => map_ne_ok hanswer _
  | writeStatus job =>
    simp only [serverStore, store, handler]
    cases namespaceOf job with
    | error e => exact ⟨h, rfl, .inl ⟨rfl, rfl⟩⟩
    | ok ns =>
      have hwrite : Follows (fun answer => ∀ updated, answer ≠ .ok updated) server
          (perform Server.exchange _ (.patchStatus ⟨.job, ns, job.name⟩ (statusPatch job))
            (objectOf .job) (storeError .job job.name) server)
          (perform Cluster.exchange _ (.patchStatus ⟨.job, ns, job.name⟩ (statusPatch job))
            (objectOf .job) (storeError .job job.name) server.cluster) :=
        follows_perform h (hasPath ns job.name) _ fun r hr =>
          mapError_error (objectOf_failure hr .job)
      exact hwrite.map _ fun answer hanswer => map_ne_ok hanswer _

/-- Without faults, a server does to a call what its cluster does. -/
theorem serverStore_of_faultless (h : server.faults = []) (c : Call) :
    (serverStore c server).2.faults = [] ∧
      (serverStore c server).1 = (store c server.cluster).1 ∧
      (serverStore c server).2.cluster = (store c server.cluster).2 := by
  have hfailing : Failing server.faults := by
    rw [h]
    exact fun fault hfault => absurd hfault List.not_mem_nil
  obtain ⟨-, hlength, hcases⟩ := follows_store hfailing c
  have hfaults : (serverStore c server).2.faults = [] :=
    List.eq_nil_of_length_eq_zero (by rw [hlength, h]; rfl)
  rcases hcases with hsame | ⟨hne, -⟩
  · exact ⟨hfaults, hsame⟩
  · exact absurd h hne

/-! ### Requests -/

/-- The request that a call makes, if there is one that asks it. -/
def request? : Call → Option Request
  | .get kind ns name => if hasPath ns name then some (.get ⟨kind, ns, name⟩) else none
  | .create kind ns object =>
    if ns.toList.all mayStandInPath then some (.post kind ns (kind.codec.encode object)) else none
  | .delete kind ns name => if hasPath ns name then some (.delete ⟨kind, ns, name⟩) else none
  | .listPods job => do
    let ns ← job.metadata.namespace
    if ns.toList.all mayStandInPath then some (podsRequest job ns) else none
  | .writeStatus job => do
    let ns ← job.metadata.namespace
    if hasPath ns job.name then some (.patchStatus ⟨.job, ns, job.name⟩ (statusPatch job)) else none

theorem request?_listPods {job : Job} {ns : String} (hns : job.metadata.namespace = some ns)
    (hpath : ns.toList.all mayStandInPath = true) :
    request? (.listPods job) = some (podsRequest job ns) := by
  rw [request?, hns]
  exact if_pos hpath

theorem request?_writeStatus {job : Job} {ns : String} (hns : job.metadata.namespace = some ns)
    (hpath : hasPath ns job.name = true) : request? (.writeStatus job) =
      some (.patchStatus ⟨.job, ns, job.name⟩ (statusPatch job)) := by
  rw [request?, hns]
  exact if_pos hpath

/-- A call that is no deletion makes no request for one. -/
theorem verb_of_request? {c : Call} (hc : c.DeletesNothing) {request : Request}
    (h : request? c = some request) : request.verb ≠ .delete := by
  cases c with
  | get kind ns name =>
    obtain ⟨-, h⟩ := Option.ite_none_right_eq_some.1 h
    cases h
    nofun
  | create kind ns object =>
    obtain ⟨-, h⟩ := Option.ite_none_right_eq_some.1 h
    cases h
    nofun
  | delete kind ns name => exact hc.elim
  | listPods job =>
    obtain ⟨ns, -, h⟩ := Option.bind_eq_some_iff.1 h
    obtain ⟨-, h⟩ := Option.ite_none_right_eq_some.1 h
    cases h
    nofun
  | writeStatus job =>
    obtain ⟨ns, -, h⟩ := Option.bind_eq_some_iff.1 h
    obtain ⟨-, h⟩ := Option.ite_none_right_eq_some.1 h
    cases h
    nofun

/-- A call is noted with its request and the response to that. -/
theorem log_serverStore (c : Call) (server : Server) :
    (serverStore c server).2.log = (request? c).toList.map (fun request =>
      { request, response := (server.exchange request).1 }) ++ server.log := by
  have hlog {α : Type} (hasRequest : Bool) (request : Request)
      (read : Response → Except ClientError α) (onError : ClientError → StoreError) :
      (perform Server.exchange hasRequest request read onError server).2.log =
        (if hasRequest then some request else none).toList.map (fun request =>
          { request, response := (server.exchange request).1 }) ++ server.log := by
    cases hasRequest with
    | false => rfl
    | true => exact Server.log_exchange request server
  cases c with
  | get kind ns name => exact hlog _ _ _ _
  | create kind ns object => exact hlog _ _ _ _
  | delete kind ns name => exact hlog _ _ _ _
  | listPods job =>
    cases hns : job.metadata.namespace with
    | none => simp only [serverStore, handler, namespaceOf, hns, request?]; rfl
    | some ns =>
      simp only [serverStore, handler, namespaceOf, hns, request?]
      exact hlog _ (podsRequest job ns) (listOf .pod) (storeError .pod job.name)
  | writeStatus job =>
    cases hns : job.metadata.namespace with
    | none => simp only [serverStore, handler, namespaceOf, hns, request?]; rfl
    | some ns =>
      simp only [serverStore, handler, namespaceOf, hns, request?]
      exact hlog _ (.patchStatus ⟨.job, ns, job.name⟩ (statusPatch job)) (objectOf .job)
        (storeError .job job.name)

/-! ### Runs -/

variable {ε α : Type}

/-- Without faults, a program does in a server what it does in the cluster. -/
theorem run_of_faultless (program : Program ε α) (h : server.faults = []) :
    (program.run serverStore server).2.faults = [] ∧
      (program.run serverStore server).1 = (program.run store server.cluster).1 ∧
      (program.run serverStore server).2.cluster = (program.run store server.cluster).2 ∧
      program.calls serverStore server = program.calls store server.cluster :=
  Program.run_map (I := fun server : Server => server.faults = [])
    (fun c _ hs => serverStore_of_faultless hs c) program h

/-- The requests that a server has had after a run are those of the calls of the run. -/
theorem requests_run (program : Program ε α) (server : Server) :
    (program.run serverStore server).2.log.map (·.request) =
      ((program.calls serverStore server).filterMap request?).reverse ++
        server.log.map (·.request) := by
  induction program generalizing server with
  | done a => rfl
  | fail e => rfl
  | call c next ih =>
    rw [Program.run_call, ih, log_serverStore, Program.calls]
    cases hc : request? c with
    | none => simp [hc]
    | some request => simp [hc]

/-- Whether the runs of a program in servers with failing faults keep an invariant of the cluster,
and end well only with a value that satisfies `Q`. -/
def Keeps (J : Cluster → Prop) (program : Program ε α) (Q : α → Prop) : Prop :=
  ∀ server, Failing server.faults → J server.cluster →
    Failing (program.run serverStore server).2.faults ∧
      J (program.run serverStore server).2.cluster ∧
      ∀ a, (program.run serverStore server).1 = .ok a → Q a

variable {β : Type} {P : Call → Prop} {Q : α → Prop} {R : β → Prop} {J : Cluster → Prop}

/-- What each call of a program keeps of a cluster, its runs keep. -/
theorem keeps_of_within {program : Program ε α} (hprogram : program.Within P Q)
    (hstep : ∀ c cluster, P c → J cluster → J (store c cluster).2) : Keeps J program Q := by
  intro server hfaults hJ
  have hserver (c : Call) (s : Server) (hc : P c) (hs : Failing s.faults ∧ J s.cluster) :
      Failing (serverStore c s).2.faults ∧ J (serverStore c s).2.cluster := by
    obtain ⟨hafter, -, hcases⟩ := follows_store hs.1 c
    refine ⟨hafter, ?_⟩
    rcases hcases with ⟨-, hcluster⟩ | ⟨-, -, hcluster | hcluster⟩
    · rw [hcluster]
      exact hstep c s.cluster hc hs.2
    · rw [hcluster]
      exact hs.2
    · rw [hcluster]
      exact hstep c s.cluster hc hs.2
  obtain ⟨⟨hafter, hkept⟩, hvalue⟩ := hprogram.run hserver ⟨hfaults, hJ⟩
  exact ⟨hafter, hkept, hvalue⟩

theorem Keeps.bind {program : Program ε α} {f : α → Program ε β} (h : Keeps J program Q)
    (hf : ∀ a, Q a → Keeps J (f a) R) : Keeps J (program >>= f) R := by
  intro server hfaults hJ
  obtain ⟨hfaults', hJ', hvalue⟩ := h server hfaults hJ
  rw [Program.run_bind]
  cases hrun : program.run serverStore server with
  | mk result server' =>
    rw [hrun] at hfaults' hJ' hvalue
    cases result with
    | ok a => exact hf a (hvalue a rfl) server' hfaults' hJ'
    | error e => exact ⟨hfaults', hJ', nofun⟩

theorem Keeps.mono {Q' : α → Prop} {program : Program ε α} (h : Keeps J program Q)
    (hQ : ∀ a, Q a → Q' a) : Keeps J program Q' := by
  intro server hfaults hJ
  obtain ⟨hfaults', hJ', hvalue⟩ := h server hfaults hJ
  exact ⟨hfaults', hJ', fun a ha => hQ a (hvalue a ha)⟩

theorem keeps_pure {a : α} (h : Q a) : Keeps J (pure a : Program ε α) Q := by
  intro server hfaults hJ
  refine ⟨hfaults, hJ, fun b hb => ?_⟩
  cases hb
  exact h

theorem keeps_ofExcept {result : Except ε α} : Keeps J (Program.ofExcept result) (result = .ok ·) :=
  keeps_of_within (P := fun _ => False) Program.within_ofExcept fun _ _ hc => hc.elim

/-- A call that only reads is answered from a cluster, unless its answer is a refusal. -/
theorem keeps_perform {c : Call} {onError : StoreError → ε}
    (hread : ∀ cluster, (store c cluster).2 = cluster) :
    Keeps J (Program.perform c onError) fun answer =>
      (∃ cluster, J cluster ∧ store c cluster = (.ok answer, cluster)) ∨ c.Refused (.ok answer) := by
  intro server hfaults hJ
  obtain ⟨hfaults', -, hcases⟩ := follows_store hfaults c
  have hcluster : (serverStore c server).2.cluster = server.cluster := by
    rcases hcases with ⟨-, h⟩ | ⟨-, -, h | h⟩
    · rw [h, hread]
    · exact h
    · rw [h, hread]
  rw [Program.run_perform]
  refine ⟨hfaults', by rw [hcluster]; exact hJ, ?_⟩
  intro answer hanswer
  have hanswer := mapError_eq_ok.1 hanswer
  rcases hcases with ⟨hsame, -⟩ | ⟨-, hrefused, -⟩
  · rw [hsame] at hanswer
    exact .inl ⟨server.cluster, hJ, Prod.ext hanswer (hread _)⟩
  · rw [hanswer] at hrefused
    exact .inr hrefused

/-- A job that is found is one that is there. -/
theorem keeps_get_job {ns name : String} {onError : StoreError → ε} :
    Keeps J (Program.perform (.get .job ns name) onError) fun found => ∀ job, found = some job →
      ∃ cluster doc, J cluster ∧ cluster.get? ⟨.job, ns, name⟩ = some doc ∧
        Job.codec.decode doc = .ok job := by
  refine (keeps_perform (store_get_cluster .job ns name)).mono ?_
  rintro found (⟨cluster, hJ, hget⟩ | hrefused) job rfl
  · obtain ⟨-, -, ⟨hnone, -⟩ | ⟨doc, o, hdoc, ho, hsome⟩⟩ := store_get.1 hget
    · cases hnone
    · cases hsome
      exact ⟨cluster, doc, hJ, hdoc, ho⟩
  · exact absurd rfl (hrefused job)

/-- Pods that are listed are those that a cluster has for the job. -/
theorem keeps_listPods {job : Job} {onError : StoreError → ε} :
    Keeps J (Program.perform (.listPods job) onError) fun pods =>
      ∃ cluster, J cluster ∧ store (.listPods job) cluster = (.ok pods, cluster) := by
  refine (keeps_perform (store_listPods_cluster job)).mono ?_
  rintro pods (hlist | hrefused)
  · exact hlist
  · exact absurd rfl (hrefused pods)

end Client

end JobOperator
