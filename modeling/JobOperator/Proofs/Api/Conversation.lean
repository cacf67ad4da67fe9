import JobOperator.Proofs.Api.Server

/-!
The conversation of a program with an API server, whatever answers it: the requests that the client
makes for its calls, each with the response that it goes on from. A call that there is no request for
fails at once and leaves no trace.
-/

namespace JobOperator

open Client

namespace Client

variable {σ : Type}

/-- What was read from a response, with a failure told as that of a call on an object. -/
def readAs {α : Type} (kind : Kind) (name : String) (result : Except ClientError α) :
    Except StoreError α := result.mapError (storeError kind name)

/-- What a call is answered with when its request gets this response. -/
def answerTo : (c : Call) → Response → Except StoreError c.Answer
  | .get kind _ name, response => readAs kind name (objectOf? kind response)
  | .create kind _ object, response =>
    readAs kind (kind.metadata object).nameAny (objectOf kind response)
  | .delete kind _ name, response => readAs kind name (deletionOf kind response)
  | .listPods job, response =>
    (readAs .pod job.name (listOf .pod response)).map
      (·.filter fun pod => job.controls pod.metadata)
  | .writeStatus job, response =>
    (readAs .job job.name (objectOf .job response)).map fun _ => ()

/-- How a call fails that there is no request for. -/
def unasked : Call → StoreError
  | .get kind _ name | .delete kind _ name => storeError kind name .noRequest
  | .create kind _ object => storeError kind (kind.metadata object).nameAny .noRequest
  | .listPods job =>
    match namespaceOf job with
    | .ok _ => storeError .pod job.name .noRequest
    | .error e => e
  | .writeStatus job =>
    match namespaceOf job with
    | .ok _ => storeError .job job.name .noRequest
    | .error e => e

theorem handler_of_request {send : Transport σ} {c : Call} {request : Request}
    (h : request? c = some request) (s : σ) :
    handler send c s = (answerTo c (send request s).1, (send request s).2) := by
  cases c with
  | get kind ns name =>
    obtain ⟨hpath, h⟩ := Option.ite_none_right_eq_some.1 h
    cases h
    simp only [handler, perform, hpath, if_true]
    rfl
  | create kind ns object =>
    obtain ⟨hpath, h⟩ := Option.ite_none_right_eq_some.1 h
    cases h
    simp only [handler, perform, hpath, if_true]
    rfl
  | delete kind ns name =>
    obtain ⟨hpath, h⟩ := Option.ite_none_right_eq_some.1 h
    cases h
    simp only [handler, perform, hpath, if_true]
    rfl
  | listPods job =>
    obtain ⟨ns, hns, h⟩ := Option.bind_eq_some_iff.1 h
    obtain ⟨hpath, h⟩ := Option.ite_none_right_eq_some.1 h
    cases h
    simp only [handler, namespaceOf, hns, perform, hpath, if_true]
    rfl
  | writeStatus job =>
    obtain ⟨ns, hns, h⟩ := Option.bind_eq_some_iff.1 h
    obtain ⟨hpath, h⟩ := Option.ite_none_right_eq_some.1 h
    cases h
    simp only [handler, namespaceOf, hns, perform, hpath, if_true]
    rfl

theorem handler_of_no_request {send : Transport σ} {c : Call} (h : request? c = none) (s : σ) :
    handler send c s = (.error (unasked c), s) := by
  cases c with
  | get kind ns name =>
    have hpath : hasPath ns name = false := by simpa [request?] using h
    simp only [handler, perform, hpath, Bool.false_eq_true, if_false, unasked]
  | create kind ns object =>
    have hpath : ns.toList.all mayStandInPath = false := by simpa [request?] using h
    simp only [handler, perform, hpath, Bool.false_eq_true, if_false, unasked]
  | delete kind ns name =>
    have hpath : hasPath ns name = false := by simpa [request?] using h
    simp only [handler, perform, hpath, Bool.false_eq_true, if_false, unasked]
  | listPods job =>
    cases hns : job.metadata.namespace with
    | none => simp only [handler, unasked, namespaceOf, hns]
    | some ns =>
      cases hpath : ns.toList.all mayStandInPath with
      | true =>
        rw [request?_listPods hns hpath] at h
        cases h
      | false =>
        simp only [handler, unasked, namespaceOf, hns, perform, hpath, Bool.false_eq_true, if_false]
        rfl
  | writeStatus job =>
    cases hns : job.metadata.namespace with
    | none => simp only [handler, unasked, namespaceOf, hns]
    | some ns =>
      cases hpath : hasPath ns job.name with
      | true =>
        rw [request?_writeStatus hns hpath] at h
        cases h
      | false =>
        simp only [handler, unasked, namespaceOf, hns, perform, hpath, Bool.false_eq_true, if_false]
        rfl

/-- Whatever the faults of a server, a call has its effect on the cluster or none. -/
theorem cluster_serverStore (c : Call) (server : Server) :
    (serverStore c server).2.cluster = server.cluster ∨
      (serverStore c server).2.cluster = (store c server.cluster).2 := by
  cases hasks : request? c with
  | some request =>
    simp only [serverStore, store, handler_of_request hasks]
    exact Server.cluster_exchange request server
  | none =>
    simp only [serverStore, handler_of_no_request hasks]
    exact .inl trivial

theorem serverStore_get_cluster (kind : Kind) (ns name : String) (server : Server) :
    (serverStore (.get kind ns name) server).2.cluster = server.cluster := by
  rcases cluster_serverStore (.get kind ns name) server with hsame | hserved
  · exact hsame
  · exact hserved.trans (store_get_cluster kind ns name server.cluster)

end Client

/-- The conversations of a program: its requests with their responses, and how it ends. -/
inductive Converses {ε α : Type} : Program ε α → List Exchange → Except ε α → Prop
  | done (a : α) : Converses (.done a) [] (.ok a)
  | fail (e : ε) : Converses (.fail e) [] (.error e)
  | asked {c : Call} {next : Except StoreError c.Answer → Program ε α} {request : Request}
      {response : Response} {exchanges : List Exchange} {result : Except ε α}
      (asks : request? c = some request)
      (tail : Converses (next (answerTo c response)) exchanges result) :
      Converses (.call c next) ({ request, response } :: exchanges) result
  | unasked {c : Call} {next : Except StoreError c.Answer → Program ε α}
      {exchanges : List Exchange} {result : Except ε α} (asks : request? c = none)
      (tail : Converses (next (.error (unasked c))) exchanges result) :
      Converses (.call c next) exchanges result

namespace Converses

variable {σ ε α β : Type} {program : Program ε α} {exchanges : List Exchange}

/-- A run is a conversation with what answers the requests, which may keep a record of it. -/
theorem of_run {send : Transport σ} {record : σ → List Exchange}
    (hrecord : ∀ request s, record (send request s).2 =
      record s ++ [{ request, response := (send request s).1 }])
    (program : Program ε α) (s : σ) :
    ∃ exchanges, record (program.run (handler send) s).2 = record s ++ exchanges ∧
      Converses program exchanges (program.run (handler send) s).1 := by
  induction program generalizing s with
  | done a => exact ⟨[], (List.append_nil _).symm, .done a⟩
  | fail e => exact ⟨[], (List.append_nil _).symm, .fail e⟩
  | call c next ih =>
    rw [Program.run_call]
    cases hasks : request? c with
    | some request =>
      rw [handler_of_request hasks]
      obtain ⟨exchanges, hexchanges, htail⟩ :=
        ih (answerTo c (send request s).1) (send request s).2
      refine ⟨_ :: exchanges, ?_, .asked hasks htail⟩
      rw [hexchanges, hrecord, List.append_assoc, List.singleton_append]
    | none =>
      rw [handler_of_no_request hasks]
      obtain ⟨exchanges, hexchanges, htail⟩ := ih (.error (Client.unasked c)) s
      exact ⟨exchanges, hexchanges, .unasked hasks htail⟩

/-- A run in a server that has had no exchanges before is a conversation. -/
theorem of_server (program : Program ε α) (server : Server) :
    let run := program.run serverStore server.forget
    Converses program run.2.exchanges run.1 := by
  intro run
  have hrecord (request : Request) (s : Server) : (s.exchange request).2.exchanges =
      s.exchanges ++ [{ request, response := (s.exchange request).1 }] := by
    rw [Server.exchanges, Server.log_exchange, List.reverse_cons, ← Server.exchanges]
  obtain ⟨exchanges, hexchanges, hconverses⟩ := of_run hrecord program server.forget
  obtain rfl : run.2.exchanges = exchanges := hexchanges
  exact hconverses

/-- A conversation that ends well ends with a value that the program may end with. -/
theorem of_within {P : Call → Prop} {Q : α → Prop} {a : α} (h : Converses program exchanges (.ok a))
    (hwithin : program.Within P Q) : Q a := by
  generalize hresult : (.ok a : Except ε α) = result at h
  induction h with
  | done b =>
    cases hresult
    exact hwithin
  | fail e => cases hresult
  | asked hasks tail ih => exact ih (hwithin.2 _) hresult
  | unasked hasks tail ih => exact ih (hwithin.2 _) hresult

/-- A sequence fails with its first part, or goes on from how that ended. -/
theorem of_bind {f : α → Program ε β} {result : Except ε β}
    (h : Converses (program >>= f) exchanges result) :
    (∃ e, result = .error e ∧ Converses program exchanges (.error e)) ∨
      ∃ a first rest, exchanges = first ++ rest ∧ Converses program first (.ok a) ∧
        Converses (f a) rest result := by
  induction program generalizing exchanges with
  | done a => exact .inr ⟨a, [], exchanges, rfl, .done a, h⟩
  | fail e =>
    cases h
    exact .inl ⟨e, rfl, .fail e⟩
  | call c next ih =>
    cases h with
    | asked hasks htail =>
      rcases ih _ htail with ⟨e, rfl, hfirst⟩ | ⟨a, first, rest, rfl, hfirst, hrest⟩
      · exact .inl ⟨e, rfl, .asked hasks hfirst⟩
      · exact .inr ⟨a, _ :: first, rest, rfl, .asked hasks hfirst, hrest⟩
    | unasked hasks htail =>
      rcases ih _ htail with ⟨e, rfl, hfirst⟩ | ⟨a, first, rest, rfl, hfirst, hrest⟩
      · exact .inl ⟨e, rfl, .unasked hasks hfirst⟩
      · exact .inr ⟨a, first, rest, rfl, .unasked hasks hfirst, hrest⟩

/-- A call is one request, or fails without any. -/
theorem of_perform {c : Call} {onError : StoreError → ε} {result : Except ε c.Answer}
    (h : Converses (.perform c onError) exchanges result) :
    (∃ request response, request? c = some request ∧ exchanges = [{ request, response }] ∧
        result = (answerTo c response).mapError onError) ∨
      request? c = none ∧ exchanges = [] ∧ result = .error (onError (Client.unasked c)) := by
  cases h with
  | @asked _ _ request response _ _ hasks htail =>
    refine .inl ⟨request, response, hasks, ?_⟩
    cases hanswer : answerTo c response with
    | ok answer =>
      rw [hanswer] at htail
      cases htail
      exact ⟨rfl, rfl⟩
    | error e =>
      rw [hanswer] at htail
      cases htail
      exact ⟨rfl, rfl⟩
  | unasked hasks htail =>
    cases htail
    exact .inr ⟨hasks, rfl, rfl⟩

/-- A call that there is a request for is one request. -/
theorem of_perform_of_request {c : Call} {onError : StoreError → ε} {result : Except ε c.Answer}
    {request : Request} (hasks : request? c = some request)
    (h : Converses (.perform c onError) exchanges result) :
    ∃ response, exchanges = [{ request, response }] ∧
      result = (answerTo c response).mapError onError := by
  rcases h.of_perform with ⟨request', response, hasks', hexchanges, hresult⟩ | ⟨hnone, -⟩
  · obtain rfl : request = request' := Option.some.inj (hasks.symm.trans hasks')
    exact ⟨response, hexchanges, hresult⟩
  · rw [hasks] at hnone
    cases hnone

/-- A call that there is no request for fails. -/
theorem of_perform_of_no_request {c : Call} {onError : StoreError → ε} {result : Except ε c.Answer}
    (hasks : request? c = none) (h : Converses (.perform c onError) exchanges result) :
    exchanges = [] ∧ result = .error (onError (Client.unasked c)) := by
  rcases h.of_perform with ⟨request, _, hrequest, -⟩ | ⟨-, hfails⟩
  · rw [hasks] at hrequest
    cases hrequest
  · exact hfails

/-- A sequence whose first part fails without a request fails so too. -/
theorem of_bind_of_fails {f : α → Program ε β} {result : Except ε β} {e : ε}
    (hfails : ∀ first r, Converses program first r → first = [] ∧ r = .error e)
    (h : Converses (program >>= f) exchanges result) : exchanges = [] ∧ result = .error e := by
  rcases h.of_bind with ⟨e', rfl, hfirst⟩ | ⟨a, first, rest, -, hfirst, -⟩
  · obtain ⟨hnone, herror⟩ := hfails _ _ hfirst
    cases herror
    exact ⟨hnone, rfl⟩
  · obtain ⟨-, herror⟩ := hfails _ _ hfirst
    cases herror

end Converses

end JobOperator
