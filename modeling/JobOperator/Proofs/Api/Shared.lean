import JobOperator.Proofs.Api.Conversation
import JobOperator.Proofs.Object.Retention

/-!
A cluster that other clients use as well. Between two requests of a program, they may ask anything of
it. What is under a key has the metadata that it had, as long as nobody creates another object there
or patches its metadata.
-/

namespace JobOperator

open Client

/-- What a request finds: what other clients have asked since the one before it, and the cluster that
it is answered by. -/
structure Moment where
  others : List Request
  request : Request
  cluster : Cluster

namespace Moment

/-- How the request is answered. -/
def response (moment : Moment) : Response := (moment.cluster.exchange moment.request).1

/-- The cluster after the request. -/
def after (moment : Moment) : Cluster := (moment.cluster.exchange moment.request).2

/-- The request with its response. -/
def exchange (moment : Moment) : Exchange :=
  { request := moment.request, response := moment.response }

end Moment

/-- The cluster after requests. -/
def Cluster.serve (cluster : Cluster) (requests : List Request) : Cluster :=
  requests.foldl (fun cluster request => (cluster.exchange request).2) cluster

/-- A cluster with what other clients are going to ask before each request of a program, and the
moments of its requests so far, last first. -/
structure Shared where
  cluster : Cluster
  others : List (List Request) := []
  met : List Moment := []

namespace Shared

/-- Answers a request of the program, after those of other clients that come before it. -/
def exchange : Transport Shared := fun request shared =>
  let others := shared.others.headD []
  let moment : Moment := { others, request, cluster := shared.cluster.serve others }
  (moment.response,
    { cluster := moment.after, others := shared.others.tail, met := moment :: shared.met })

/-- The moments of the program's requests so far, in their order. -/
def moments (shared : Shared) : List Moment := shared.met.reverse

end Shared

/-- Whether moments follow from a cluster: each finds what the one before it left, after what other
clients have asked since. -/
inductive Interleaved : Cluster → List Moment → Prop
  | nil {cluster : Cluster} : Interleaved cluster []
  | cons {cluster : Cluster} {moment : Moment} {rest : List Moment}
      (finds : moment.cluster = cluster.serve moment.others)
      (later : Interleaved moment.after rest) : Interleaved cluster (moment :: rest)

/-- A run in a cluster that other clients use is a conversation at moments that follow from it. -/
theorem Converses.of_shared {ε α : Type} (program : Program ε α) (shared : Shared) :
    ∃ moments, (program.run (handler Shared.exchange) shared).2.moments =
        shared.moments ++ moments ∧
      Interleaved shared.cluster moments ∧
      Converses program (moments.map Moment.exchange)
        (program.run (handler Shared.exchange) shared).1 := by
  induction program generalizing shared with
  | done a => exact ⟨[], (List.append_nil _).symm, .nil, .done a⟩
  | fail e => exact ⟨[], (List.append_nil _).symm, .nil, .fail e⟩
  | call c next ih =>
    rw [Program.run_call]
    cases hasks : request? c with
    | some request =>
      rw [handler_of_request hasks]
      obtain ⟨moments, hmoments, hinterleaved, htail⟩ :=
        ih (answerTo c (Shared.exchange request shared).1) (Shared.exchange request shared).2
      refine ⟨_ :: moments, ?_, .cons rfl hinterleaved, .asked hasks htail⟩
      rw [hmoments, Shared.moments, Shared.moments, Shared.exchange, List.reverse_cons,
        List.append_assoc, List.singleton_append]
    | none =>
      rw [handler_of_no_request hasks]
      obtain ⟨moments, hmoments, hinterleaved, htail⟩ := ih (.error (Client.unasked c)) shared
      exact ⟨moments, hmoments, hinterleaved, .unasked hasks htail⟩

/-! ### What is not disturbed -/

/-- Whether a request leaves what is under a key, if it leaves anything there: it creates no object
there, nor patches the metadata of one. -/
def Request.spares (key : ObjectKey) (cluster : Cluster) : Request → Bool
  | .post kind ns body =>
    (⟨kind, ns, Request.postedName body⟩ : ObjectKey) != key || cluster.contains key
  | .patchStatus k patch => k != key || patch.sparesMetadata
  | _ => true

/-- Whether all requests, one after the other, leave what is under a key. -/
def Cluster.spared (key : ObjectKey) : Cluster → List Request → Bool
  | _, [] => true
  | cluster, request :: rest =>
    request.spares key cluster && spared key (cluster.exchange request).2 rest

/-- Whether other clients leave what is under a key in the course of moments that follow from a
cluster. -/
def undisturbed (key : ObjectKey) : Cluster → List Moment → Bool
  | _, [] => true
  | cluster, moment :: rest =>
    cluster.spared key moment.others && undisturbed key moment.after rest

/-- Whether what is under a key, if anything, has the metadata of a document. -/
def Cluster.Keeps (cluster : Cluster) (key : ObjectKey) (doc : Json) : Prop :=
  ∀ later, cluster.get? key = some later → doc.Retains later

namespace Cluster.Keeps

variable {cluster : Cluster} {key : ObjectKey} {doc : Json}

theorem of_get? (h : cluster.get? key = some doc) : cluster.Keeps key doc := by
  intro later hlater
  obtain rfl : doc = later := Option.some.inj (h.symm.trans hlater)
  exact .refl doc

theorem exchange {request : Request} (h : cluster.Keeps key doc)
    (hspares : request.spares key cluster = true) : (cluster.exchange request).2.Keeps key doc := by
  cases request with
  | get k =>
    simp only [Cluster.exchange]
    split <;> exact h
  | list kind ns selector limit => exact h
  | post kind ns body =>
    simp only [Cluster.exchange]
    split
    · exact h
    · rename_i hfree
      have hne : key ≠ ⟨kind, ns, Request.postedName body⟩ := by
        rintro rfl
        simp [Request.spares, hfree] at hspares
      intro later hlater
      rw [SortedMap.get?_insert_ne _ hne] at hlater
      exact h later hlater
  | delete k =>
    simp only [Cluster.exchange]
    split
    · intro later hlater
      by_cases hk : key = k
      · rw [hk, SortedMap.get?_erase_self] at hlater
        cases hlater
      · rw [SortedMap.get?_erase_ne _ hk] at hlater
        exact h later hlater
    · exact h
  | patchStatus k patch =>
    simp only [Cluster.exchange]
    cases hdoc : cluster.get? k with
    | none => exact h
    | some found =>
      intro later hlater
      by_cases hk : key = k
      · subst hk
        have hpatch : patch.sparesMetadata = true := by simpa [Request.spares] using hspares
        rw [SortedMap.get?_insert_self] at hlater
        cases hlater
        exact (h found hdoc).trans (.mergePatch found hpatch)
      · rw [SortedMap.get?_insert_ne _ hk] at hlater
        exact h later hlater

theorem serve {requests : List Request} (h : cluster.Keeps key doc)
    (hspared : cluster.spared key requests = true) : (cluster.serve requests).Keeps key doc := by
  induction requests generalizing cluster with
  | nil => exact h
  | cons request rest ih =>
    obtain ⟨hfirst, hrest⟩ := (Bool.and_eq_true _ _).mp hspared
    exact ih (h.exchange hfirst) hrest

end Cluster.Keeps

namespace Interleaved

variable {cluster : Cluster} {key : ObjectKey} {doc : Json} {before after : List Moment}
  {moment : Moment}

/-- From any moment on, the moments follow from it. -/
theorem drop (h : Interleaved cluster (before ++ moment :: after)) :
    Interleaved moment.after after := by
  induction before generalizing cluster with
  | nil =>
    cases h with
    | cons hfinds hlater => exact hlater
  | cons first before ih =>
    cases h with
    | cons hfinds hlater => exact ih hlater

/-- What nobody disturbs has its metadata when a request comes, if it is still there. -/
theorem keeps (h : Interleaved cluster (before ++ moment :: after)) (hdoc : cluster.Keeps key doc)
    (hothers : undisturbed key cluster (before ++ [moment]) = true)
    (hown : ∀ m ∈ before, m.request.spares key m.cluster = true) :
    moment.cluster.Keeps key doc := by
  induction before generalizing cluster with
  | nil =>
    obtain ⟨hspared, -⟩ := (Bool.and_eq_true _ _).mp hothers
    cases h with
    | cons hfinds hlater =>
      rw [hfinds]
      exact hdoc.serve hspared
  | cons first before ih =>
    obtain ⟨hspared, hothers⟩ := (Bool.and_eq_true _ _).mp hothers
    cases h with
    | cons hfinds hlater =>
      have hfirst : first.cluster.Keeps key doc := by
        rw [hfinds]
        exact hdoc.serve hspared
      exact ih hlater (hfirst.exchange (hown _ List.mem_cons_self)) hothers
        fun m hm => hown m (List.mem_cons_of_mem _ hm)

end Interleaved

end JobOperator
