import JobOperator.Proofs.Api.Frame
import JobOperator.Proofs.Store.History

/-!
Deletions. A cluster loses what is deleted from it; so does a server that may fail, as far as its
faults let requests through. What an answer tells of a deletion is then true when no fault tells
that something is gone that it has kept.
-/

namespace JobOperator

open Client

namespace Cluster

variable {cluster : Cluster}

/-- The cluster without the objects of these keys. -/
def eraseAll (cluster : Cluster) (keys : List ObjectKey) : Cluster :=
  keys.foldl (fun cluster key => cluster.erase key) cluster

theorem get?_eraseAll (cluster : Cluster) (keys : List ObjectKey) (key : ObjectKey) :
    (cluster.eraseAll keys).get? key = if key ∈ keys then none else cluster.get? key := by
  induction keys generalizing cluster with
  | nil => rfl
  | cons first rest ih =>
    rw [eraseAll, List.foldl_cons, ← eraseAll, ih]
    by_cases hfirst : key = first
    · subst hfirst
      simp
    · rw [SortedMap.get?_erase_ne _ hfirst]
      simp [hfirst]

theorem erase_of_get?_eq_none {key : ObjectKey} (h : cluster.get? key = none) :
    cluster.erase key = cluster := by
  refine SortedMap.ext_get? fun k => ?_
  by_cases hk : k = key
  · rw [hk, SortedMap.get?_erase_self, h]
  · exact SortedMap.get?_erase_ne cluster hk

theorem exchange_delete (cluster : Cluster) (key : ObjectKey) :
    (cluster.exchange (.delete key)).2 = cluster.erase key := by
  simp only [exchange]
  split
  · rfl
  · rename_i h
    exact (erase_of_get?_eq_none (SortedMap.contains_eq_false_iff.1 (Bool.eq_false_iff.2 h))).symm

end Cluster

/-- Whether an answer to a deletion tells that nothing is left: it was done, or there was nothing. -/
def TellsGone : Except StoreError Unit → Prop
  | .ok _ => True
  | .error e => e.isNotFound = true

instance (answer : Except StoreError Unit) : Decidable (TellsGone answer) :=
  match answer with
  | .ok _ => inferInstanceAs (Decidable True)
  | .error e => inferInstanceAs (Decidable (e.isNotFound = true))

/-- Whether a call, if it is a deletion, is told to have left nothing. -/
def Answered.LeavesNothing : Answered → Prop
  | ⟨.delete .., answer⟩ => TellsGone answer
  | _ => True

instance (a : Answered) : Decidable a.LeavesNothing :=
  match a with
  | ⟨.delete .., answer⟩ => inferInstanceAs (Decidable (TellsGone answer))
  | ⟨.get .., _⟩ | ⟨.create .., _⟩ | ⟨.listPods _, _⟩ | ⟨.writeStatus _, _⟩ =>
    inferInstanceAs (Decidable True)

/-- Whether a fault tells of a deletion that nothing is left only when it lets it be done. -/
def Fault.Candid (fault : Fault) : Prop :=
  fault.verb = .delete → fault.applies = true ∨
    ∀ name, ¬ TellsGone (readAs fault.kind name (deletionOf fault.kind fault.response))

/-- Whether a fault lets deletions be done, whatever it answers. -/
def Fault.LetsDelete (fault : Fault) : Prop := fault.verb = .delete → fault.applies = true

namespace Client

variable {cluster : Cluster} {server : Server} {kind : Kind} {ns name : String}

theorem request?_delete (hpath : hasPath ns name = true) (kind : Kind) :
    request? (.delete kind ns name) = some (.delete ⟨kind, ns, name⟩) :=
  if_pos hpath

theorem request?_delete_eq_none (hpath : hasPath ns name = false) (kind : Kind) :
    request? (.delete kind ns name) = none :=
  if_neg (by simp [hpath])

theorem hasPath_of_tellsGone {σ : Type} {send : Transport σ} {s : σ}
    (h : TellsGone (handler send (.delete kind ns name) s).1) : hasPath ns name = true := by
  cases hpath : hasPath ns name with
  | true => rfl
  | false =>
    rw [handler_of_no_request (request?_delete_eq_none hpath kind)] at h
    exact absurd h Bool.false_ne_true

theorem store_delete (kind : Kind) (ns name : String) (cluster : Cluster) :
    (store (.delete kind ns name) cluster).2 =
      if hasPath ns name then cluster.erase ⟨kind, ns, name⟩ else cluster := by
  cases hpath : hasPath ns name with
  | true =>
    rw [store, handler_of_request (request?_delete hpath kind)]
    exact Cluster.exchange_delete cluster _
  | false =>
    rw [store, handler_of_no_request (request?_delete_eq_none hpath kind)]
    rfl

/-- A deletion is done as in the cluster, or a fault answers that keeps it from being done. -/
theorem serverStore_delete {P : Fault → Prop} (hspend : ∀ f, P f → P f.spend)
    (hfaults : ∀ f ∈ server.faults, P f) (kind : Kind) (ns name : String) :
    (serverStore (.delete kind ns name) server).2.cluster =
        (store (.delete kind ns name) server.cluster).2 ∨
      ∃ fault, P fault ∧ fault.verb = .delete ∧ fault.applies = false ∧
        (serverStore (.delete kind ns name) server).1 =
          readAs fault.kind name (deletionOf fault.kind fault.response) := by
  cases hpath : hasPath ns name with
  | false =>
    rw [serverStore, store, handler_of_no_request (request?_delete_eq_none hpath kind),
      handler_of_no_request (request?_delete_eq_none hpath kind)]
    exact .inl rfl
  | true =>
    rw [serverStore, store, handler_of_request (request?_delete hpath kind),
      handler_of_request (request?_delete hpath kind)]
    obtain ⟨-, ⟨-, hserved⟩ | ⟨fault, hfault, hanswers, hresponse, hcluster⟩⟩ :=
      Server.exchange_of_forall hspend hfaults (.delete ⟨kind, ns, name⟩)
    · exact .inl hserved
    · simp only [Fault.answers, Bool.and_eq_true, beq_iff_eq] at hanswers
      obtain ⟨⟨⟨hverb, hkind⟩, -⟩, -⟩ := hanswers
      cases happlies : fault.applies with
      | true =>
        rw [happlies, if_pos rfl] at hcluster
        exact .inl hcluster
      | false =>
        obtain rfl : fault.kind = kind := hkind
        exact .inr ⟨fault, hfault, hverb, happlies, by rw [hresponse]; rfl⟩

/-- What candid faults let be told of a deletion is true. -/
theorem delete_of_candid (hfaults : ∀ f ∈ server.faults, f.Candid)
    (h : TellsGone (serverStore (.delete kind ns name) server).1) :
    (serverStore (.delete kind ns name) server).2.cluster =
      (store (.delete kind ns name) server.cluster).2 := by
  rcases serverStore_delete (fun _ hf => hf) hfaults kind ns name with
    hserved | ⟨fault, hcandid, hverb, hkept, hanswer⟩
  · exact hserved
  · rw [hanswer] at h
    rcases hcandid hverb with happlies | hno
    · rw [hkept] at happlies
      cases happlies
    · exact absurd h (hno name)

theorem delete_of_letsDelete (hfaults : ∀ f ∈ server.faults, f.LetsDelete) (kind : Kind)
    (ns name : String) : (serverStore (.delete kind ns name) server).2.cluster =
      (store (.delete kind ns name) server.cluster).2 := by
  rcases serverStore_delete (fun _ hf => hf) hfaults kind ns name with
    hserved | ⟨fault, hlets, hverb, hkept, -⟩
  · exact hserved
  · rw [hlets hverb] at hkept
    cases hkept

end Client

end JobOperator
