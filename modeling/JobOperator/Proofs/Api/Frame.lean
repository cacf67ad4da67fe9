import JobOperator.Proofs.Api.Conversation

/-!
What a call leaves alone. Each call but a list is about one object, and all others are as before,
whatever the faults of the server; a call that no fault is meant for is answered by the cluster; and
what holds of faults however often they have answered holds of those that are left after any call.
-/

namespace JobOperator

open Client

/-- The object that a call is about, if it is about one. -/
def Call.key? : Call → Option ObjectKey
  | .get kind ns name | .delete kind ns name => some ⟨kind, ns, name⟩
  | .create kind ns object => some ⟨kind, ns, (kind.metadata object).nameAny⟩
  | .listPods _ => none
  | .writeStatus job => job.metadata.namespace.map (⟨.job, ·, job.name⟩)

/-- What a call asks a server to do. -/
def Call.verb : Call → Verb
  | .get .. => .get
  | .create .. => .post
  | .delete .. => .delete
  | .listPods _ => .list
  | .writeStatus _ => .patch

namespace Client

variable {c : Call} {key : ObjectKey}

theorem verb_eq_of_request? {request : Request} (h : request? c = some request) :
    request.verb = c.verb := by
  cases c with
  | get kind ns name =>
    obtain ⟨-, h⟩ := Option.ite_none_right_eq_some.1 h
    cases h
    rfl
  | create kind ns object =>
    obtain ⟨-, h⟩ := Option.ite_none_right_eq_some.1 h
    cases h
    rfl
  | delete kind ns name =>
    obtain ⟨-, h⟩ := Option.ite_none_right_eq_some.1 h
    cases h
    rfl
  | listPods job =>
    obtain ⟨ns, -, h⟩ := Option.bind_eq_some_iff.1 h
    obtain ⟨-, h⟩ := Option.ite_none_right_eq_some.1 h
    cases h
    rfl
  | writeStatus job =>
    obtain ⟨ns, -, h⟩ := Option.bind_eq_some_iff.1 h
    obtain ⟨-, h⟩ := Option.ite_none_right_eq_some.1 h
    cases h
    rfl

theorem store_frame (h : c.key? ≠ some key) (cluster : Cluster) :
    (store c cluster).2.get? key = cluster.get? key := by
  cases c with
  | get kind ns name => rw [store_get_cluster]
  | create kind ns object =>
    rcases store_create_cluster kind ns object cluster with hsame | hadded
    · rw [hsame]
    · have hne : key ≠ ⟨kind, ns, (kind.metadata object).nameAny⟩ := fun heq => h (by rw [heq]; rfl)
      rw [hadded, Cluster.get?_addMissing, if_neg hne, Option.or_none]
  | delete kind ns name =>
    rcases store_delete_cluster kind ns name cluster with hsame | herased
    · rw [hsame]
    · have hne : key ≠ ⟨kind, ns, name⟩ := fun heq => h (by rw [heq]; rfl)
      rw [herased, SortedMap.get?_erase_ne _ hne]
  | listPods job => rw [store_listPods_cluster]
  | writeStatus job =>
    rcases store_writeStatus_cluster job cluster with hsame | ⟨ns, doc, hns, -, hwritten⟩
    · rw [hsame]
    · have hne : key ≠ ⟨.job, ns, job.name⟩ := by
        rintro rfl
        exact h (by rw [Call.key?, hns]; rfl)
      rw [hwritten, SortedMap.get?_insert_ne _ hne]

/-- What a call about an object does follows from what is kept there. -/
theorem store_congr {cluster cluster' : Cluster} (hc : c.key? = some key)
    (h : cluster.get? key = cluster'.get? key) :
    (store c cluster).1 = (store c cluster').1 ∧
      (store c cluster).2.get? key = (store c cluster').2.get? key := by
  cases c with
  | get kind ns name =>
    cases hc
    rw [store_get_cluster, store_get_cluster]
    simp only [store, handler, perform, Cluster.exchange, h, and_true]
    cases hasPath ns name with
    | false => rfl
    | true => cases cluster'.get? ⟨kind, ns, name⟩ <;> rfl
  | create kind ns object =>
    cases hc
    simp only [store, handler, perform, Cluster.exchange, Kind.postedName_encode,
      SortedMap.contains, h]
    cases ns.toList.all mayStandInPath with
    | false => exact ⟨rfl, h⟩
    | true =>
      cases hfound : cluster'.get? ⟨kind, ns, (kind.metadata object).nameAny⟩ with
      | none => simp
      | some doc => simp [h, hfound]
  | delete kind ns name =>
    cases hc
    simp only [store, handler, perform, Cluster.exchange, SortedMap.contains, h]
    cases hasPath ns name with
    | false => exact ⟨rfl, h⟩
    | true =>
      rcases Option.eq_none_or_eq_some (cluster'.get? ⟨kind, ns, name⟩) with hfound | ⟨doc, hfound⟩
      · simp [h, hfound]
      · simp [hfound]
  | listPods job => cases hc
  | writeStatus job =>
    obtain ⟨ns, hns, rfl⟩ := Option.map_eq_some_iff.1 hc
    simp only [store, handler, namespaceOf, hns, perform, Cluster.exchange, h]
    cases hasPath ns job.name with
    | false => exact ⟨rfl, h⟩
    | true =>
      cases hfound : cluster'.get? ⟨.job, ns, job.name⟩ with
      | none => simp [h, hfound]
      | some doc => simp

/-- What a list shows follows from what it has. -/
theorem store_listPods_congr {job : Job} {cluster cluster' : Cluster}
    (h : ∀ ns, job.metadata.namespace = some ns →
      listedPods cluster ns job = listedPods cluster' ns job) :
    (store (.listPods job) cluster).1 = (store (.listPods job) cluster').1 := by
  cases hns : job.metadata.namespace with
  | none => simp only [store, handler, namespaceOf, hns]
  | some ns =>
    have hsame : cluster.listed .pod (some ns) (some (.equals appLabel job.name)) =
        cluster'.listed .pod (some ns) (some (.equals appLabel job.name)) := h ns hns
    simp only [store, handler, namespaceOf, hns, perform, podsRequest, Cluster.exchange, hsame]
    split <;> rfl

/-- Calls that are about no object in common leave the same store in either order. -/
theorem store_comm {d : Call} (h : ∀ key, c.key? = some key → d.key? ≠ some key)
    (cluster : Cluster) :
    (store d (store c cluster).2).2 = (store c (store d cluster).2).2 := by
  refine SortedMap.ext_get? fun key => ?_
  by_cases hc : c.key? = some key
  · have hd := h key hc
    rw [store_frame hd]
    exact (store_congr hc (store_frame hd cluster).symm).2
  · rw [store_frame hc]
    by_cases hd : d.key? = some key
    · exact (store_congr hd (store_frame hc cluster)).2
    · rw [store_frame hd, store_frame hd, store_frame hc]

theorem serverStore_frame (h : c.key? ≠ some key) (server : Server) :
    (serverStore c server).2.cluster.get? key = server.cluster.get? key := by
  rcases cluster_serverStore c server with hsame | hserved
  · rw [hsame]
  · rw [hserved, store_frame h]

/-- No call changes an object that is there and is no job, but a deletion may remove it. -/
theorem kept_or_deleted (c : Call) {server : Server} (hkey : key.kind ≠ .job) {doc : Json}
    (hdoc : server.cluster.get? key = some doc) :
    (serverStore c server).2.cluster.get? key = some doc ∨
      c = .delete key.kind key.namespace key.name ∧
        (serverStore c server).2.cluster.get? key = none := by
  by_cases hcall : c.key? = some key
  · rcases cluster_serverStore c server with hsame | hserved
    · exact .inl (by rw [hsame, hdoc])
    · rw [hserved]
      cases c with
      | get kind ns name => exact .inl (by rw [store_get_cluster, hdoc])
      | create kind ns object =>
        rcases store_create_cluster kind ns object server.cluster with hsame | hadded
        · exact .inl (by rw [hsame, hdoc])
        · exact .inl (by rw [hadded, Cluster.get?_addMissing, hdoc, Option.some_or])
      | delete kind ns name =>
        cases hcall
        rcases store_delete_cluster kind ns name server.cluster with hsame | herased
        · exact .inl (by rw [hsame, hdoc])
        · exact .inr ⟨rfl, by rw [herased, SortedMap.get?_erase_self]⟩
      | listPods job => cases hcall
      | writeStatus job =>
        obtain ⟨_, -, rfl⟩ := Option.map_eq_some_iff.1 hcall
        exact absurd rfl hkey
  · exact .inl (by rw [serverStore_frame hcall, hdoc])

/-- A call that has left its own object as it was has left all. -/
theorem serverStore_eq_of_get? (hc : c.key? = some key) {server : Server}
    (h : (serverStore c server).2.cluster.get? key = server.cluster.get? key) :
    (serverStore c server).2.cluster = server.cluster := by
  refine SortedMap.ext_get? fun k => ?_
  by_cases hk : k = key
  · rw [hk, h]
  · refine serverStore_frame (fun heq => hk ?_) server
    exact (Option.some.inj (hc.symm.trans heq)).symm

end Client

namespace Fault

variable {request : Request} {faults rest : List Fault} {fault : Fault} {P : Fault → Prop}

/-- The fault that answers is one of the faults, and the others wait on. -/
theorem forall_of_take? (hspend : ∀ f, P f → P f.spend)
    (h : take? request faults = some (fault, rest)) (hfaults : ∀ f ∈ faults, P f) :
    P fault ∧ fault.answers request = true ∧ ∀ f ∈ rest, P f := by
  induction faults generalizing rest with
  | nil => cases h
  | cons first others ih =>
    have hfirst := hfaults first List.mem_cons_self
    have hothers : ∀ f ∈ others, P f := fun f hf => hfaults f (List.mem_cons_of_mem _ hf)
    simp only [take?] at h
    split at h
    · rename_i hanswers
      cases h
      refine ⟨hfirst, hanswers, fun f hf => ?_⟩
      rcases List.mem_cons.1 hf with rfl | hf
      · exact hspend _ hfirst
      · exact hothers f hf
    · obtain ⟨⟨found, left⟩, htake, heq⟩ := Option.map_eq_some_iff.1 h
      cases heq
      obtain ⟨hfault, hanswers, hleft⟩ := ih htake hothers
      refine ⟨hfault, hanswers, fun f hf => ?_⟩
      rcases List.mem_cons.1 hf with rfl | hf
      · exact hfirst
      · exact hleft f hf

end Fault

namespace Server

variable {server : Server} {P : Fault → Prop}

/-- A request is answered by the cluster, or by a fault that is meant for it. -/
theorem exchange_of_forall (hspend : ∀ f, P f → P f.spend) (hfaults : ∀ f ∈ server.faults, P f)
    (request : Request) :
    (∀ f ∈ (server.exchange request).2.faults, P f) ∧
      ((server.exchange request).1 = (server.cluster.exchange request).1 ∧
          (server.exchange request).2.cluster = (server.cluster.exchange request).2 ∨
        ∃ fault, P fault ∧ fault.answers request = true ∧
          (server.exchange request).1 = fault.response ∧
          (server.exchange request).2.cluster =
            if fault.applies then (server.cluster.exchange request).2 else server.cluster) := by
  simp only [exchange]
  cases htake : Fault.take? request server.faults with
  | none => exact ⟨hfaults, .inl ⟨rfl, rfl⟩⟩
  | some found =>
    obtain ⟨fault, left⟩ := found
    obtain ⟨hfault, hanswers, hleft⟩ := Fault.forall_of_take? hspend htake hfaults
    exact ⟨hleft, .inr ⟨fault, hfault, hanswers, rfl, rfl⟩⟩

end Server

namespace Client

variable {server : Server} {P : Fault → Prop}

theorem forall_faults_serverStore (hspend : ∀ f, P f → P f.spend)
    (hfaults : ∀ f ∈ server.faults, P f) (c : Call) :
    ∀ f ∈ (serverStore c server).2.faults, P f := by
  cases hasks : request? c with
  | some request =>
    rw [serverStore, handler_of_request hasks]
    exact (Server.exchange_of_forall hspend hfaults request).1
  | none =>
    rw [serverStore, handler_of_no_request hasks]
    exact hfaults

/-- Servers with the same faults answer a call alike when their clusters do. -/
theorem serverStore_alike {c : Call} {R : Cluster → Cluster → Prop} {s t : Server}
    (hfaults : s.faults = t.faults) (hR : R s.cluster t.cluster)
    (hanswer : (store c s.cluster).1 = (store c t.cluster).1)
    (hcluster : R (store c s.cluster).2 (store c t.cluster).2) :
    (serverStore c s).1 = (serverStore c t).1 ∧
      (serverStore c s).2.faults = (serverStore c t).2.faults ∧
      R (serverStore c s).2.cluster (serverStore c t).2.cluster := by
  cases hasks : request? c with
  | none =>
    simp only [serverStore, handler_of_no_request hasks]
    exact ⟨trivial, hfaults, hR⟩
  | some request =>
    simp only [store, handler_of_request hasks] at hanswer hcluster
    simp only [serverStore, handler_of_request hasks, Server.exchange]
    rw [hfaults]
    cases Fault.take? request t.faults with
    | none => exact ⟨hanswer, rfl, hcluster⟩
    | some found =>
      obtain ⟨fault, left⟩ := found
      refine ⟨rfl, rfl, ?_⟩
      cases happlies : fault.applies with
      | true => simpa [Server.note, happlies] using hcluster
      | false => simpa [Server.note, happlies] using hR

/-- A call that no fault is meant for is answered by the cluster. -/
theorem serverStore_of_unanswered {c : Call} (h : ∀ f ∈ server.faults, f.verb ≠ c.verb) :
    (serverStore c server).1 = (store c server.cluster).1 ∧
      (serverStore c server).2.cluster = (store c server.cluster).2 := by
  cases hasks : request? c with
  | none =>
    rw [serverStore, store, handler_of_no_request hasks, handler_of_no_request hasks]
    exact ⟨rfl, rfl⟩
  | some request =>
    rw [serverStore, store, handler_of_request hasks, handler_of_request hasks]
    obtain ⟨-, ⟨hanswer, hcluster⟩ | ⟨fault, hfault, hanswers, -⟩⟩ :=
      Server.exchange_of_forall (P := fun f => f.verb ≠ c.verb) (fun _ hf => hf) h request
    · exact ⟨by rw [hanswer], hcluster⟩
    · simp only [Fault.answers, Bool.and_eq_true, beq_iff_eq] at hanswers
      exact absurd (hanswers.1.1.1.trans (verb_eq_of_request? hasks)) hfault

end Client

end JobOperator
