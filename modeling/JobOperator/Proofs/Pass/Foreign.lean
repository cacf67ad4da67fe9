import JobOperator.Proofs.Pass.Homed
import JobOperator.Proofs.Pass.StopRequest

/-!
Pods that are none of a job's. What is in them does not show: in two clusters that differ in nothing
else, a pass does the same, and it leaves them alone even where it would have had their names.
-/

namespace JobOperator

open Client

/-- Whether an object is a pod, but not one of a job's: it lacks the label of the job's pods, or the
job does not control it. -/
def Job.Disowns (job : Job) (doc : Json) : Prop :=
  ∃ pod, Pod.codec.decode doc = .ok pod ∧
    ¬ (Cluster.selected doc (.equals appLabel job.name) = true ∧ job.controls pod.metadata = true)

/-- Whether a cluster has a pod here that is none of a job's. -/
def Cluster.HasForeign (cluster : Cluster) (job : Job) (key : ObjectKey) : Prop :=
  key.kind = .pod ∧ ∃ doc, cluster.get? key = some doc ∧ job.Disowns doc

theorem Cluster.HasForeign.there {cluster : Cluster} {job : Job} {key : ObjectKey}
    (h : cluster.HasForeign job key) : key.kind ≠ .job ∧ ∃ doc, cluster.get? key = some doc := by
  obtain ⟨hpod, doc, hdoc, -⟩ := h
  refine ⟨?_, doc, hdoc⟩
  rw [hpod]
  decide

/-- Whether clusters are alike: under each of these keys they have pods that are none of a job's, or
the same, and under all other keys the same. -/
def Job.Alike (job : Job) (keys : ObjectKey → Prop) (left right : Cluster) : Prop :=
  ∀ key, left.get? key = right.get? key ∨
    keys key ∧ left.HasForeign job key ∧ right.HasForeign job key

/-- Whether a call looks at no pods but by the list of a job. -/
def Call.Overlooks (job : Job) : Call → Prop
  | .get kind .. => kind ≠ .pod
  | .listPods other => other = job
  | _ => True

/-- Whether a fault shows no list in which a pod of a cluster that is none of a job's stands as one
that the job controls. -/
def Fault.SparesForeign (job : Job) (cluster : Cluster) (fault : Fault) : Prop :=
  fault.verb = .list → ∀ pods, listOf .pod fault.response = .ok pods →
    ∀ pod ∈ pods, job.controls pod.metadata = true →
      ∀ ns, job.metadata.namespace = some ns → ¬ cluster.HasForeign job ⟨.pod, ns, pod.name⟩

namespace Pass

variable {ns : String} {job : Job} {left right cluster : Cluster} {keys : ObjectKey → Prop}
  {key : ObjectKey} {doc : Json}

/-! ### What does not show -/

theorem ownedPod?_of_disowns (h : job.Disowns doc) : ownedPod? ns job (key, doc) = none := by
  obtain ⟨pod, hreads, hnot⟩ := h
  apply Option.eq_none_iff_forall_ne_some.2
  intro found hfound
  apply hnot
  obtain ⟨hlisted, hfound, hcontrols⟩ := ownedPod?_eq_some.1 hfound
  obtain rfl : pod = found := Except.ok.inj (hreads.symm.trans hfound)
  simp only [isListed, Bool.and_eq_true] at hlisted
  exact ⟨hlisted.2, hcontrols⟩

theorem ownedPods_of_alike (h : job.Alike keys left right) :
    ownedPods left ns job = ownedPods right ns job := by
  refine SortedMap.filterMap_toList_congr fun key => ?_
  rcases h key with hsame | ⟨-, ⟨-, doc, hdoc, hleft⟩, -, doc', hdoc', hright⟩
  · rw [hsame]
  · rw [hdoc, hdoc', Option.bind_some, Option.bind_some, ownedPod?_of_disowns hleft,
      ownedPod?_of_disowns hright]

theorem listable_of_alike (h : job.Alike keys left right) (hlistable : Listable left ns job) :
    Listable right ns job := by
  intro key doc hdoc hlisted
  rcases h key with hsame | ⟨-, -, -, doc', hdoc', pod, hreads, -⟩
  · exact hlistable key doc (hsame.trans hdoc) hlisted
  · obtain rfl : doc = doc' := Option.some.inj (hdoc.symm.trans hdoc')
    exact ⟨pod, hreads⟩

theorem listOf_reply_of_ne_ok {kind : Kind} {body : Json}
    (h : ∀ objects, listOf kind (.reply 200 body) ≠ .ok objects) :
    listOf kind (.reply 200 body) = .error .unreadable := by
  simp only [listOf, bodyOf, bind, Except.bind, if_neg (show ¬ (400 ≤ 200 ∧ 200 < 600) by decide)]
    at h ⊢
  cases hbody : decodeList kind body with
  | ok objects =>
    rw [hbody] at h
    exact absurd rfl (h objects)
  | error e => rfl

theorem store_listPods_of_not_listable (hns : job.metadata.namespace = some ns)
    (hpath : ns.toList.all mayStandInPath = true) (h : ¬ Listable cluster ns job) :
    (store (.listPods job) cluster).1 = .error (storeError .pod job.name .unreadable) := by
  have hserved : (store (.listPods job) cluster).1 =
      (readAs .pod job.name (listOf .pod (.reply 200 (Cluster.listBody .pod
        (listedPods cluster ns job))))).map (·.filter fun pod => job.controls pod.metadata) :=
    congrArg Prod.fst (handler_of_request (request?_listPods hns hpath) cluster)
  have hunreadable : listOf .pod (.reply 200 (Cluster.listBody .pod
      (listedPods cluster ns job))) = .error .unreadable := by
    refine listOf_reply_of_ne_ok fun all hall => h ?_
    rw [hall] at hserved
    exact ((store_listPods_iff hns).1 (Prod.ext hserved rfl)).2.2.1
  rw [hserved, hunreadable]
  rfl

end Pass

/-! ### Calls -/

namespace Job.Alike

open Pass

variable {job : Job} {keys : ObjectKey → Prop} {left right : Cluster} {key : ObjectKey}

theorem symm (h : job.Alike keys left right) : job.Alike keys right left := fun key =>
  (h key).imp Eq.symm fun ⟨hkey, hleft, hright⟩ => ⟨hkey, hright, hleft⟩

theorem hasForeign (h : job.Alike keys left right) (hright : right.HasForeign job key) :
    left.HasForeign job key := by
  rcases h key with hsame | ⟨-, hleft, -⟩
  · unfold Cluster.HasForeign at hright ⊢
    rw [hsame]
    exact hright
  · exact hleft

theorem listPods (h : job.Alike keys left right) :
    (store (.listPods job) left).1 = (store (.listPods job) right).1 := by
  cases hns : job.metadata.namespace with
  | none => simp only [store, handler, namespaceOf, hns]
  | some ns =>
    cases hpath : ns.toList.all mayStandInPath with
    | false => simp [store, handler, namespaceOf, hns, perform, hpath]
    | true =>
      by_cases hleft : Listable left ns job
      · have hright := listable_of_alike h hleft
        rw [(store_listPods_iff hns).2 ⟨hpath, rfl, hleft, rfl⟩,
          (store_listPods_iff hns).2 ⟨hpath, rfl, hright, rfl⟩, ownedPods_of_alike h]
      · have hright : ¬ Listable right ns job := fun hright =>
          hleft (listable_of_alike h.symm hright)
        rw [store_listPods_of_not_listable hns hpath hleft,
          store_listPods_of_not_listable hns hpath hright]

theorem call_of_eq {c : Call} (h : job.Alike keys left right) (hc : c.key? = some key)
    (hsame : left.get? key = right.get? key) :
    (store c left).1 = (store c right).1 ∧
      job.Alike keys (store c left).2 (store c right).2 := by
  obtain ⟨hanswer, hafter⟩ := store_congr hc hsame
  refine ⟨hanswer, fun k => ?_⟩
  by_cases hk : k = key
  · exact .inl (hk ▸ hafter)
  · have hother : c.key? ≠ some k := fun heq => hk (Option.some.inj (heq.symm.trans hc))
    simpa only [Cluster.HasForeign, store_frame hother] using h k

/-- Clusters that are alike answer a call alike, and stay so. -/
theorem call {c : Call} (hc : c.Overlooks job) (h : job.Alike keys left right) :
    (store c left).1 = (store c right).1 ∧
      job.Alike keys (store c left).2 (store c right).2 := by
  cases c with
  | get kind ns name =>
    rcases h ⟨kind, ns, name⟩ with hsame | ⟨-, ⟨hpod, -⟩, -⟩
    · exact h.call_of_eq rfl hsame
    · exact absurd hpod hc
  | create kind ns object =>
    rcases h ⟨kind, ns, (kind.metadata object).nameAny⟩ with
      hsame | ⟨-, ⟨-, doc, hdoc, -⟩, -, doc', hdoc', -⟩
    · exact h.call_of_eq rfl hsame
    · -- the name is taken in both clusters
      simp only [store, handler, perform, Cluster.exchange, Kind.postedName_encode,
        SortedMap.contains, hdoc, hdoc', Option.isSome_some, if_true]
      split
      · exact ⟨rfl, h⟩
      · exact ⟨rfl, h⟩
  | delete kind ns name =>
    rcases h ⟨kind, ns, name⟩ with hsame | ⟨-, ⟨-, doc, hdoc, -⟩, -, doc', hdoc', -⟩
    · exact h.call_of_eq rfl hsame
    · -- the object is there in both clusters, and gone after that
      simp only [store, handler, perform, Cluster.exchange, SortedMap.contains, hdoc, hdoc',
        Option.isSome_some, if_true]
      split
      · refine ⟨rfl, fun k => ?_⟩
        by_cases hk : k = ⟨kind, ns, name⟩
        · exact .inl (by rw [hk, SortedMap.get?_erase_self, SortedMap.get?_erase_self])
        · simpa only [Cluster.HasForeign, SortedMap.get?_erase_ne _ hk] using h k
      · exact ⟨rfl, h⟩
  | listPods other =>
    obtain rfl : other = job := hc
    rw [store_listPods_cluster, store_listPods_cluster]
    exact ⟨h.listPods, h⟩
  | writeStatus written =>
    cases hns : written.metadata.namespace with
    | none =>
      simp only [store, handler, namespaceOf, hns]
      exact ⟨trivial, h⟩
    | some ns =>
      rcases h ⟨.job, ns, written.name⟩ with hsame | ⟨-, ⟨hpod, -⟩, -⟩
      · exact h.call_of_eq (by rw [Call.key?, hns]; rfl) hsame
      · cases hpod

end Job.Alike

namespace Pass

variable {settings : PassSettings} {now : Instant} {ns name : String} {job : Job}
  {identity : Identity} {images : Images} {pods : List Pod} {left right : Cluster}
  {server : Server} {keys : ObjectKey → Prop} {key : ObjectKey}

/-! ### Passes -/

/-- Whether a call creates an object. -/
def Creates : Call → Prop
  | .create .. => True
  | _ => False

theorem creates_createOwned {kind : Kind} {object : kind.Object}
    {onError : StoreError → PassError} :
    (createOwned identity kind object onError).Within Creates fun _ => True := by
  refine ⟨trivial, fun answer => ?_⟩
  cases answer with
  | ok object => trivial
  | error e =>
    simp only
    split <;> trivial

theorem creates_syncReplicas {role : String} {remaining index : Nat} {counters : RoleStatus}
    {created : Nat} :
    (syncReplicas job identity images pods role remaining index counters created).Within Creates
      fun _ => True := by
  induction remaining generalizing index counters created with
  | zero => trivial
  | succ remaining ih =>
    rw [syncReplicas]
    split
    · exact ih
    · refine Program.Within.bind (Q := fun _ => True) ?_ fun isNew _ => ih
      unfold createReplica
      cases job.replica role (Int32.ofNat index) images with
      | error e => trivial
      | ok pod => exact creates_createOwned

theorem creates_syncRoles {roles : List (String × Role)} {statuses : StringMap RoleStatus}
    {created : Nat} :
    (syncRoles job identity images pods roles statuses created).Within Creates fun _ => True := by
  induction roles generalizing statuses created with
  | nil => trivial
  | cons r roles ih => exact creates_syncReplicas.bind fun _ _ => ih

/-- A pass looks at no pods but by the list of the job that it has loaded. -/
theorem overlooks_of_mem_history {σ : Type} {handler : Handler σ} {s : σ} {a : Answered}
    (hloads : ∀ shown, (handler (.get .job ns name) s).1 = .ok (some shown) → shown = job)
    (ha : a ∈ (program settings now ns name).history handler s) : a.call.Overlooks job := by
  have hjob {other : Job} {t : σ} (hbegins : Begins handler ns name other s t) : other = job :=
    hloads other (congrArg Prod.fst hbegins.found)
  cases stage_of_mem_history ha with
  | load => exact show Kind.job ≠ .pod by decide
  | child hbegins hid hchild =>
    have hprovides := (within_syncChildren fun _ he => he).history hchild
    cases hcall : a.call with
    | get kind ns name =>
      rw [hcall] at hprovides
      exact (childKinds_ne (key?_of_provides hprovides rfl)).2
    | listPods other =>
      rw [hcall] at hprovides
      exact hprovides.elim
    | _ => trivial
  | list hbegins => exact hjob hbegins
  | creation _ _ _ hcreation =>
    have hcreates := creates_syncRoles.history hcreation
    cases hcall : a.call with
    | create kind ns object => trivial
    | _ =>
      rw [hcall] at hcreates
      exact hcreates.elim
  | deletion _ _ _ hdeletion =>
    obtain ⟨pod, -, -, hdelete⟩ := sweeps_finalize.history hdeletion
    rw [hdelete]
    trivial
  | status => trivial

/-- The pods that a list shows are those of the cluster, or a fault has shown them. -/
theorem listed_or_shown {P : Fault → Prop} {t : Server} (hspend : ∀ f, P f → P f.spend)
    (hfaults : ∀ f ∈ t.faults, P f) (hns : job.metadata.namespace = some ns)
    (h : (serverStore (.listPods job) t).1 = .ok pods) :
    pods = ownedPods t.cluster ns job ∨ ∃ fault all, P fault ∧ fault.verb = .list ∧
      listOf .pod fault.response = .ok all ∧
        pods = all.filter fun pod => job.controls pod.metadata := by
  cases hasks : request? (.listPods job) with
  | none =>
    rw [serverStore, handler_of_no_request hasks] at h
    cases h
  | some request =>
    rw [serverStore, handler_of_request hasks] at h
    obtain ⟨-, ⟨hanswer, -⟩ | ⟨fault, hfault, hanswers, hresponse, -⟩⟩ :=
      Server.exchange_of_forall hspend hfaults request
    · left
      rw [hanswer] at h
      have hserved : (store (.listPods job) t.cluster).1 = .ok pods := by
        rw [store, handler_of_request hasks]
        exact h
      exact ((store_listPods_iff hns).1 (Prod.ext hserved rfl)).2.2.2
    · right
      rw [hresponse] at h
      obtain ⟨all, hall, hpods⟩ := map_eq_ok.1 h
      simp only [Fault.answers, Bool.and_eq_true, beq_iff_eq] at hanswers
      exact ⟨fault, all, hfault, hanswers.1.1.1.trans (verb_eq_of_request? hasks),
        mapError_eq_ok.1 hall, hpods.symm⟩

/-- A pass deletes no pod that is none of its job's. -/
theorem spares_of_mem_history {a : Answered}
    (hloads : ∀ shown, (serverStore (.get .job ns name) server).1 = .ok (some shown) → shown = job)
    (hhomed : ∀ key : ObjectKey, key.kind = .pod → server.cluster.Homed key)
    (hfaults : ∀ fault ∈ server.faults, fault.SparesForeign job server.cluster)
    (ha : a ∈ (program settings now ns name).history serverStore server)
    (hkey : server.cluster.HasForeign job key) :
    a.call ≠ .delete key.kind key.namespace key.name := by
  have hspend : ∀ f : Fault, f.SparesForeign job server.cluster →
      f.spend.SparesForeign job server.cluster := fun _ hf => hf
  intro hdelete
  cases stage_of_mem_history ha with
  | load => cases hdelete
  | child _ _ hchild =>
    have hprovides := (within_syncChildren fun _ he => he).history hchild
    rw [hdelete] at hprovides
    exact hprovides
  | list => cases hdelete
  | creation _ _ _ hcreation =>
    have hcreates := creates_syncRoles.history hcreation
    rw [hdelete] at hcreates
    exact hcreates
  | deletion hbegins hsurveys _ hdeletion =>
    obtain ⟨pod, hpod, -, hcall⟩ := sweeps_finalize.history hdeletion
    obtain rfl := hloads _ (congrArg Prod.fst hbegins.found)
    obtain ⟨hns, -⟩ := Identity.ofJob_eq_ok.1 hsurveys.identified
    obtain ⟨hpods, -⟩ := hsurveys.podsOf hspend hfaults hbegins
    obtain ⟨kind, space, called⟩ := key
    rw [hcall] at hdelete
    cases hdelete
    rcases listed_or_shown hspend hpods.faults hns (congrArg Prod.fst hsurveys.lists) with
      rfl | ⟨fault, all, hspares, hverb, hall, rfl⟩
    · -- what the cluster lists is one of the job's pods
      rw [ownedPods_congr hpods.pods] at hpod
      obtain ⟨doc, hdoc, howned⟩ := get?_of_mem_ownedPods
        (Cluster.namesPods_of_homed hhomed) hpod
      obtain ⟨-, doc', hdoc', hdisowns⟩ := hkey
      obtain rfl : doc = doc' := Option.some.inj (hdoc.symm.trans hdoc')
      rw [ownedPod?_of_disowns hdisowns] at howned
      cases howned
    · obtain ⟨hmem, hcontrols⟩ := List.mem_filter.1 hpod
      exact hspares hverb all hall pod hmem hcontrols _ hns hkey
  | status => cases hdelete

/-- Pods that no call of a program deletes are as they were after its runs. -/
theorem get?_of_spared {ε α : Type} {program : Program ε α} {foreign : ObjectKey → Prop}
    (hforeign : ∀ key, foreign key → key.kind ≠ .job ∧ ∃ doc, server.cluster.get? key = some doc)
    (h : ∀ a ∈ program.history serverStore server, ∀ key, foreign key →
      a.call ≠ .delete key.kind key.namespace key.name) (hkey : foreign key) :
    (program.run serverStore server).2.cluster.get? key = server.cluster.get? key := by
  have hstep (c : Call) (s : Server)
      (hc : ∀ key, foreign key → c ≠ .delete key.kind key.namespace key.name)
      (hs : ∀ key, foreign key → s.cluster.get? key = server.cluster.get? key) (k : ObjectKey)
      (hk : foreign k) : (serverStore c s).2.cluster.get? k = server.cluster.get? k := by
    obtain ⟨hkind, doc, hdoc⟩ := hforeign k hk
    rcases kept_or_deleted c hkind ((hs k hk).trans hdoc) with hkept | ⟨hdelete, -⟩
    · rw [hkept, hdoc]
    · exact absurd hdelete (hc k hk)
  exact Program.run_of_history h hstep (fun _ _ => rfl) key hkey

/-- In clusters that are alike, a pass does the same, and leaves them alike. -/
theorem run_program_of_alike (settings : PassSettings) (now : Instant) {faults : List Fault}
    (hloads : ∀ shown, (serverStore (.get .job ns name) { cluster := left, faults }).1 =
      .ok (some shown) → shown = job) (h : job.Alike keys left right) :
    let pass := program settings now ns name
    let first := pass.run serverStore { cluster := left, faults }
    let second := pass.run serverStore { cluster := right, faults }
    first.1 = second.1 ∧
      pass.history serverStore { cluster := left, faults } =
        pass.history serverStore { cluster := right, faults } ∧
      job.Alike keys first.2.cluster second.2.cluster := by
  intro pass first second
  have hstep (c : Call) (s t : Server) (hc : c.Overlooks job)
      (hst : s.faults = t.faults ∧ job.Alike keys s.cluster t.cluster) :
      (serverStore c s).1 = (serverStore c t).1 ∧
        (serverStore c s).2.faults = (serverStore c t).2.faults ∧
        job.Alike keys (serverStore c s).2.cluster (serverStore c t).2.cluster := by
    obtain ⟨hanswer, hcluster⟩ := hst.2.call hc
    exact serverStore_alike hst.1 hst.2 hanswer hcluster
  obtain ⟨hresult, hhistory, -, hafter⟩ :=
    Program.run_alike (t := ({ cluster := right, faults } : Server))
      (R := fun s t : Server => s.faults = t.faults ∧ job.Alike keys s.cluster t.cluster)
      (fun a ha => overlooks_of_mem_history hloads ha) hstep ⟨rfl, h⟩
  exact ⟨hresult, hhistory, hafter⟩

/-- What passes in two clusters have in common. -/
structure Unseen (job : Job) (faults : List Fault) (left right : Cluster)
    (first second : Except PassError Outcome × Server) : Prop where
  result : first.1 = second.1
  requests : first.2.log.map (·.request) = second.2.log.map (·.request)
  /-- What was the same is the same after them. -/
  others : ∀ key, left.get? key = right.get? key →
    first.2.cluster.get? key = second.2.cluster.get? key
  /-- Pods that are none of the job's stay as they are, unless a fault shows them as the job's. -/
  keeps : (∀ key : ObjectKey, key.kind = .pod → left.Homed key) →
    (∀ fault ∈ faults, fault.SparesForeign job left) → ∀ key,
      (left.HasForeign job key → first.2.cluster.get? key = left.get? key) ∧
        (right.HasForeign job key → second.2.cluster.get? key = right.get? key)

/-- In clusters that differ in nothing but pods that are none of the job's, with the same faults and
at the same time, a pass does the same. -/
theorem foreign_pods_unseen (settings : PassSettings) (now : Instant) {ns name : String} {job : Job}
    {faults : List Fault} {left right : Cluster}
    (hloads : ∀ shown, (serverStore (.get .job ns name) { cluster := left, faults }).1 =
      .ok (some shown) → shown = job)
    (hdiffer : ∀ key, left.get? key ≠ right.get? key →
      left.HasForeign job key ∧ right.HasForeign job key) :
    Unseen job faults left right
      ((program settings now ns name).run serverStore { cluster := left, faults })
      ((program settings now ns name).run serverStore { cluster := right, faults }) := by
  have halike : job.Alike (fun key => left.get? key ≠ right.get? key) left right := by
    intro key
    by_cases hsame : left.get? key = right.get? key
    · exact .inl hsame
    · exact .inr ⟨hsame, hdiffer key hsame⟩
  obtain ⟨hresult, hhistory, hafter⟩ := run_program_of_alike settings now hloads halike
  refine { result := hresult, requests := ?_, others := ?_, keeps := ?_ }
  · rw [requests_run, requests_run, ← Program.map_call_history, ← Program.map_call_history, hhistory]
  · intro key hsame
    rcases hafter key with hsame' | ⟨hdiffers, -⟩
    · exact hsame'
    · exact absurd hsame hdiffers
  · intro hhomed hfaults key
    constructor
    · intro hkey
      apply get?_of_spared (fun _ hk => hk.there) ?_ hkey
      intro a ha k hk
      exact spares_of_mem_history hloads hhomed hfaults ha hk
    · -- the second pass makes the calls of the first
      intro hkey
      apply get?_of_spared (fun _ hk => hk.there) ?_ hkey
      intro a ha k hk
      rw [← hhistory] at ha
      exact spares_of_mem_history hloads hhomed hfaults ha (halike.hasForeign hk)

end Pass

namespace Sample

/-- Where the first replica of the small job is kept. -/
def firstKey : ObjectKey := ⟨.pod, "default", "train-worker-0"⟩

/-- A pod of an earlier job of the small job's name, which has the name of a replica; it runs, or asks
for its job to stop. -/
def leftover (asks : Bool) : Json :=
  let owner : Json := .obj
    [("apiVersion", .str "realai.cn/v1alpha1"), ("kind", .str "LpJob"), ("name", .str "train"),
      ("uid", .str "u0"), ("controller", .bool true)]
  let ended : Json := .obj
    [("name", .str "main"), ("state", .obj [("terminated", .obj [("exitCode", .int 25)])])]
  let status : Json :=
    if asks then .obj [("phase", .str "Failed"), ("containerStatuses", .arr [ended])]
    else .obj [("phase", .str "Running")]
  .obj [("metadata", .obj [("name", .str "train-worker-0"), ("namespace", .str "default"),
    ("labels", .obj [("app", .str "train")]), ("ownerReferences", .arr [owner])]),
    ("status", status)]

/-- The small job and the pod of the earlier one. -/
def occupied (asks : Bool) : Cluster := posted.insert firstKey (leftover asks)

theorem homed_occupied (asks : Bool) (k : ObjectKey) : (occupied asks).Homed k := by
  refine (all_homed_posted k).insert fun pod hpod => ?_
  cases asks with
  | false => cases hpod; exact ⟨rfl, rfl⟩
  | true => cases hpod; exact ⟨rfl, rfl⟩

theorem hasForeign_occupied (asks : Bool) : (occupied asks).HasForeign job firstKey := by
  refine ⟨rfl, leftover asks, SortedMap.get?_insert_self _ _ _, ?_⟩
  cases asks with
  | false => exact ⟨_, rfl, by decide +kernel⟩
  | true => exact ⟨_, rfl, by decide +kernel⟩

theorem hasForeign_of_differ (k : ObjectKey) (h : (occupied false).get? k ≠ (occupied true).get? k) :
    (occupied false).HasForeign job k ∧ (occupied true).HasForeign job k := by
  by_cases hk : k = firstKey
  · rw [hk]
    exact ⟨hasForeign_occupied false, hasForeign_occupied true⟩
  · rw [occupied, occupied, SortedMap.get?_insert_ne _ hk, SortedMap.get?_insert_ne _ hk] at h
    exact absurd rfl h

end Sample

namespace Pass

/-- A pass over the small job does the same whether the pod of the earlier one runs or asks for its
job to stop: it goes on without its first replica. -/
theorem foreign_pods_unseen_occupied :
    let pass (asks : Bool) := (program {} Sample.now "default" "train").run serverStore
      { cluster := Sample.occupied asks }
    Unseen Sample.job [] (Sample.occupied false) (Sample.occupied true) (pass false) (pass true) ∧
      (pass true).1 = .ok (.progressing 1) ∧
      (pass true).2.cluster.get? Sample.firstKey = some (Sample.leftover true) := by
  have hloads (shown : Job) (hshown : (serverStore (.get .job "default" "train")
      { cluster := Sample.occupied false }).1 = .ok (some shown)) : shown = Sample.job := by
    cases hshown
    rfl
  have hunseen := foreign_pods_unseen {} Sample.now hloads Sample.hasForeign_of_differ
  refine ⟨hunseen, by decide +kernel, ?_⟩
  exact (hunseen.keeps (fun k _ => Sample.homed_occupied false k)
    (fun _ h => absurd h List.not_mem_nil) Sample.firstKey).2 (Sample.hasForeign_occupied true)

/-- A list that shows the pod of an earlier job as the job's own is believed: the pass deletes it. -/
theorem deletes_foreign_shown :
    let asking : Json := .obj [("phase", .str "Failed"), ("containerStatuses", .arr [.obj
      [("name", .str "main"), ("state", .obj [("terminated", .obj [("exitCode", .int 25)])])]])]
    let shown : Fault :=
      { verb := .list
        kind := .pod
        response := .reply 200 (.obj [("items", .arr [Sample.podOf "train-worker-0" (.obj []),
          Sample.podOf "train-worker-1" asking])]) }
    (∀ key, (Sample.occupied false).Homed key) ∧
      (∀ key, (Sample.occupied false).get? key ≠ (Sample.occupied true).get? key →
        (Sample.occupied false).HasForeign Sample.job key ∧
          (Sample.occupied true).HasForeign Sample.job key) ∧
      (Sample.occupied false).HasForeign Sample.job Sample.firstKey ∧
      ((program {} Sample.now "default" "train").run serverStore
        { cluster := Sample.occupied false, faults := [shown] }).2.cluster.get? Sample.firstKey =
          none :=
  ⟨Sample.homed_occupied false, Sample.hasForeign_of_differ, Sample.hasForeign_occupied false,
    by decide +kernel⟩

end Pass

end JobOperator
