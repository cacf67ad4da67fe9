import JobOperator.Proofs.Pass.Course
import Mathlib.Algebra.BigOperators.Group.List.Basic
import Mathlib.Algebra.Ring.Int.Defs
import Mathlib.Algebra.Ring.Nat
import Mathlib.Data.List.Nodup

/-!
Gang scheduling. The pod group of a job asks for as many pods as the job should have. A pass that goes
on looks for just as many pods, under as many names, and creates those that it does not find. Each pod
that a pass creates says which group it belongs to, and which role it has there.
-/

namespace JobOperator

open Client

/-- The text of an annotation in a metadata that has it. -/
def ObjectMeta.annotation? (m : ObjectMeta) (key : String) : Option String := do
  (← m.annotations).get? key

/-! ### How many pods -/

namespace Job

/-- How many pods roles should have: none for a role whose replicas are negative. -/
def wanted (roles : List Role) : Int := (roles.map fun role => max role.replicas.toInt 0).sum

theorem wanted_eq (roles : List Role) : wanted roles = (roles.map Role.desiredReplicas).sum := by
  induction roles with
  | nil => rfl
  | cons role rest ih =>
    have hrole : (role.desiredReplicas : Int) = max role.replicas.toInt 0 := Int.ofNat_toNat _
    rw [wanted] at ih ⊢
    rw [List.map_cons, List.sum_cons, List.map_cons, List.sum_cons, ih, ← hrole, Int.natCast_add]

/-- The order of roles does not matter. -/
theorem wanted_perm {roles roles' : List Role} (h : roles.Perm roles') :
    wanted roles = wanted roles' := (h.map _).sum_eq

/-- Adding up with a bound at every step is adding up with a bound at the end. -/
theorem foldl_bounded (roles : List Role) {total : Nat} (h : total ≤ maxReplicas) :
    roles.foldl (fun total role => min (total + role.desiredReplicas) maxReplicas) total =
      min (total + (roles.map Role.desiredReplicas).sum) maxReplicas := by
  induction roles generalizing total with
  | nil => exact (Nat.min_eq_left h).symm
  | cons role rest ih =>
    rw [List.foldl_cons, ih (Nat.min_le_right _ _), List.map_cons, List.sum_cons]
    omega

theorem totalReplicas_eq (job : Job) :
    (job.totalReplicas : Int) = min (wanted job.spec.roles.values) (2 ^ 31 - 1) := by
  rw [totalReplicas, foldl_bounded _ (Nat.zero_le _), wanted_eq, maxReplicas]
  omega

/-- The bound keeps the number of pods one that can be written down. -/
theorem toInt_totalReplicas (job : Job) :
    (Int32.ofNat job.totalReplicas).toInt = min (wanted job.spec.roles.values) (2 ^ 31 - 1) := by
  have htotal := job.totalReplicas_eq
  rw [Int32.toInt_ofNat_of_lt (by omega), htotal]

end Job

namespace Pass

variable {settings : PassSettings} {now : Instant} {ns name : String} {job : Job}
  {identity : Identity} {images : Images} {exchanges : List Exchange}

/-- The names of the pods that a job should have. -/
def podNames (job : Job) : List String :=
  (replicas job).map fun r => replicaName job.name r.1 r.2

theorem mem_replicas {r : String × Nat} (h : r ∈ replicas job) :
    ∃ role, job.spec.roles.get? r.1 = some role ∧ r.2 < role.desiredReplicas := by
  obtain ⟨e, he, hr⟩ := List.mem_flatMap.1 h
  obtain ⟨index, hindex, rfl⟩ := List.mem_map.1 hr
  exact ⟨e.2, get?_roles job e he, List.mem_range.1 hindex⟩

/-- No two pods of a job have the same name. -/
theorem nodup_podNames (job : Job) : (podNames job).Nodup := by
  have hreplicas : (replicas job).Nodup := by
    refine (replicas_increasing job).imp fun hlt heq => ?_
    rcases hlt with hrole | ⟨-, hindex⟩
    · rw [heq] at hrole
      exact String.lt_irrefl _ hrole
    · rw [heq] at hindex
      exact Nat.lt_irrefl _ hindex
  refine hreplicas.map_on fun r hr r' hr' hname => ?_
  obtain ⟨role, -, hindex⟩ := mem_replicas hr
  obtain ⟨role', -, hindex'⟩ := mem_replicas hr'
  have hlt := role.desiredReplicas_lt
  have hlt' := role'.desiredReplicas_lt
  obtain ⟨hrole, hindex⟩ := Names.pod_injective (by omega) (by omega) hname
  exact Prod.ext hrole hindex

theorem length_podNames (job : Job) :
    ((podNames job).length : Int) = Job.wanted job.spec.roles.values := by
  rw [podNames, List.length_map, replicas, List.length_flatMap, Job.wanted_eq, SortedMap.values,
    List.map_map]
  simp only [List.length_map, List.length_range]
  rfl

/-! ### What is declared -/

/-- Whether a pod group is that of a job: it has the name of the job, and needs the pods that the job
should have, as long as their number can be written down. -/
structure Declares (job : Job) (group : PodGroup) : Prop where
  name : group.metadata.name = some job.name
  «namespace» : group.metadata.namespace = job.metadata.namespace
  minMember : ∀ roles, roles.Perm job.spec.roles.values →
    group.spec.minMember.toInt = min (Job.wanted roles) (2 ^ 31 - 1)
  members : Job.wanted job.spec.roles.values < 2 ^ 31 →
    group.spec.minMember.toInt = (podNames job).length

/-- Whether a pod is a member of the pod group of a job, for a role that it is a replica of. -/
structure Joins (job : Job) (pod : Pod) : Prop where
  replica : ∃ role index, (role, index) ∈ replicas job ∧
    pod.metadata.name = some (replicaName job.name role index) ∧
    pod.metadata.annotation? taskAnnotation = some role
  «namespace» : pod.metadata.namespace = job.metadata.namespace
  group : pod.metadata.annotation? groupAnnotation = some job.name
  scheduler : (pod.spec.bind (·.schedulerName)) = some gangScheduler

theorem declares_podGroup (hid : Identity.ofJob job = .ok identity) :
    Declares job (identity.owned .podGroup (job.podGroup identity)) := by
  obtain ⟨hns, -, -⟩ := Identity.ofJob_eq_ok.1 hid
  have hminMember : ∀ roles, roles.Perm job.spec.roles.values →
      (Int32.ofNat job.totalReplicas).toInt = min (Job.wanted roles) (2 ^ 31 - 1) := by
    intro roles hroles
    rw [Job.wanted_perm hroles, job.toInt_totalReplicas]
  refine ⟨?_, hns.symm, hminMember, fun hlt => ?_⟩
  · rw [Identity.name_of_ofJob hid]
    rfl
  · refine (hminMember _ (.refl _)).trans ?_
    rw [length_podNames]
    omega

/-- What the template of a role says of these annotations does not matter. -/
theorem annotations_of_gang (hgang : job.spec.enableGangScheduling = true) (role : String)
    (annotations : StringMap String) :
    (job.podAnnotations role annotations).get? groupAnnotation = some job.name ∧
      (job.podAnnotations role annotations).get? taskAnnotation = some role := by
  simp only [Job.podAnnotations, hgang, if_true]
  refine ⟨?_, SortedMap.get?_insert_self _ _ _⟩
  rw [SortedMap.get?_insert_ne _ (by decide), SortedMap.get?_insert_self]

theorem joins_replica (hgang : job.spec.enableGangScheduling = true) {role : String} {index : Nat}
    (hreplica : (role, index) ∈ replicas job) {pod : Pod}
    (h : job.replica role (Int32.ofNat index) images = .ok pod) :
    Joins job (identity.owned .pod pod) := by
  unfold Job.replica at h
  split at h
  · cases h
  · cases h
    refine ⟨⟨role, index, hreplica, rfl, ?_⟩, rfl, ?_, ?_⟩
    · exact (annotations_of_gang hgang role _).2
    · exact (annotations_of_gang hgang role _).1
    · simp [Identity.owned, Kind.withMetadata, Job.podSpec, hgang]

/-! ### The requests of a pass -/

/-- What is known of the requests of a pass after which the job goes on: the job that was loaded, the
pods that were listed, and that all that were missing were created. -/
structure GoesOn (settings : PassSettings) (ns name : String) (exchanges : List Exchange) (job : Job)
    (identity : Identity) (pods : List Pod) : Prop where
  loaded : ∃ load, exchanges.head? = some load ∧ objectOf? .job load.response = .ok (some job)
  identified : Identity.ofJob job = .ok identity
  listed : ∃ listing ∈ exchanges, listing.request = podsRequest job identity.namespace ∧
    ∃ all, listOf .pod listing.response = .ok all ∧
      pods = all.filter fun pod => job.controls pod.metadata
  requests : ∃ absent status, exchanges.map (·.request) = .get ⟨.job, ns, name⟩ ::
    ((children job identity settings.servicePort).flatMap (lookRequests absent) ++
      (podsRequest job identity.namespace :: creationRequests job identity settings.images pods ++
        [.patchStatus identity.key (statusPatch (job.withStatus status))]))

theorem goesOn_syncPods (hid : Identity.ofJob job = .ok identity)
    (hpath : hasPath identity.namespace identity.name = true) {status status' : JobStatus}
    {created : Nat}
    (h : Converses (syncPods job identity images now status) exchanges
      (.ok (.progressing created, status'))) :
    ∃ listing ∈ exchanges, listing.request = podsRequest job identity.namespace ∧
      ∃ all, listOf .pod listing.response = .ok all ∧
        exchanges.map (·.request) = podsRequest job identity.namespace ::
          creationRequests job identity images (all.filter fun pod => job.controls pod.metadata) := by
  obtain ⟨hns, -, -⟩ := Identity.ofJob_eq_ok.1 hid
  have hasks := request?_listPods hns (hasPath_ns hpath)
  rw [syncPods] at h
  rcases h.of_bind with ⟨e, he, -⟩ | ⟨pods, first, rest, rfl, hlist, htail⟩
  · cases he
  obtain ⟨response, rfl, hanswer⟩ := hlist.of_perform_of_request hasks
  obtain ⟨all, hall, rfl⟩ := map_eq_ok.1 (mapError_eq_ok.1 hanswer.symm)
  refine ⟨_, List.mem_append_left _ (List.mem_singleton_self _), rfl, all, mapError_eq_ok.1 hall, ?_⟩
  rw [List.map_append, List.map_singleton, List.singleton_append]
  refine congrArg (_ :: ·) ?_
  split at htail
  · rcases htail.of_bind with ⟨e, he, -⟩ | ⟨_, _, _, -, -, hdone⟩
    · cases he
    · cases hdone
  · rcases htail.of_bind with ⟨e, he, -⟩ | ⟨_, roles, _, rfl, hroles, hdone⟩
    · cases he
    · cases hdone
      let findings : Findings := ⟨fun _ => true, [], status⟩
      have hcarries : CarriesOut (findings.Agrees job) _ roles none :=
        carriesOut_syncRoles (hasPath_ns hpath) (get?_roles job) hroles
      rw [List.append_nil, hcarries.requests_eq, map_missingPods]

theorem goesOn_prepare (hid : Identity.ofJob job = .ok identity)
    (hpath : hasPath identity.namespace identity.name = true) {status : JobStatus} {created : Nat}
    (h : Converses (prepare settings now job) exchanges (.ok (.progressing created, status))) :
    ∃ listing ∈ exchanges, listing.request = podsRequest job identity.namespace ∧
      ∃ all absent, listOf .pod listing.response = .ok all ∧ exchanges.map (·.request) =
        (children job identity settings.servicePort).flatMap (lookRequests absent) ++
          podsRequest job identity.namespace :: creationRequests job identity settings.images
            (all.filter fun pod => job.controls pod.metadata) := by
  rw [prepare_eq hid] at h
  rcases h.of_bind with ⟨e, he, -⟩ | ⟨_, first, rest, rfl, hchildren, hpods⟩
  · cases he
  obtain ⟨absent, hcarries⟩ := carriesOut_syncChildren hpath hchildren
  obtain ⟨listing, hlisting, hrequest, all, hall, hrest⟩ := goesOn_syncPods hid hpath hpods
  refine ⟨listing, List.mem_append_right _ hlisting, hrequest, all, absent, hall, ?_⟩
  rw [List.map_append, hrest, (hcarries ⟨absent, [], status⟩ rfl).requests_eq]

theorem goesOn_of_converses {created : Nat}
    (h : Converses (program settings now ns name) exchanges (.ok (.progressing created))) :
    ∃ job identity pods, GoesOn settings ns name exchanges job identity pods := by
  rw [program] at h
  rcases h.of_bind with ⟨e, he, -⟩ | ⟨found, first, rest, rfl, hlook, htail⟩
  · cases he
  rcases hlook.of_perform with ⟨request, response, hasks, rfl, hanswer⟩ | ⟨-, -, hfails⟩
  swap
  · cases hfails
  obtain ⟨-, hasks⟩ := Option.ite_none_right_eq_some.1 hasks
  cases hasks
  have hread : objectOf? .job response = .ok found :=
    mapError_eq_ok.1 (mapError_eq_ok.1 hanswer.symm)
  cases found with
  | none => cases htail
  | some job =>
    simp only at htail
    split at htail
    · cases htail
    cases hid : Identity.ofJob job with
    | error e =>
      rw [ofJob, hid] at htail
      cases htail
    | ok identity =>
      cases hpath : hasPath identity.namespace identity.name with
      | false =>
        obtain ⟨-, hfails⟩ := of_ofJob_of_no_path hid hpath htail
        cases hfails
      | true =>
        rw [ofJob_eq] at htail
        rcases htail.of_bind with ⟨e, he, -⟩ | ⟨⟨o, status⟩, before, after, rfl, hprepare, hpersist⟩
        · cases he
        have hpatch : CarriesOut (Findings.Agrees job ⟨fun _ => true, [], status⟩) _ after none :=
          carriesOut_persist hid hpath hpersist
        rcases hpersist.of_bind with ⟨e, he, -⟩ | ⟨_, _, _, -, -, hdone⟩
        · cases he
        -- what became of the pods is what the pass ends with
        cases o with
        | stopped requestedBy => cases hdone
        | progressing created =>
          obtain ⟨listing, hlisting, hrequest, all, absent, hall, hrequests⟩ :=
            goesOn_prepare hid hpath hprepare
          refine ⟨job, identity, all.filter fun pod => job.controls pod.metadata,
            ⟨_, rfl, hread⟩, hid, ?_, absent, status, ?_⟩
          · have hmem : listing ∈ before ++ after := List.mem_append_left _ hlisting
            exact ⟨listing, List.mem_cons_of_mem _ hmem, hrequest, all, hall, rfl⟩
          · rw [List.singleton_append, List.map_cons, List.map_append, hrequests,
              hpatch.requests_eq, List.append_assoc]

/-- Whether a request creates a pod. -/
def postsPod : Request → Bool
  | .post .pod _ _ => true
  | _ => false

/-- The names of the pods that exchanges create, or try to. -/
def createdNames (exchanges : List Exchange) : List String :=
  ((exchanges.map (·.request)).filter postsPod).map Request.name

theorem postsPod_of_mem_looks {port : Int32} {absent : Kind → Bool} {request : Request}
    (h : request ∈ (children job identity port).flatMap (lookRequests absent)) :
    postsPod request = false := by
  obtain ⟨entry, hentry, hlook⟩ := List.mem_flatMap.1 h
  obtain ⟨-, hkind⟩ := of_mem_lookRequests hlook
  have hne : request.kind ≠ .pod := hkind ▸ (childKinds_ne (kind_of_mem_children hentry)).2
  cases request with
  | post kind space body =>
    cases kind with
    | pod => exact absurd rfl hne
    | _ => rfl
  | _ => rfl

/-- The pod of a replica is posted under the name of the replica. -/
theorem postedName_podBody (hid : Identity.ofJob job = .ok identity) {r : String × Nat}
    (hr : r ∈ replicas job) :
    Request.postedName (podBody job identity images r.1 r.2) = replicaName job.name r.1 r.2 := by
  obtain ⟨role, hrole, -⟩ := mem_replicas hr
  obtain ⟨pod, hpod⟩ := replica_eq_ok hrole (Int32.ofNat r.2) images
  have hkey := key_of_replica hid hpod
  have hname : (Kind.pod.metadata pod).nameAny = replicaName job.name r.1 r.2 := by
    rw [Identity.name_of_ofJob hid]
    exact congrArg ObjectKey.name hkey
  simp only [podBody, hpod, Identity.entry]
  rw [Kind.postedName_encode, Identity.nameAny_owned, hname]

theorem map_name_creationRequests (hid : Identity.ofJob job = .ok identity) (pods : List Pod) :
    (creationRequests job identity images pods).map Request.name =
      (podNames job).filter fun name => !pods.any (·.name == name) := by
  have hunlisted : unlisted job identity pods =
      (replicas job).filter fun r => !pods.any (·.name == replicaName job.name r.1 r.2) := by
    refine List.filter_congr fun r _ => ?_
    have hfound : (podNamed? pods (replicaName job.name r.1 r.2)).isSome =
        pods.any (·.name == replicaName job.name r.1 r.2) := by
      rw [Bool.eq_iff_iff, podNamed?_isSome, List.any_eq_true]
      simp only [beq_iff_eq]
    rw [← Identity.name_of_ofJob hid, ← Option.not_isSome, hfound]
  rw [creationRequests, List.map_map, podNames, List.filter_map, hunlisted]
  exact List.map_congr_left fun r hr => postedName_podBody hid (List.mem_filter.1 hr).1

theorem filter_postsPod_creationRequests (job : Job) (identity : Identity) (images : Images)
    (pods : List Pod) : (creationRequests job identity images pods).filter postsPod =
      creationRequests job identity images pods := by
  refine List.filter_eq_self.2 fun request hrequest => ?_
  obtain ⟨r, -, rfl⟩ := List.mem_map.1 hrequest
  rfl

/-- A pass after which the job goes on creates each of the job's pods that it does not find. -/
theorem GoesOn.createdNames_eq {pods : List Pod}
    (h : GoesOn settings ns name exchanges job identity pods) :
    createdNames exchanges = (podNames job).filter fun name => !pods.any (·.name == name) := by
  obtain ⟨absent, status, hrequests⟩ := h.requests
  have hlooks : ((children job identity settings.servicePort).flatMap (lookRequests absent)).filter
      postsPod = [] :=
    List.filter_eq_nil_iff.2 fun request hrequest => by simp [postsPod_of_mem_looks hrequest]
  have hposts : (exchanges.map (·.request)).filter postsPod =
      creationRequests job identity settings.images pods := by
    rw [hrequests, List.filter_cons_of_neg (by simp [postsPod]), List.filter_append, hlooks,
      List.filter_append, List.filter_cons_of_neg (by simp [postsPod, podsRequest]),
      filter_postsPod_creationRequests, List.filter_cons_of_neg (by simp [postsPod]),
      List.filter_nil, List.append_nil, List.nil_append]
  rw [createdNames, hposts, map_name_creationRequests h.identified]

/-! ### What is posted -/

/-- What is posted on a schedule are objects that a job has one of, and pods of its replicas. -/
theorem of_post_mem_schedule {findings : Findings} {kind : Kind} {space : String} {body : Json}
    (h : .post kind space body ∈ schedule settings job identity findings) :
    (∃ entry ∈ children job identity settings.servicePort, .post kind space body = postOf entry) ∨
      ∃ r ∈ replicas job, Request.post kind space body =
        .post .pod identity.namespace (podBody job identity settings.images r.1 r.2) := by
  rcases List.mem_append.1 h with h | h
  · rcases List.mem_append.1 h with hlook | hpods
    · obtain ⟨entry, hentry, hlook⟩ := List.mem_flatMap.1 hlook
      rcases List.mem_cons.1 hlook with hget | hcreate
      · cases hget
      · split at hcreate
        · exact .inl ⟨entry, hentry, List.mem_singleton.1 hcreate⟩
        · cases hcreate
    · rcases List.mem_cons.1 hpods with hlist | hpods
      · cases hlist
      · split at hpods
        · obtain ⟨pod, -, hdelete⟩ := List.mem_map.1 hpods
          cases hdelete
        · obtain ⟨r, hr, hcreate⟩ := List.mem_map.1 hpods
          exact .inr ⟨r, (List.mem_filter.1 hr).1, hcreate.symm⟩
  · cases List.mem_singleton.1 h

theorem declares_of_mem_schedule (hid : Identity.ofJob job = .ok identity) {findings : Findings}
    {space : String} {body : Json}
    (h : .post .podGroup space body ∈ schedule settings job identity findings) :
    job.metadata.namespace = some space ∧
      ∃ group, body = PodGroup.codec.encode group ∧ Declares job group := by
  obtain ⟨hns, -, -⟩ := Identity.ofJob_eq_ok.1 hid
  rcases of_post_mem_schedule h with ⟨entry, hentry, hpost⟩ | ⟨r, -, hpost⟩
  · rcases mem_children.1 hentry with rfl | rfl | ⟨-, rfl⟩
    · cases hpost
    · cases hpost
    · cases hpost
      exact ⟨hns, _, rfl, declares_podGroup hid⟩
  · cases hpost

theorem joins_of_mem_schedule (hid : Identity.ofJob job = .ok identity)
    (hgang : job.spec.enableGangScheduling = true) {findings : Findings} {space : String}
    {body : Json} (h : .post .pod space body ∈ schedule settings job identity findings) :
    job.metadata.namespace = some space ∧
      ∃ pod, body = Pod.codec.encode pod ∧ Joins job pod := by
  obtain ⟨hns, -, -⟩ := Identity.ofJob_eq_ok.1 hid
  rcases of_post_mem_schedule h with ⟨entry, hentry, hpost⟩ | ⟨r, hr, hpost⟩
  · have hkind : entry.1.kind ≠ .pod := (childKinds_ne (kind_of_mem_children hentry)).2
    injection hpost with hkind'
    exact absurd hkind'.symm hkind
  · cases hpost
    obtain ⟨role, hrole, -⟩ := mem_replicas hr
    obtain ⟨pod, hpod⟩ := replica_eq_ok hrole (Int32.ofNat r.2) settings.images
    refine ⟨hns, identity.owned .pod pod, ?_, joins_replica hgang hr hpod⟩
    simp only [podBody, hpod]
    rfl

/-- What a pass posts is on the schedule for the job that it has loaded. -/
theorem Course.post_mem_schedule {result : Except PassError Outcome}
    (h : Course settings ns name exchanges result) {load e : Exchange}
    (hload : exchanges.head? = some load) (hread : objectOf? .job load.response = .ok (some job))
    (he : e ∈ exchanges) {kind : Kind} {space : String} {body : Json}
    (hpost : e.request = .post kind space body) :
    ∃ identity findings, Identity.ofJob job = .ok identity ∧
      .post kind space body ∈ schedule settings job identity findings := by
  have honly {response : Response}
      (he : e ∈ [({ request := .get ⟨.job, ns, name⟩, response } : Exchange)]) : False := by
    rw [List.mem_singleton.1 he] at hpost
    cases hpost
  cases h with
  | unaddressed hpath => cases he
  | unread hread' => exact (honly he).elim
  | missing hread' => exact (honly he).elim
  | complete hread' hstate => exact (honly he).elim
  | unidentified hread' hstate hid => exact (honly he).elim
  | unaddressedChildren hread' hstate hid hpath => exact (honly he).elim
  | @conducted _ found identity findings exchanges _ hread' hstate hid hpath hconducts =>
    cases hload
    obtain rfl : job = found := Option.some.inj (Except.ok.inj (hread.symm.trans hread'))
    rcases List.mem_cons.1 he with rfl | he
    · cases hpost
    · refine ⟨identity, findings, hid, ?_⟩
      rw [← hpost]
      exact hconducts.order.subset (List.mem_map_of_mem he)

end Pass

namespace Sample

/-- A job whose pods are to be admitted together. One role has no replicas, and the template of the
other speaks of a scheduler and a task. -/
def ganged : Json := .obj
  [("metadata", .obj [("name", .str "train"), ("namespace", .str "default"), ("uid", .str "u1")]),
    ("spec", .obj [("enableGangScheduling", .bool true), ("roles", .obj
      [("server", .obj [("replicas", .int (-1))]),
        ("worker", .obj [("replicas", .int 2), ("template", .obj
          [("metadata", .obj [("annotations", .obj [( taskAnnotation, .str "other")])]),
            ("spec", .obj [("containers", .arr []), ("schedulerName", .str "other")])])])])])]

/-- The job with a gang as it is read. -/
def gangedJob : Job :=
  { metadata := { name := some "train", «namespace» := some "default", uid := some "u1" }
    spec :=
      { enableGangScheduling := true
        roles := SortedMap.ofList
          [("server", { replicas := -1 }),
            ("worker",
              { replicas := 2
                template :=
                  { metadata := some
                      { annotations := some (SortedMap.ofList [( taskAnnotation, "other")]) }
                    spec := some { containers := [], schedulerName := some "other" } } })] } }

end Sample

namespace Pass

/-- Whatever is answered to it, a pass that creates the pod group of a job has it need the pods that
the job should have, and each pod that it creates is a member of that group. When the job goes on, the
pods that it looks for among those that are listed are just as many, under different names, and it
creates those that it does not find. -/
theorem gang_coherence (settings : PassSettings) (now : Instant) (ns name : String) (server : Server)
    {job : Job} (hgang : job.spec.enableGangScheduling = true) :
    let run := (program settings now ns name).run serverStore server.forget
    ∀ load, run.2.exchanges.head? = some load → objectOf? .job load.response = .ok (some job) →
      (∀ e ∈ run.2.exchanges, ∀ space body, e.request = .post .podGroup space body →
        job.metadata.namespace = some space ∧
          ∃ group, body = PodGroup.codec.encode group ∧ Declares job group) ∧
      (∀ e ∈ run.2.exchanges, ∀ space body, e.request = .post .pod space body →
        job.metadata.namespace = some space ∧
          ∃ pod, body = Pod.codec.encode pod ∧ Joins job pod) ∧
      ∀ created, run.1 = .ok (.progressing created) →
        (podNames job).Nodup ∧ ∃ listing ∈ run.2.exchanges, ∃ space pods,
          listing.request = podsRequest job space ∧ listOf .pod listing.response = .ok pods ∧
          createdNames run.2.exchanges = (podNames job).filter fun name =>
            !(pods.filter fun pod => job.controls pod.metadata).any (·.name == name) := by
  intro run load hload hread
  have hconverses : Converses (program settings now ns name) run.2.exchanges run.1 :=
    .of_server _ server
  have hcourse := course_of_converses hconverses
  refine ⟨fun e he space body hpost => ?_, fun e he space body hpost => ?_, fun created hgoes => ?_⟩
  · obtain ⟨identity, findings, hid, hmem⟩ := hcourse.post_mem_schedule hload hread he hpost
    exact declares_of_mem_schedule hid hmem
  · obtain ⟨identity, findings, hid, hmem⟩ := hcourse.post_mem_schedule hload hread he hpost
    exact joins_of_mem_schedule hid hgang hmem
  · rw [hgoes] at hconverses
    obtain ⟨found, identity, pods, hgoesOn⟩ := goesOn_of_converses hconverses
    obtain ⟨load', hload', hread'⟩ := hgoesOn.loaded
    obtain rfl : load = load' := Option.some.inj (hload.symm.trans hload')
    obtain rfl : job = found := Option.some.inj (Except.ok.inj (hread.symm.trans hread'))
    have hcreated := hgoesOn.createdNames_eq
    obtain ⟨listing, hlisting, hrequest, all, hall, rfl⟩ := hgoesOn.listed
    exact ⟨nodup_podNames job, listing, hlisting, identity.namespace, all, hrequest, hall, hcreated⟩

/-- The group of the job with a gang needs two pods, and the pass creates two, whose template speaks of
another task and scheduler. -/
theorem gang_coherence_ganged :
    let server : Server := { cluster := SortedMap.insert ∅ Sample.key Sample.ganged }
    let run := (program {} Sample.now "default" "train").run serverStore server.forget
    (∃ e ∈ run.2.exchanges, ∃ space group,
      e.request = .post .podGroup space (PodGroup.codec.encode group) ∧
        group.spec.minMember.toInt = 2) ∧
      (∃ e ∈ run.2.exchanges, ∃ space pod,
        e.request = .post .pod space (Pod.codec.encode pod) ∧ Joins Sample.gangedJob pod) ∧
      createdNames run.2.exchanges = ["train-worker-0", "train-worker-1"] := by
  intro server run
  let posts (kind : Kind) (e : Exchange) : Bool := e.request.verb == .post && e.request.kind == kind
  have hrun : (run.2.exchanges.head?.map fun load => objectOf? .job load.response) =
        some (.ok (some Sample.gangedJob)) ∧
      run.2.exchanges.any (posts .podGroup) = true ∧ run.2.exchanges.any (posts .pod) = true ∧
        createdNames run.2.exchanges = ["train-worker-0", "train-worker-1"] := by
    decide +kernel
  obtain ⟨hload, hanyGroup, hanyPod, hnames⟩ := hrun
  obtain ⟨load, hload, hread⟩ := Option.map_eq_some_iff.1 hload
  obtain ⟨hgroup, hpods, -⟩ :=
    gang_coherence {} Sample.now "default" "train" server rfl load hload hread
  have hposts {kind : Kind} (hany : run.2.exchanges.any (posts kind) = true) :
      ∃ e ∈ run.2.exchanges, ∃ space body, e.request = .post kind space body := by
    obtain ⟨e, he, hpost⟩ := List.any_eq_true.1 hany
    obtain ⟨hverb, hkind⟩ := Bool.and_eq_true_iff.1 hpost
    refine ⟨e, he, ?_⟩
    cases hrequest : e.request with
    | post kind' space body =>
      rw [hrequest] at hkind
      obtain rfl : kind' = kind := eq_of_beq hkind
      exact ⟨space, body, rfl⟩
    | _ =>
      rw [hrequest] at hverb
      cases hverb
  refine ⟨?_, ?_, hnames⟩
  · obtain ⟨e, he, space, body, hpost⟩ := hposts hanyGroup
    obtain ⟨-, group, rfl, hdeclares⟩ := hgroup e he space body hpost
    have hwanted : min (Job.wanted Sample.gangedJob.spec.roles.values) (2 ^ 31 - 1) = 2 := by
      decide +kernel
    exact ⟨e, he, space, group, hpost, (hdeclares.minMember _ (.refl _)).trans hwanted⟩
  · obtain ⟨e, he, space, body, hpost⟩ := hposts hanyPod
    obtain ⟨-, pod, rfl, hjoins⟩ := hpods e he space body hpost
    exact ⟨e, he, space, pod, hpost, hjoins⟩

end Pass

end JobOperator
