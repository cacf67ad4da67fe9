import JobOperator.Proofs.Pass.Schedule
import JobOperator.Proofs.Pass.Step

/-!
The course of a pass. Whatever is answered to its requests, the pass carries out its schedule, as far
as it gets. A pass that fails before it writes the status has left every job as it was.
-/

namespace JobOperator

open Client

namespace Pass

variable {settings : PassSettings} {now : Instant} {ns name : String} {job : Job}
  {identity : Identity} {images : Images} {findings : Findings} {exchanges : List Exchange}

/-! ### Objects that the job controls -/

theorem carriesOut_createOwned {kind : Kind} {object : kind.Object}
    (hns : identity.namespace.toList.all mayStandInPath = true) {result : Except PassError Bool}
    (h : Converses (createOwned identity kind object
      (.ofObject kind (kind.metadata object).nameAny)) exchanges result) :
    CarriesOut (findings.Agrees job) [postOf (identity.entry kind object)] exchanges
      (failureOf result) := by
  cases h with
  | @asked _ _ request response later _ hasks htail =>
    obtain ⟨-, hasks⟩ := Option.ite_none_right_eq_some.1 hasks
    cases hasks
    have hanswer : answerTo (.create kind identity.namespace (identity.owned kind object)) response =
        readAs kind (kind.metadata object).nameAny (objectOf kind response) := by
      rw [answerTo, Identity.nameAny_owned]
    rw [← Identity.owned, hanswer] at htail
    have hend : later = [] ∧ failureOf result =
        Exchange.failure? { request := postOf (identity.entry kind object), response } := by
      rw [failure?_postOf]
      cases hread : readAs kind (kind.metadata object).nameAny (objectOf kind response) with
      | ok o =>
        rw [hread] at htail
        cases htail
        exact ⟨rfl, rfl⟩
      | error e =>
        rw [hread] at htail
        cases htaken : e.isAlreadyExists with
        | true =>
          simp only [htaken, if_true] at htail
          cases htail
          simp [Option.filter, htaken]
        | false =>
          simp only [htaken, Bool.false_eq_true, if_false] at htail
          cases htail
          simp [Option.filter, htaken]
    rw [hend.1, hend.2]
    exact .single trivial
  | unasked hasks htail =>
    rw [request?, if_pos hns] at hasks
    cases hasks

/-- A look for an object, and its creation if there is none. -/
theorem carriesOut_ensure {kind : Kind} {object : kind.Object}
    (hpath : hasPath identity.namespace identity.name = true)
    (hname : (kind.metadata object).nameAny = identity.name) {result : Except PassError Bool}
    (h : Converses (ensure identity kind object (.ofObject kind identity.name)) exchanges result) :
    ∃ absent, ∀ findings : Findings, findings.absent kind = absent →
      CarriesOut (findings.Agrees job) (lookRequests findings.absent (identity.entry kind object))
        exchanges (failureOf result) := by
  have hkey : (identity.entry kind object).1 = ⟨kind, identity.namespace, identity.name⟩ := by
    rw [Identity.entry, hname]
  have hasks : request? (.get kind identity.namespace identity.name) =
      some (.get (identity.entry kind object).1) := by
    rw [request?, if_pos hpath, hkey]
  rw [ensure] at h
  rcases h.of_bind with ⟨e, rfl, hfailed⟩ | ⟨found, first, rest, rfl, hlook, htail⟩
  · obtain ⟨response, rfl, hanswer⟩ := hfailed.of_perform_of_request hasks
    refine ⟨true, fun findings _ => .failed ?_⟩
    rw [Exchange.failure?_get, hkey]
    simpa [answerTo] using (congrArg failureOf hanswer).symm
  · obtain ⟨response, rfl, hanswer⟩ := hlook.of_perform_of_request hasks
    have hread : objectOf? kind response = .ok found :=
      mapError_eq_ok.1 (mapError_eq_ok.1 hanswer.symm)
    have hfailure : Exchange.failure?
        { request := .get (identity.entry kind object).1, response } = none := by
      rw [Exchange.failure?_get, hkey]
      simp only [hread]
      rfl
    cases found with
    | none =>
      refine ⟨true, fun findings habsent => ?_⟩
      have hagreed : findings.Agrees job
          { request := .get (identity.entry kind object).1, response } := by
        exact iff_of_true habsent hread
      have hcreate : CarriesOut (findings.Agrees job)
          [postOf (identity.entry kind object)] rest (failureOf result) := by
        refine carriesOut_createOwned (hasPath_ns hpath) ?_
        rw [hname]
        exact htail
      rw [lookRequests, show findings.absent (identity.entry kind object).1.kind = true from habsent,
        if_pos rfl]
      exact .went hfailure hagreed hcreate
    | some o =>
      refine ⟨false, fun findings habsent => ?_⟩
      have hagreed : findings.Agrees job
          { request := .get (identity.entry kind object).1, response } := by
        refine iff_of_false ?_ ?_
        · rw [show findings.absent (identity.entry kind object).1.kind = false from habsent]
          exact Bool.false_ne_true
        · intro hnone
          cases hread.symm.trans hnone
      cases htail
      rw [lookRequests, show findings.absent (identity.entry kind object).1.kind = false from habsent,
        if_neg (by decide)]
      exact .went hfailure hagreed .finished

/-- Which of the objects that a job has one of are absent. -/
def absentOf (configMap service podGroup : Bool) : Kind → Bool
  | .configMap => configMap
  | .service => service
  | _ => podGroup

theorem carriesOut_syncChildren {port : Int32}
    (hpath : hasPath identity.namespace identity.name = true) {result : Except PassError Unit}
    (h : Converses (syncChildren job identity port) exchanges result) :
    ∃ absent, ∀ findings : Findings, findings.absent = absent →
      CarriesOut (findings.Agrees job)
        ((children job identity port).flatMap (lookRequests findings.absent)) exchanges
        (failureOf result) := by
  let group (absent : Kind → Bool) : List Request :=
    if job.spec.enableGangScheduling then
      lookRequests absent (identity.entry .podGroup (job.podGroup identity))
    else []
  have hchildren (absent : Kind → Bool) :
      (children job identity port).flatMap (lookRequests absent) =
        lookRequests absent (identity.entry .configMap (job.configMap identity)) ++
          (lookRequests absent (identity.entry .service (Job.service identity port)) ++
            group absent) := by
    simp only [children, group, List.cons_append, List.nil_append, List.flatMap_cons]
    split <;> simp
  simp only [hchildren]
  rw [syncChildren] at h
  rcases h.of_bind with ⟨e, rfl, hfailed⟩ | ⟨_, first, rest, rfl, hconfigMap, h⟩
  · obtain ⟨a, ha⟩ := carriesOut_ensure hpath rfl hfailed
    refine ⟨absentOf a true true, fun findings habsent => ?_⟩
    exact (ha findings (by rw [habsent]; rfl)).append_of_failed _
  obtain ⟨a, ha⟩ := carriesOut_ensure hpath rfl hconfigMap
  rcases h.of_bind with ⟨e, rfl, hfailed⟩ | ⟨_, second, rest, rfl, hservice, h⟩
  · obtain ⟨b, hb⟩ := carriesOut_ensure hpath rfl hfailed
    refine ⟨absentOf a b true, fun findings habsent => ?_⟩
    exact (ha findings (by rw [habsent]; rfl)).append
      ((hb findings (by rw [habsent]; rfl)).append_of_failed _)
  obtain ⟨b, hb⟩ := carriesOut_ensure hpath rfl hservice
  have hgroup : ∃ c, ∀ findings : Findings, findings.absent = absentOf a b c →
      CarriesOut (findings.Agrees job) (group findings.absent) rest (failureOf result) := by
    split at h
    · rename_i hgang
      simp only [group, hgang, if_true]
      rcases h.of_bind with ⟨e, rfl, hfailed⟩ | ⟨_, third, rest, rfl, hlook, h⟩
      · obtain ⟨c, hc⟩ := carriesOut_ensure hpath rfl hfailed
        exact ⟨c, fun findings habsent => hc findings (by rw [habsent]; rfl)⟩
      · obtain ⟨c, hc⟩ := carriesOut_ensure hpath rfl hlook
        cases h
        refine ⟨c, fun findings habsent => ?_⟩
        rw [List.append_nil]
        exact hc findings (by rw [habsent]; rfl)
    · rename_i hgang
      simp only [group, if_neg hgang]
      cases h
      exact ⟨true, fun _ _ => .finished⟩
  obtain ⟨c, hc⟩ := hgroup
  refine ⟨absentOf a b c, fun findings habsent => ?_⟩
  exact (ha findings (by rw [habsent]; rfl)).append
    ((hb findings (by rw [habsent]; rfl)).append (hc findings habsent))

/-! ### Pods -/

theorem deletionRequests_cons (identity : Identity) (pod : Pod) (rest : List Pod) :
    deletionRequests identity (pod :: rest) =
      if outlives identity pod && hasPath identity.namespace pod.name then
        .delete ⟨.pod, identity.namespace, pod.name⟩ :: deletionRequests identity rest
      else deletionRequests identity rest := by
  unfold deletionRequests
  cases hlasts : outlives identity pod <;>
    cases hpath : hasPath identity.namespace pod.name <;> simp [hlasts, hpath]

/-- The pods of a job that stops are gone through whatever becomes of the deletions. -/
theorem carriesOut_finalize {pods : List Pod} {statuses : StringMap RoleStatus}
    {result : Except PassError (StringMap RoleStatus)}
    (h : Converses (finalize identity pods statuses) exchanges result) :
    CarriesOut (findings.Agrees job) (deletionRequests identity pods) exchanges
      (failureOf result) := by
  induction pods generalizing statuses exchanges with
  | nil =>
    cases h
    exact .finished
  | cons pod rest ih =>
    rw [deletionRequests_cons]
    cases hrole : Names.role? identity.name pod.name with
    | none =>
      simp only [finalize, hrole] at h
      simpa [outlives, hrole] using ih h
    | some role =>
      cases hexit : pod.exitCode? with
      | some code =>
        simp only [finalize, hrole, hexit] at h
        simpa [outlives, hrole, hexit] using ih h
      | none =>
        have hlasts : outlives identity pod = true := by simp [outlives, hrole, hexit]
        simp only [finalize, hrole, hexit] at h
        cases h with
        | asked hasks htail =>
          obtain ⟨hpath, hasks⟩ := Option.ite_none_right_eq_some.1 hasks
          cases hasks
          rw [hlasts, hpath, Bool.and_true, if_pos rfl]
          refine .went rfl trivial ?_
          generalize answerTo _ _ = answer at htail
          cases answer with
          | ok u => exact ih htail
          | error e => exact ih htail
        | unasked hasks htail =>
          have hpath : hasPath identity.namespace pod.name = false := by simpa [request?] using hasks
          rw [hpath, Bool.and_false, if_neg (by decide)]
          exact ih htail

theorem carriesOut_createReplica (hns : identity.namespace.toList.all mayStandInPath = true)
    {role : String} {definition : Role} (hrole : job.spec.roles.get? role = some definition)
    {index : Nat} {result : Except PassError Bool}
    (h : Converses (createReplica job identity images role (Int32.ofNat index)) exchanges result) :
    CarriesOut (findings.Agrees job) ((replicaEntry job identity images role index).map postOf)
      exchanges (failureOf result) := by
  obtain ⟨pod, hpod⟩ := replica_eq_ok hrole (Int32.ofNat index) images
  have hname : pod.metadata.name.getD "" = (Kind.pod.metadata pod).nameAny := by
    simp only [Job.replica, hrole] at hpod
    cases hpod
    rfl
  simp only [createReplica, hpod, hname] at h
  simp only [replicaEntry, hpod]
  exact carriesOut_createOwned hns h

theorem carriesOut_syncReplicas (hns : identity.namespace.toList.all mayStandInPath = true)
    {role : String} {definition : Role} (hrole : job.spec.roles.get? role = some definition)
    {pods : List Pod} {remaining index : Nat} {counters : RoleStatus} {created : Nat}
    {result : Except PassError (RoleStatus × Nat)}
    (h : Converses (syncReplicas job identity images pods role remaining index counters created)
      exchanges result) :
    CarriesOut (findings.Agrees job)
      ((missingReplicas job identity images pods role remaining index).map postOf) exchanges
      (failureOf result) := by
  induction remaining generalizing index counters created exchanges with
  | zero =>
    cases h
    exact .finished
  | succ remaining ih =>
    rw [missingReplicas_succ, List.map_append]
    rw [syncReplicas] at h
    split at h
    · rename_i pod hpod
      have hseen : podNamed? pods (replicaName identity.name role index) = some pod := hpod
      rw [hseen]
      exact ih h
    · rename_i hpod
      have hseen : podNamed? pods (replicaName identity.name role index) = none := hpod
      rw [hseen]
      exact .bind h (fun first r hfirst => carriesOut_createReplica hns hrole hfirst)
        fun isNew rest hrest => ih hrest

theorem carriesOut_syncRoles (hns : identity.namespace.toList.all mayStandInPath = true)
    {roles : List (String × Role)} (hroles : ∀ r ∈ roles, job.spec.roles.get? r.1 = some r.2)
    {pods : List Pod} {statuses : StringMap RoleStatus} {created : Nat}
    {result : Except PassError (StringMap RoleStatus × Nat)}
    (h : Converses (syncRoles job identity images pods roles statuses created) exchanges result) :
    CarriesOut (findings.Agrees job) ((missingPods job identity images pods roles).map postOf)
      exchanges (failureOf result) := by
  induction roles generalizing statuses created exchanges with
  | nil =>
    cases h
    exact .finished
  | cons r roles ih =>
    obtain ⟨name, role⟩ := r
    rw [missingPods, List.flatMap_cons, List.map_append, ← missingPods]
    rw [syncRoles] at h
    exact .bind h
      (fun first r hfirst => carriesOut_syncReplicas hns (hroles _ List.mem_cons_self) hfirst)
      fun counted rest hrest => ih (fun r hr => hroles r (List.mem_cons_of_mem _ hr)) hrest

theorem postOf_replicaEntry {role : String} {definition : Role}
    (hrole : job.spec.roles.get? role = some definition) (index : Nat) :
    (replicaEntry job identity images role index).map postOf =
      [.post .pod identity.namespace (podBody job identity images role index)] := by
  obtain ⟨pod, hpod⟩ := replica_eq_ok hrole (Int32.ofNat index) images
  simp only [replicaEntry, podBody, hpod]
  rfl

theorem map_missingReplicas {role : String} {definition : Role}
    (hrole : job.spec.roles.get? role = some definition) (pods : List Pod) :
    (missingReplicas job identity images pods role definition.desiredReplicas 0).map postOf =
      (((List.range definition.desiredReplicas).map (role, ·)).filter fun r =>
        (podNamed? pods (replicaName identity.name r.1 r.2)).isNone).map fun r =>
          .post .pod identity.namespace (podBody job identity images r.1 r.2) := by
  rw [missingReplicas, ← List.range_eq_range']
  induction List.range definition.desiredReplicas with
  | nil => rfl
  | cons index rest ih =>
    rw [List.flatMap_cons, List.map_append, ih, List.map_cons, List.filter_cons]
    cases podNamed? pods (replicaName identity.name role index) with
    | some pod => rfl
    | none =>
      simp only [Option.isSome_none, Option.isNone_none, Bool.false_eq_true, if_false, if_true,
        postOf_replicaEntry hrole]
      rfl

/-- The pods that are posted are those of the replicas that are not listed. -/
theorem map_missingPods (job : Job) (identity : Identity) (images : Images) (pods : List Pod) :
    (missingPods job identity images pods job.spec.roles.toList).map postOf =
      creationRequests job identity images pods := by
  simp only [missingPods, creationRequests, unlisted, replicas, List.map_flatMap,
    List.filter_flatMap]
  rw [List.flatMap_def, List.flatMap_def]
  exact congrArg List.flatten (List.map_congr_left fun r hr =>
    map_missingReplicas (get?_roles job r hr) pods)

theorem carriesOut_syncPods (hns : job.metadata.namespace = some identity.namespace)
    (hpath : identity.namespace.toList.all mayStandInPath = true) {status : JobStatus}
    {result : Except PassError (PodsOutcome × JobStatus)}
    (h : Converses (syncPods job identity images now status) exchanges result) :
    ∃ pods, ∀ findings : Findings, findings.pods = pods →
      CarriesOut (findings.Agrees job)
        (podsRequest job identity.namespace ::
          if pods.any Pod.requestsStop then deletionRequests identity pods
          else creationRequests job identity images pods) exchanges (failureOf result) := by
  have hasks := request?_listPods hns hpath
  rw [syncPods] at h
  rcases h.of_bind with ⟨e, rfl, hfailed⟩ | ⟨pods, first, rest, rfl, hlist, htail⟩
  · obtain ⟨response, rfl, hanswer⟩ := hfailed.of_perform_of_request hasks
    refine ⟨[], fun findings _ => .failed ?_⟩
    rw [Exchange.failure?_podsRequest]
    simpa [answerTo] using (congrArg failureOf hanswer).symm
  · obtain ⟨response, rfl, hanswer⟩ := hlist.of_perform_of_request hasks
    obtain ⟨all, hall, hpods⟩ := map_eq_ok.1 (mapError_eq_ok.1 hanswer.symm)
    have hread : listOf .pod response = .ok all := mapError_eq_ok.1 hall
    refine ⟨pods, fun findings hfound => ?_⟩
    have hfailure : Exchange.failure?
        { request := podsRequest job identity.namespace, response } = none := by
      rw [Exchange.failure?_podsRequest, hread]
      rfl
    have hagreed : findings.Agrees job
        { request := podsRequest job identity.namespace, response } :=
      ⟨all, hread, hfound.trans hpods.symm⟩
    refine .went hfailure hagreed ?_
    have hstops : pods.any Pod.requestsStop = (pods.find? Pod.requestsStop).isSome := by
      rw [Bool.eq_iff_iff, List.find?_isSome, List.any_eq_true]
    cases hfind : pods.find? Pod.requestsStop with
    | some pod =>
      rw [hfind] at htail hstops
      rw [hstops, Option.isSome_some, if_pos rfl]
      exact .bind_pure htail fun first r hfirst => carriesOut_finalize hfirst
    | none =>
      rw [hfind] at htail hstops
      rw [hstops, Option.isSome_none, if_neg (by decide), ← map_missingPods]
      exact .bind_pure htail fun first r hfirst =>
        carriesOut_syncRoles hpath (get?_roles job) hfirst

/-! ### The pass -/

theorem carriesOut_prepare (hid : Identity.ofJob job = .ok identity)
    (hpath : hasPath identity.namespace identity.name = true)
    {result : Except PassError (PodsOutcome × JobStatus)}
    (h : Converses (prepare settings now job) exchanges result) :
    ∃ absent pods, ∀ findings : Findings, findings.absent = absent → findings.pods = pods →
      CarriesOut (findings.Agrees job)
        (preparation settings job identity findings.absent findings.pods) exchanges
        (failureOf result) := by
  obtain ⟨hns, -, -⟩ := Identity.ofJob_eq_ok.1 hid
  rw [prepare_eq hid] at h
  rcases h.of_bind with ⟨e, rfl, hfailed⟩ | ⟨_, first, rest, rfl, hchildren, hpods⟩
  · obtain ⟨absent, hcarries⟩ := carriesOut_syncChildren hpath hfailed
    exact ⟨absent, [], fun findings habsent _ => (hcarries findings habsent).append_of_failed _⟩
  · obtain ⟨absent, hfirst⟩ := carriesOut_syncChildren hpath hchildren
    obtain ⟨pods, hrest⟩ := carriesOut_syncPods hns (hasPath_ns hpath) hpods
    refine ⟨absent, pods, fun findings habsent hfound => ?_⟩
    rw [preparation, hfound]
    exact (hfirst findings habsent).append (hrest findings hfound)

theorem carriesOut_persist (hid : Identity.ofJob job = .ok identity)
    (hpath : hasPath identity.namespace identity.name = true) {prepared : PodsOutcome × JobStatus}
    {result : Except PassError Outcome}
    (h : Converses (persist job prepared) exchanges result) :
    CarriesOut (findings.Agrees job)
      [.patchStatus identity.key (statusPatch (job.withStatus prepared.2))] exchanges
      (failureOf result) := by
  obtain ⟨hns, -, -⟩ := Identity.ofJob_eq_ok.1 hid
  have hname : (job.withStatus prepared.2).name = identity.name := Identity.name_of_ofJob hid
  have hns' : (job.withStatus prepared.2).metadata.namespace = some identity.namespace := hns
  have hasks : request? (.writeStatus (job.withStatus prepared.2)) =
      some (.patchStatus identity.key (statusPatch (job.withStatus prepared.2))) := by
    rw [← hname] at hpath
    rw [request?_writeStatus hns' hpath, Identity.key, hname]
  rw [persist] at h
  refine .bind_pure h fun first r hfirst => ?_
  obtain ⟨response, rfl, rfl⟩ := hfirst.of_perform_of_request hasks
  have hfailure : failureOf ((answerTo (.writeStatus (job.withStatus prepared.2)) response).mapError
      PassError.persistStatus) = Exchange.failure?
        { request := .patchStatus identity.key (statusPatch (job.withStatus prepared.2)),
          response } := by
    rw [Exchange.failure?_patchStatus, failureOf_mapError, answerTo, failureOf_map, hname]
    rfl
  rw [hfailure]
  exact .single trivial

theorem carriesOut_ofJob (hid : Identity.ofJob job = .ok identity)
    (hpath : hasPath identity.namespace identity.name = true) {result : Except PassError Outcome}
    (h : Converses (ofJob settings now job) exchanges result) :
    ∃ findings : Findings, CarriesOut (findings.Agrees job)
      (schedule settings job identity findings) exchanges (failureOf result) := by
  rw [ofJob_eq] at h
  rcases h.of_bind with ⟨e, rfl, hfailed⟩ | ⟨prepared, first, rest, rfl, hprepare, hpersist⟩
  · obtain ⟨absent, pods, hcarries⟩ := carriesOut_prepare hid hpath hfailed
    exact ⟨⟨absent, pods, {}⟩, (hcarries _ rfl rfl).append_of_failed _⟩
  · obtain ⟨absent, pods, hcarries⟩ := carriesOut_prepare hid hpath hprepare
    exact ⟨⟨absent, pods, prepared.2⟩, (hcarries _ rfl rfl).append
      (carriesOut_persist hid hpath hpersist)⟩

/-- Where there is no path for what is named after the job, the pass fails without a request. -/
theorem of_ofJob_of_no_path (hid : Identity.ofJob job = .ok identity)
    (hpath : hasPath identity.namespace identity.name = false) {result : Except PassError Outcome}
    (h : Converses (ofJob settings now job) exchanges result) :
    exchanges = [] ∧
      result = .error (.syncConfigMap (.client .configMap identity.name .noRequest)) := by
  have hasks : request? (.get .configMap identity.namespace identity.name) = none := by
    rw [request?, hpath]
    rfl
  rw [ofJob_eq, prepare_eq hid] at h
  refine h.of_bind_of_fails fun _ _ hprepare => hprepare.of_bind_of_fails fun _ _ hchildren => ?_
  rw [syncChildren] at hchildren
  refine hchildren.of_bind_of_fails fun _ _ hconfigMap => ?_
  rw [ensure] at hconfigMap
  exact hconfigMap.of_bind_of_fails fun _ _ hlook => hlook.of_perform_of_no_request hasks

/-- The course of a pass: what it asks and how it ends, whatever is answered. -/
inductive Course (settings : PassSettings) (ns name : String) :
    List Exchange → Except PassError Outcome → Prop
  /-- There is no path for the job. -/
  | unaddressed (path : hasPath ns name = false) :
    Course settings ns name [] (.error (.loadJob (.client .job name .noRequest)))
  /-- The job cannot be read. -/
  | unread {response : Response} {cause : ClientError}
      (read : objectOf? .job response = .error cause) :
    Course settings ns name [{ request := .get ⟨.job, ns, name⟩, response }]
      (.error (.loadJob (storeError .job name cause)))
  /-- There is no job. -/
  | missing {response : Response} (read : objectOf? .job response = .ok none) :
    Course settings ns name [{ request := .get ⟨.job, ns, name⟩, response }] (.ok .missing)
  /-- The job is complete. -/
  | complete {response : Response} {job : Job} (read : objectOf? .job response = .ok (some job))
      (state : job.state = .complete) :
    Course settings ns name [{ request := .get ⟨.job, ns, name⟩, response }]
      (.ok .alreadyComplete)
  /-- The job has no namespace, no name or no uid. -/
  | unidentified {response : Response} {job : Job} {error : PassError}
      (read : objectOf? .job response = .ok (some job)) (state : job.state ≠ .complete)
      (identified : Identity.ofJob job = .error error) :
    Course settings ns name [{ request := .get ⟨.job, ns, name⟩, response }] (.error error)
  /-- There is no path for what is named after the job. -/
  | unaddressedChildren {response : Response} {job : Job} {identity : Identity}
      (read : objectOf? .job response = .ok (some job)) (state : job.state ≠ .complete)
      (identified : Identity.ofJob job = .ok identity)
      (path : hasPath identity.namespace identity.name = false) :
    Course settings ns name [{ request := .get ⟨.job, ns, name⟩, response }]
      (.error (.syncConfigMap (.client .configMap identity.name .noRequest)))
  /-- The pass goes through its schedule, as far as it gets. -/
  | conducted {response : Response} {job : Job} {identity : Identity} {findings : Findings}
      {exchanges : List Exchange} {result : Except PassError Outcome}
      (read : objectOf? .job response = .ok (some job)) (state : job.state ≠ .complete)
      (identified : Identity.ofJob job = .ok identity)
      (path : hasPath identity.namespace identity.name = true)
      (conducts : Conducts (findings.Agrees job) (schedule settings job identity findings)
        exchanges result) :
    Course settings ns name ({ request := .get ⟨.job, ns, name⟩, response } :: exchanges) result

/-- Whatever answers a pass, it takes its course. -/
theorem course_of_converses {result : Except PassError Outcome}
    (h : Converses (program settings now ns name) exchanges result) :
    Course settings ns name exchanges result := by
  rw [program] at h
  cases hpath : hasPath ns name with
  | false =>
    have hasks : request? (.get .job ns name) = none := by
      rw [request?, hpath]
      rfl
    obtain ⟨rfl, rfl⟩ := h.of_bind_of_fails fun _ _ hlook => hlook.of_perform_of_no_request hasks
    exact .unaddressed hpath
  | true =>
    have hasks : request? (.get .job ns name) = some (.get ⟨.job, ns, name⟩) := if_pos hpath
    rcases h.of_bind with ⟨e, rfl, hfailed⟩ | ⟨found, first, rest, rfl, hlook, htail⟩
    · obtain ⟨response, rfl, hanswer⟩ := hfailed.of_perform_of_request hasks
      cases hread : objectOf? .job response with
      | ok found =>
        rw [answerTo, hread] at hanswer
        cases hanswer
      | error cause =>
        rw [answerTo, hread] at hanswer
        cases hanswer
        exact .unread hread
    · obtain ⟨response, rfl, hanswer⟩ := hlook.of_perform_of_request hasks
      have hread : objectOf? .job response = .ok found :=
        mapError_eq_ok.1 (mapError_eq_ok.1 hanswer.symm)
      cases found with
      | none =>
        cases htail
        exact .missing hread
      | some job =>
        simp only at htail
        split at htail
        · rename_i hstate
          cases htail
          exact .complete hread hstate.symm
        · rename_i hstate
          have hunfinished : job.state ≠ .complete := Ne.symm hstate
          cases hid : Identity.ofJob job with
          | error e =>
            rw [ofJob, hid] at htail
            cases htail
            exact .unidentified hread hunfinished hid
          | ok identity =>
            cases hchildren : hasPath identity.namespace identity.name with
            | false =>
              obtain ⟨rfl, rfl⟩ := of_ofJob_of_no_path hid hchildren htail
              exact .unaddressedChildren hread hunfinished hid hchildren
            | true =>
              obtain ⟨findings, hcarries⟩ := carriesOut_ofJob hid hchildren htail
              exact .conducted hread hunfinished hid hchildren hcarries.conducts

/-! ### The status is written last -/

theorem of_mem_lookRequests {absent : Kind → Bool} {entry : ObjectKey × Json} {request : Request}
    (h : request ∈ lookRequests absent entry) :
    (request.verb = .get ∨ request.verb = .post) ∧ request.kind = entry.1.kind := by
  rcases List.mem_cons.1 h with rfl | hcreate
  · exact ⟨.inl rfl, rfl⟩
  · split at hcreate
    · rw [List.mem_singleton.1 hcreate]
      exact ⟨.inr rfl, rfl⟩
    · cases hcreate

/-- Up to where it writes the status, a pass patches nothing, and asks nothing about jobs. -/
theorem of_mem_preparation {absent : Kind → Bool} {pods : List Pod} {request : Request}
    (h : request ∈ preparation settings job identity absent pods) :
    request.verb ≠ .patch ∧ request.kind ≠ .job := by
  rcases List.mem_append.1 h with hlook | hpods
  · obtain ⟨entry, hentry, hlook⟩ := List.mem_flatMap.1 hlook
    obtain ⟨hverb, hkind⟩ := of_mem_lookRequests hlook
    refine ⟨?_, hkind ▸ (childKinds_ne (kind_of_mem_children hentry)).1⟩
    rcases hverb with hverb | hverb <;> rw [hverb] <;> decide
  · rcases List.mem_cons.1 hpods with rfl | hpods
    · exact ⟨nofun, nofun⟩
    · split at hpods
      · obtain ⟨pod, -, rfl⟩ := List.mem_map.1 hpods
        exact ⟨nofun, nofun⟩
      · obtain ⟨r, -, rfl⟩ := List.mem_map.1 hpods
        exact ⟨nofun, nofun⟩

/-- A pass that fails, and not at the status, has patched nothing. -/
theorem Course.verb_of_error {error : PassError}
    (h : Course settings ns name exchanges (.error error))
    (herror : ∀ cause, error ≠ .persistStatus cause) :
    ∀ e ∈ exchanges, e.request.verb ≠ .patch := by
  have honly {response : Response} (e : Exchange)
      (he : e ∈ [({ request := .get ⟨.job, ns, name⟩, response } : Exchange)]) :
      e.request.verb ≠ .patch := by
    rw [List.mem_singleton.1 he]
    nofun
  cases h with
  | unaddressed hpath => exact fun e he => absurd he List.not_mem_nil
  | unread hread => exact honly
  | unidentified hread hstate hid => exact honly
  | unaddressedChildren hread hstate hid hpath => exact honly
  | @conducted _ job identity findings exchanges _ hread hstate hid hpath hconducts =>
    obtain ⟨last, hlast, hfailure⟩ := hconducts.blames error rfl
    -- were the schedule finished, the pass would have failed at the status
    have hrest : exchanges.map (·.request) <+:
        preparation settings job identity findings.absent findings.pods := by
      rcases List.prefix_concat_iff.1 hconducts.order with hfinished | hprefix
      · have hstatus : last.request =
            .patchStatus identity.key (statusPatch (job.withStatus findings.status)) := by
          have hmap := congrArg List.getLast? hfinished
          rw [List.getLast?_map, hlast, List.getLast?_concat] at hmap
          exact Option.some.inj hmap
        obtain ⟨request, response⟩ := last
        obtain rfl : request = _ := hstatus
        rw [Exchange.failure?_patchStatus] at hfailure
        obtain ⟨cause, -, hcause⟩ := Option.map_eq_some_iff.1 hfailure
        exact absurd hcause.symm (herror cause)
      · exact hprefix
    intro e he
    rcases List.mem_cons.1 he with rfl | he
    · nofun
    · exact (of_mem_preparation (hrest.subset (List.mem_map_of_mem he))).1

/-- A pass that fails, and not at the status, leaves every job as it is. -/
theorem get?_of_error {server : Server} {error : PassError}
    (h : ((program settings now ns name).run serverStore server).1 = .error error)
    (herror : ∀ cause, error ≠ .persistStatus cause) {key : ObjectKey} (hkey : key.kind = .job) :
    ((program settings now ns name).run serverStore server).2.cluster.get? key =
      server.cluster.get? key := by
  have hstep (c : Call) (s : Server) (hc : c.SparesJobs)
      (hs : s.cluster.get? key = server.cluster.get? key) :
      (serverStore c s).2.cluster.get? key = server.cluster.get? key := by
    rcases cluster_serverStore c s with hsame | hserved
    · rw [hsame, hs]
    · rw [hserved, store_sparesJobs hc s.cluster hkey, hs]
  have hload : (Program.perform (.get .job ns name) PassError.loadJob).Within Call.SparesJobs
      fun _ => True := Program.within_perform trivial
  have hloaded := (hload.run hstep rfl).1
  rw [program, Program.run_bind] at h ⊢
  cases hlook : (Program.perform (.get .job ns name) PassError.loadJob).run serverStore server with
  | mk found loaded =>
    rw [hlook] at h hloaded
    cases found with
    | error e => exact hloaded
    | ok found =>
      cases found with
      | none => exact hloaded
      | some job =>
        simp only at h ⊢
        split
        · exact hloaded
        · rename_i hstate
          rw [if_neg hstate] at h
          have hprogram : (prepare settings now job).Within Call.SparesJobs (Updates now job) :=
            within_prepare
          have hprepared := (hprogram.run hstep hloaded).1
          rw [ofJob_eq, Program.run_bind] at h ⊢
          cases hprepare : (prepare settings now job).run serverStore loaded with
          | mk result prepared =>
            rw [hprepare] at h hprepared
            cases result with
            | error e => exact hprepared
            | ok result =>
              -- what fails after the preparation is the status
              simp only [run_persist] at h
              cases hwrite : (serverStore (.writeStatus (job.withStatus result.2)) prepared).1 with
              | ok u =>
                rw [hwrite] at h
                cases h
              | error cause =>
                rw [hwrite] at h
                exact absurd (Except.error.inj h).symm (herror cause)

/-! ### The order of replicas -/

/-- Replicas come by the names of their roles, and those of a role by index. -/
theorem replicas_increasing (job : Job) :
    (replicas job).Pairwise fun a b => a.1 < b.1 ∨ a.1 = b.1 ∧ a.2 < b.2 := by
  refine List.pairwise_flatMap.2 ⟨fun r _ => ?_, job.spec.roles.increasing.imp fun hlt a ha b hb => ?_⟩
  · exact List.pairwise_map.2 (List.pairwise_lt_range.imp fun hlt => .inr ⟨rfl, hlt⟩)
  · obtain ⟨i, -, rfl⟩ := List.mem_map.1 ha
    obtain ⟨j, -, rfl⟩ := List.mem_map.1 hb
    exact .inl hlt

/-- For every store, whatever the faults of the server: a pass takes its course, over replicas in
their order; and when it fails, and not at the status, it has patched nothing and every job is as it
was. -/
theorem pass_course (settings : PassSettings) (now : Instant) (ns name : String) (server : Server) :
    let run := (program settings now ns name).run serverStore server.forget
    Course settings ns name run.2.exchanges run.1 ∧
      (∀ error, run.1 = .error error → (∀ cause, error ≠ .persistStatus cause) →
        (∀ e ∈ run.2.exchanges, e.request.verb ≠ .patch) ∧
          ∀ key, key.kind = .job → run.2.cluster.get? key = server.cluster.get? key) ∧
      ∀ job, (replicas job).Pairwise fun a b => a.1 < b.1 ∨ a.1 = b.1 ∧ a.2 < b.2 := by
  intro run
  have hrecord (request : Request) (s : Server) : (s.exchange request).2.exchanges =
      s.exchanges ++ [{ request, response := (s.exchange request).1 }] := by
    rw [Server.exchanges, Server.log_exchange, List.reverse_cons, ← Server.exchanges]
  obtain ⟨exchanges, hexchanges, hconverses⟩ :=
    Converses.of_run hrecord (program settings now ns name) server.forget
  obtain rfl : run.2.exchanges = exchanges := hexchanges
  have hcourse := course_of_converses hconverses
  refine ⟨hcourse, fun error herror hcause => ?_, replicas_increasing⟩
  have hfailed : Course settings ns name run.2.exchanges (.error error) := by
    rw [← herror]
    exact hcourse
  exact ⟨hfailed.verb_of_error hcause, fun key hkey => get?_of_error herror hcause hkey⟩

/-- No answer to the look for the service: the pass goes no further. -/
example :
    let dropped : Fault := { verb := .get, kind := .service, response := .dropped }
    let run := (program {} Sample.now "default" "train").run serverStore
      { cluster := Sample.posted, faults := [dropped] }
    run.2.exchanges.map (fun e => (e.request.verb, e.request.kind)) =
        [(.get, .job), (.get, .configMap), (.post, .configMap), (.get, .service)] ∧
      run.1 = .error (.syncService (.client .service "train" .connection)) := by
  decide +kernel

end Pass

end JobOperator
