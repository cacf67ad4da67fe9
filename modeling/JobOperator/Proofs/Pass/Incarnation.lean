import JobOperator.Proofs.Api.Shared
import JobOperator.Proofs.Pass.Course
import JobOperator.Proofs.Pass.Homed

/-!
A pass in a cluster that other clients use. It writes to the job and deletes pods by their names, so
what it reaches is what it had loaded and listed only as long as nobody replaces that in the meantime.
-/

namespace JobOperator

open Client

/-- What comes after the first part of a sequence stands in the rest of it. -/
theorem split_of_prefix {α : Type} {x : α} {before after first rest : List α}
    (h : before ++ x :: after <+: first ++ rest) (hx : x ∉ first) :
    ∃ between, before = first ++ between ∧ between ++ x :: after <+: rest := by
  obtain ⟨tail, htail⟩ := h
  rw [List.append_assoc, List.cons_append] at htail
  rcases List.append_eq_append_iff.1 htail with ⟨between, hfirst, hrest⟩ | ⟨between, hbefore, hrest⟩
  · cases between with
    | nil =>
      refine ⟨[], ?_, tail, ?_⟩
      · rw [List.append_nil] at hfirst ⊢
        exact hfirst.symm
      · rw [List.nil_append, List.cons_append]
        exact hrest
    | cons y between =>
      obtain ⟨rfl, -⟩ := List.cons.inj hrest
      exact absurd (hfirst ▸ List.mem_append_right before List.mem_cons_self) hx
  · exact ⟨between, hbefore, tail, by rw [List.append_assoc, List.cons_append]; exact hrest.symm⟩

/-- Whether what is under a key has this metadata, if it is there and can be read. -/
def Cluster.ShowsOnly (cluster : Cluster) (key : ObjectKey) (metadata : ObjectMeta) : Prop :=
  ∀ doc object, cluster.get? key = some doc → key.kind.codec.decode doc = .ok object →
    key.kind.metadata object = metadata

namespace Moment

/-- Whether a job is loaded at a moment. -/
structure Loads (moment : Moment) (ns name : String) (job : Job) : Prop where
  request : moment.request = .get ⟨.job, ns, name⟩
  response : objectOf? .job moment.response = .ok (some job)

/-- Whether the pods that a job controls are listed at a moment. -/
structure Lists (moment : Moment) (job : Job) (ns : String) (pods : List Pod) : Prop where
  request : moment.request = podsRequest job ns
  response : ∃ all, listOf .pod moment.response = .ok all ∧
    pods = all.filter fun pod => job.controls pod.metadata

variable {moment : Moment} {ns name : String} {job : Job} {pods : List Pod}

/-- A job that is loaded is there. -/
theorem Loads.stored (h : moment.Loads ns name job) :
    ∃ doc, moment.after.get? ⟨.job, ns, name⟩ = some doc ∧ Job.codec.decode doc = .ok job := by
  obtain ⟨hrequest, hresponse⟩ := h
  rw [Moment.response, hrequest] at hresponse
  rw [Moment.after, hrequest]
  simp only [Cluster.exchange] at hresponse ⊢
  cases hdoc : moment.cluster.get? ⟨.job, ns, name⟩ with
  | none =>
    rw [hdoc] at hresponse
    cases hresponse
  | some doc =>
    rw [hdoc] at hresponse
    obtain ⟨found, hreads, hsome⟩ := objectOf?_reply_eq_ok.1 hresponse
    cases hsome
    exact ⟨doc, hdoc, hreads⟩

/-- The pods that are listed are those that the cluster has for the job. -/
theorem Lists.owned (h : moment.Lists job ns pods) (hns : job.metadata.namespace = some ns)
    (hpath : ns.toList.all mayStandInPath = true) :
    moment.after = moment.cluster ∧ pods = Pass.ownedPods moment.cluster ns job := by
  obtain ⟨hrequest, all, hall, hpods⟩ := h
  have hserved : store (.listPods job) moment.cluster = (.ok pods, moment.cluster) := by
    rw [Moment.response, hrequest] at hall
    rw [store, handler_of_request (request?_listPods hns hpath), answerTo, hall, hpods]
    rfl
  obtain ⟨-, -, -, howned⟩ := (Pass.store_listPods_iff hns).1 hserved
  refine ⟨?_, howned⟩
  rw [Moment.after, hrequest]
  rfl

theorem Lists.controlled (h : moment.Lists job ns pods) {pod : Pod} (hpod : pod ∈ pods) :
    job.controls pod.metadata = true := by
  obtain ⟨-, all, -, rfl⟩ := h
  exact (List.mem_filter.1 hpod).2

variable {cluster : Cluster} {between after : List Moment} {load list : Moment}

/-- What is under the name of a job that was loaded has its metadata, as long as it is spared. -/
theorem Loads.showsOnly (h : load.Loads ns name job)
    (hafter : Interleaved load.after (between ++ moment :: after))
    (hothers : undisturbed ⟨.job, ns, name⟩ load.after (between ++ [moment]) = true)
    (hown : ∀ m ∈ between, m.request.spares ⟨.job, ns, name⟩ m.cluster = true) :
    moment.cluster.ShowsOnly ⟨.job, ns, name⟩ job.metadata := by
  obtain ⟨doc, hdoc, hreads⟩ := h.stored
  have hkeeps := hafter.keeps (.of_get? hdoc) hothers hown
  exact fun later _ hlater hobject => Job.metadata_of_retains (hkeeps later hlater) hreads hobject

/-- What is under the name of a pod that was listed has its metadata, as long as it is spared. -/
theorem Lists.showsOnly (h : list.Lists job ns pods) (hns : job.metadata.namespace = some ns)
    (hpath : ns.toList.all mayStandInPath = true)
    (hhomed : ∀ key : ObjectKey, key.kind = .pod → list.cluster.Homed key) {pod : Pod}
    (hpod : pod ∈ pods) (hafter : Interleaved list.after (between ++ moment :: after))
    (hothers : undisturbed ⟨.pod, ns, pod.name⟩ list.after (between ++ [moment]) = true)
    (hown : ∀ m ∈ between, m.request.spares ⟨.pod, ns, pod.name⟩ m.cluster = true) :
    moment.cluster.ShowsOnly ⟨.pod, ns, pod.name⟩ pod.metadata := by
  obtain ⟨hsame, rfl⟩ := h.owned hns hpath
  obtain ⟨key, doc, hdoc, hfound⟩ := Pass.mem_ownedPods.1 hpod
  obtain rfl := Pass.key_of_ownedPod? (Cluster.namesPods_of_homed hhomed) hdoc hfound
  obtain ⟨-, hreads, -⟩ := Pass.ownedPod?_eq_some.1 hfound
  rw [← hsame] at hdoc
  have hkeeps := hafter.keeps (.of_get? hdoc) hothers hown
  exact fun later _ hlater hobject => Pod.metadata_of_retains (hkeeps later hlater) hreads hobject

end Moment

namespace Pass

variable {settings : PassSettings} {ns name : String} {job : Job} {identity : Identity}
  {result : Except PassError Outcome} {before after : List Moment} {moment : Moment}

/-- What a request of a pass reaches that changes an object or deletes it. -/
inductive Reaches (ns name : String) : List Moment → Moment → Prop
  /-- The status is written to the job that was loaded, unless others replaced it. -/
  | job {load moment : Moment} {between : List Moment} {job : Job} {identity : Identity}
      {patch : Json} (loads : load.Loads ns name job) (identified : Identity.ofJob job = .ok identity)
      (request : moment.request = .patchStatus identity.key patch)
      (shows : identity.key = ⟨.job, ns, name⟩ →
        undisturbed identity.key load.after (between ++ [moment]) = true →
        moment.cluster.ShowsOnly identity.key job.metadata) :
      Reaches ns name (load :: between) moment
  /-- A pod is deleted that was listed for the job that was loaded, unless others replaced it. -/
  | pod {load list moment : Moment} {early late : List Moment} {job : Job} {identity : Identity}
      {pods : List Pod} {pod : Pod} (loads : load.Loads ns name job)
      (identified : Identity.ofJob job = .ok identity)
      (lists : list.Lists job identity.namespace pods) (listed : pod ∈ pods)
      (controlled : job.controls pod.metadata = true)
      (request : moment.request = .delete ⟨.pod, identity.namespace, pod.name⟩)
      (shows : (∀ key : ObjectKey, key.kind = .pod → list.cluster.Homed key) →
        undisturbed ⟨.pod, identity.namespace, pod.name⟩ list.after (late ++ [moment]) = true →
        moment.cluster.ShowsOnly ⟨.pod, identity.namespace, pod.name⟩ pod.metadata) :
      Reaches ns name (load :: early ++ list :: late) moment

/-- A pass that does more than to look has loaded a job and conducts its schedule. -/
theorem Course.conducts_after
    (h : Course settings ns name ((before ++ moment :: after).map Moment.exchange) result)
    (hrequest : ∀ key, moment.request ≠ .get key) :
    ∃ load between job identity, ∃ findings : Findings, before = load :: between ∧
      load.Loads ns name job ∧ Identity.ofJob job = .ok identity ∧
      hasPath identity.namespace identity.name = true ∧
      Conducts (findings.Agrees job) (schedule settings job identity findings)
        ((between ++ moment :: after).map Moment.exchange) result := by
  have hget {exchanges : List Exchange} {response : Response}
      (heq : (before ++ moment :: after).map Moment.exchange =
        { request := .get ⟨.job, ns, name⟩, response } :: exchanges) :
      ∃ load between, before = load :: between ∧ load.request = .get ⟨.job, ns, name⟩ ∧
        load.response = response ∧ (between ++ moment :: after).map Moment.exchange = exchanges := by
    cases before with
    | nil =>
      obtain ⟨hfirst, -⟩ := List.cons.inj heq
      exact absurd (congrArg Exchange.request hfirst) (hrequest _)
    | cons load between =>
      obtain ⟨hfirst, hrest⟩ := List.cons.inj heq
      exact ⟨load, between, rfl, congrArg Exchange.request hfirst,
        congrArg Exchange.response hfirst, hrest⟩
  have honly {response : Response} (heq : (before ++ moment :: after).map Moment.exchange =
      [{ request := .get ⟨.job, ns, name⟩, response }]) : False := by
    obtain ⟨load, between, -, -, -, hrest⟩ := hget heq
    simp at hrest
  generalize hexchanges : (before ++ moment :: after).map Moment.exchange = exchanges at h
  cases h with
  | unaddressed hpath => simp at hexchanges
  | unread hread => exact (honly hexchanges).elim
  | missing hread => exact (honly hexchanges).elim
  | complete hread hstate => exact (honly hexchanges).elim
  | unidentified hread hstate hid => exact (honly hexchanges).elim
  | unaddressedChildren hread hstate hid hpath => exact (honly hexchanges).elim
  | @conducted _ job identity findings _ _ hread hstate hid hpath hconducts =>
    obtain ⟨load, between, hbefore, hasks, rfl, hrest⟩ := hget hexchanges
    refine ⟨load, between, job, identity, findings, hbefore, ⟨hasks, hread⟩, hid, hpath, ?_⟩
    rw [hrest]
    exact hconducts

theorem map_request_exchange (moments : List Moment) :
    (moments.map Moment.exchange).map (·.request) = moments.map (·.request) := by
  rw [List.map_map]
  rfl

/-- Before it writes the status, a pass leaves every job. -/
theorem spares_job_of_mem_preparation {absent : Kind → Bool} {pods : List Pod} {request : Request}
    (h : request ∈ preparation settings job identity absent pods) (ns name : String)
    (cluster : Cluster) : request.spares ⟨.job, ns, name⟩ cluster = true := by
  obtain ⟨hverb, hkind⟩ := of_mem_preparation h
  cases request with
  | post kind ns' body =>
    have hne : kind ≠ .job := hkind
    simp [Request.spares, hne]
  | patchStatus k patch => exact absurd rfl hverb
  | _ => rfl

/-- The status is written to the job that was loaded. -/
theorem reaches_job {cluster : Cluster}
    (hinterleaved : Interleaved cluster (before ++ moment :: after))
    (h : Course settings ns name ((before ++ moment :: after).map Moment.exchange) result)
    {key : ObjectKey} {patch : Json} (hrequest : moment.request = .patchStatus key patch) :
    Reaches ns name before moment := by
  obtain ⟨load, between, job, identity, findings, rfl, hloads, hid, -, hconducts⟩ :=
    h.conducts_after (fun k hget => by rw [hrequest] at hget; cases hget)
  have horder := hconducts.order
  rw [map_request_exchange, List.map_append, List.map_cons] at horder
  have hlate : moment.request ∉
      preparation settings job identity findings.absent findings.pods := by
    intro hmem
    exact (of_mem_preparation hmem).1 (by rw [hrequest]; rfl)
  obtain ⟨extra, hbetween, hlast⟩ := split_of_prefix horder hlate
  obtain ⟨rfl, hwrite⟩ : extra = [] ∧ moment.request =
      .patchStatus identity.key (statusPatch (job.withStatus findings.status)) := by
    cases extra with
    | nil => exact ⟨rfl, (List.cons_prefix_cons.1 hlast).1⟩
    | cons first extra => simpa using (List.cons_prefix_cons.1 hlast).2
  rw [List.append_nil] at hbetween
  refine .job hloads hid hwrite fun hkey hundisturbed => ?_
  rw [hkey] at hundisturbed ⊢
  cases hinterleaved with
  | cons hfinds hlater =>
    exact hloads.showsOnly hlater hundisturbed fun m hm =>
      spares_job_of_mem_preparation (hbetween ▸ List.mem_map_of_mem hm) ns name m.cluster

/-- A deletion comes after the pods have been listed, and follows those before it. -/
theorem of_schedule_delete {findings : Findings} {between after : List Request} {key : ObjectKey}
    (h : between ++ .delete key :: after <+: schedule settings job identity findings) :
    ∃ early late, between = early ++ podsRequest job identity.namespace :: late ∧
      late ++ [.delete key] <+: deletionRequests identity findings.pods := by
  let looks := (children job identity settings.servicePort).flatMap (lookRequests findings.absent)
  have hlate : (Request.delete key) ∉ looks ++ [podsRequest job identity.namespace] := by
    intro hmem
    rcases List.mem_append.1 hmem with hlook | hlist
    · obtain ⟨entry, -, hlook⟩ := List.mem_flatMap.1 hlook
      rcases (of_mem_lookRequests hlook).1 with hverb | hverb <;> cases hverb
    · cases List.mem_singleton.1 hlist
  have hschedule : schedule settings job identity findings =
      (looks ++ [podsRequest job identity.namespace]) ++
        ((if findings.pods.any Pod.requestsStop then deletionRequests identity findings.pods
          else creationRequests job identity settings.images findings.pods) ++
        [.patchStatus identity.key (statusPatch (job.withStatus findings.status))]) := by
    simp [schedule, preparation, looks]
  rw [hschedule] at h
  obtain ⟨late, rfl, hrest⟩ := split_of_prefix h hlate
  refine ⟨looks, late, by rw [List.append_assoc, List.singleton_append], ?_⟩
  split at hrest
  · have hstart : late ++ [.delete key] <+: late ++ .delete key :: after :=
      ⟨after, by rw [List.append_assoc, List.singleton_append]⟩
    rcases List.prefix_concat_iff.1 (hstart.trans hrest) with hall | hdeletions
    · cases List.append_inj_right' hall rfl
    · exact hdeletions
  · rcases List.mem_append.1 (hrest.subset (List.mem_append_right late List.mem_cons_self)) with
      hcreate | hwrite
    · obtain ⟨r, -, hpost⟩ := List.mem_map.1 hcreate
      cases hpost
    · cases List.mem_singleton.1 hwrite

/-- A pod that is deleted is one that was listed. -/
theorem reaches_pod {cluster : Cluster}
    (hinterleaved : Interleaved cluster (before ++ moment :: after))
    (h : Course settings ns name ((before ++ moment :: after).map Moment.exchange) result)
    {key : ObjectKey} (hrequest : moment.request = .delete key) :
    Reaches ns name before moment := by
  obtain ⟨load, between, job, identity, findings, rfl, hloads, hid, hpath, hconducts⟩ :=
    h.conducts_after (fun k hget => by rw [hrequest] at hget; cases hget)
  obtain ⟨hns, -, -⟩ := Identity.ofJob_eq_ok.1 hid
  have horder := hconducts.order
  rw [map_request_exchange, List.map_append, List.map_cons, hrequest] at horder
  obtain ⟨looks, deletions, hbetween, hdeletions⟩ := of_schedule_delete horder
  obtain ⟨early, rest, rfl, -, hrest⟩ := List.map_eq_append_iff.1 hbetween
  obtain ⟨list, late, rfl, hlist, rfl⟩ := List.map_eq_cons_iff.1 hrest
  have hlists : list.Lists job identity.namespace findings.pods := by
    have heq : ((early ++ list :: late) ++ moment :: after).map Moment.exchange =
        early.map Moment.exchange ++ list.exchange ::
          (late ++ moment :: after).map Moment.exchange := by
      simp
    have hagrees := hconducts.agreed list.exchange (List.mem_map_of_mem (by simp))
      (hconducts.failure?_eq_none heq (by simp))
    simp only [Findings.Agrees, Moment.exchange, hlist, podsRequest] at hagrees
    exact ⟨hlist, hagrees⟩
  obtain ⟨pod, hpod, hkey⟩ :=
    List.mem_map.1 (hdeletions.subset (List.mem_append_right _ List.mem_cons_self))
  cases hkey
  have hlisted : pod ∈ findings.pods := (List.mem_filter.1 (List.mem_filter.1 hpod).1).1
  have hsplit : Interleaved cluster ((load :: early) ++ list :: (late ++ moment :: after)) := by
    simpa using hinterleaved
  refine .pod hloads hid hlists hlisted (hlists.controlled hlisted) hrequest
    fun hhomed hundisturbed => ?_
  refine hlists.showsOnly hns (hasPath_ns hpath) hhomed hlisted hsplit.drop hundisturbed
    fun m hm => ?_
  -- between the list and the deletion, the pass only deletes
  obtain ⟨pod', -, hdelete⟩ :=
    List.mem_map.1 (hdeletions.subset (List.mem_append_left _ (List.mem_map_of_mem hm)))
  rw [← hdelete]
  rfl

end Pass

namespace Sample

/-- The first pod of the small job, controlled by a job of its name with this uid. -/
def firstPod (uid : String) : Json :=
  let owner : Json := .obj
    [("apiVersion", .str "realai.cn/v1alpha1"), ("kind", .str "LpJob"), ("name", .str "train"),
      ("uid", .str uid), ("controller", .bool true)]
  .obj [("metadata", .obj [("name", .str "train-worker-0"), ("namespace", .str "default"),
    ("labels", .obj [("app", .str "train")]), ("ownerReferences", .arr [owner])])]

/-- The small job with both its pods, of which the second one asks for it to stop. -/
def ending : Cluster :=
  (stopping.insert ⟨.pod, "default", "train-worker-0"⟩ (firstPod "u1")).insert key document

/-- A job of the name of the small job that takes its place. -/
def successor : Job := { job with metadata := { job.metadata with uid := some "u2" } }

end Sample

namespace Pass

/-- Whatever other clients ask in the meantime, what a pass writes to is the job that it loaded and
what it deletes are pods that it listed for that job, unless others replaced them. -/
theorem reaches_incarnation (settings : PassSettings) (now : Instant) (ns name : String)
    (cluster : Cluster) (others : List (List Request)) {before after : List Moment}
    {moment : Moment}
    (hmoments : ((program settings now ns name).run (handler Shared.exchange)
      { cluster, others }).2.moments = before ++ moment :: after)
    (hverb : moment.request.verb = .patch ∨ moment.request.verb = .delete) :
    Reaches ns name before moment := by
  obtain ⟨moments, hmet, hinterleaved, hconverses⟩ :=
    Converses.of_shared (program settings now ns name) { cluster, others }
  obtain rfl : before ++ moment :: after = moments := hmoments.symm.trans hmet
  have hcourse := course_of_converses hconverses
  cases hrequest : moment.request with
  | get key => simp [hrequest, Request.verb] at hverb
  | list kind ns selector limit => simp [hrequest, Request.verb] at hverb
  | post kind ns body => simp [hrequest, Request.verb] at hverb
  | delete key => exact reaches_pod hinterleaved hcourse hrequest
  | patchStatus key patch => exact reaches_job hinterleaved hcourse hrequest

/-- Another client notes something in the status before a pass completes the job. -/
theorem reaches_incarnation_ending :
    let notes : Request := .patchStatus Sample.key (.obj [("status", .obj [("note", .str "seen")])])
    let run := (program {} Sample.now "default" "train").run (handler Shared.exchange)
      { cluster := Sample.ending, others := List.replicate 7 [] ++ [[notes]] }
    ∃ before moment, run.2.moments = before ++ [moment] ∧ moment.others = [notes] ∧
      undisturbed Sample.key Sample.ending run.2.moments = true ∧
      Reaches "default" "train" before moment := by
  intro notes run
  have hlast : run.2.moments.getLast?.map (fun moment => (moment.request.verb, moment.others)) =
      some (.patch, [notes]) := by
    decide +kernel
  obtain ⟨moment, hmoment, hverb⟩ := Option.map_eq_some_iff.1 hlast
  obtain ⟨hverb, hothers⟩ := Prod.mk.inj hverb
  obtain ⟨before, hmoments⟩ := List.getLast?_eq_some_iff.1 hmoment
  exact ⟨before, moment, hmoments, hothers, by decide +kernel,
    reaches_incarnation {} Sample.now "default" "train" Sample.ending
      (List.replicate 7 [] ++ [[notes]]) hmoments (.inl hverb)⟩

/-- When other clients replace the first pod and then the job itself, a pass that had loaded the old
job deletes the pod of the new one and gives the new one its status. -/
theorem reaches_successor :
    let pod : ObjectKey := ⟨.pod, "default", "train-worker-0"⟩
    let replacesPod : List Request := [.delete pod, .post .pod "default" (Sample.firstPod "u2")]
    let replacesJob : List Request :=
      [.delete Sample.key, .post .job "default" (Job.codec.encode Sample.successor)]
    let run := (program {} Sample.now "default" "train").run (handler Shared.exchange)
      { cluster := Sample.ending, others := List.replicate 6 [] ++ [replacesPod, replacesJob] }
    let podThere (moment : Moment) : Option Pod :=
      (moment.cluster.get? pod).bind fun doc => (Pod.codec.decode doc).toOption
    let jobThere (moment : Moment) : Option Job :=
      (moment.cluster.get? Sample.key).bind fun doc => (Job.codec.decode doc).toOption
    run.1 = .ok (.completed "train-worker-1") ∧
      (∃ moment ∈ run.2.moments, objectOf? .job moment.response = .ok (some Sample.job)) ∧
      (∃ moment ∈ run.2.moments, moment.request = .delete pod ∧
        (podThere moment).map (fun pod => Sample.successor.controls pod.metadata) = some true) ∧
      ∃ moment ∈ run.2.moments, moment.request.verb = .patch ∧
        jobThere moment = some Sample.successor := by
  decide +kernel

end Pass

end JobOperator
