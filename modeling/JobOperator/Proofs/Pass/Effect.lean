import JobOperator.Proofs.Pass.Progress

/-!
What a pass after which the job goes on has done: the objects that the job should have and that were
not there are added, the job has a new status, and nothing else has changed.
-/

namespace JobOperator

open Client

/-- Whether a job should have an object under this key. -/
def Job.Wants (job : Job) (ns name : String) (key : ObjectKey) : Prop :=
  key.namespace = ns ∧
    match key.kind with
    | .job => False
    | .pod => ∃ role definition index, job.spec.roles.get? role = some definition ∧
        0 ≤ index ∧ index < definition.replicas ∧ key.name = Names.pod name role index
    | .configMap => key.name = name
    | .service => key.name = name
    | .podGroup => job.spec.enableGangScheduling = true ∧ key.name = name

namespace Pass

variable {settings : PassSettings} {now : Instant} {job : Job} {identity : Identity}
  {cluster : Cluster} {doc : Json}

/-! ### What is wanted -/

/-- The indices of a role's replicas, as they are counted and as they are written. -/
theorem exists_index_iff {p : Int32 → Prop} (definition : Role) :
    (∃ index : Int32, 0 ≤ index ∧ index < definition.replicas ∧ p index) ↔
      ∃ index : Nat, index < definition.desiredReplicas ∧ p (Int32.ofNat index) := by
  have hlt := definition.desiredReplicas_lt
  constructor
  · rintro ⟨index, hzero, hindex, hp⟩
    rw [Int32.le_iff_toInt_le] at hzero
    rw [Int32.lt_iff_toInt_lt] at hindex
    have hzero : 0 ≤ index.toInt := hzero
    have hnat : index.toInt.toNat < definition.desiredReplicas := by
      unfold Role.desiredReplicas
      omega
    have hsame : Int32.ofNat index.toInt.toNat = index := by
      apply Int32.toInt_inj.1
      rw [Int32.toInt_ofNat_of_lt (by omega)]
      omega
    exact ⟨index.toInt.toNat, hnat, by rw [hsame]; exact hp⟩
  · rintro ⟨index, hindex, hp⟩
    have htoInt : (Int32.ofNat index).toInt = index := Int32.toInt_ofNat_of_lt (by omega)
    refine ⟨Int32.ofNat index, ?_, ?_, hp⟩
    · rw [Int32.le_iff_toInt_le, htoInt]
      exact Int.natCast_nonneg index
    · unfold Role.desiredReplicas at hindex
      rw [Int32.lt_iff_toInt_lt, htoInt]
      omega

theorem mem_children_iff {port : Int32} {key : ObjectKey} :
    (∃ body, (key, body) ∈ children job identity port) ↔
      key.namespace = identity.namespace ∧ key.name = identity.name ∧
        key.kind ∈ childKinds job := by
  constructor
  · rintro ⟨body, h⟩
    have hkind := kind_of_mem_children h
    rcases mem_children.1 h with heq | heq | ⟨-, heq⟩ <;>
      obtain ⟨rfl, -⟩ := Prod.mk.inj heq <;>
      exact ⟨rfl, rfl, hkind⟩
  · obtain ⟨kind, ns, name⟩ := key
    rintro ⟨rfl, rfl, hkind⟩
    simp only [childKinds, List.mem_append, List.mem_cons, List.not_mem_nil, or_false] at hkind
    rcases hkind with (rfl | rfl) | hgang
    · exact ⟨_, mem_children.2 (.inl rfl)⟩
    · exact ⟨_, mem_children.2 (.inr (.inl rfl))⟩
    · split at hgang
      · rename_i henabled
        rw [List.mem_singleton] at hgang
        subst hgang
        exact ⟨_, mem_children.2 (.inr (.inr ⟨henabled, rfl⟩))⟩
      · exact absurd hgang List.not_mem_nil

theorem mem_missingPods_iff (hid : Identity.ofJob job = .ok identity) {images : Images}
    {key : ObjectKey} :
    (∃ body, (key, body) ∈ missingPods job identity images [] job.spec.roles.toList) ↔
      key.kind = .pod ∧ key.namespace = identity.namespace ∧
        ∃ role definition index, job.spec.roles.get? role = some definition ∧
          0 ≤ index ∧ index < definition.replicas ∧
          key.name = Names.pod identity.name role index := by
  simp only [mem_missingPods]
  constructor
  · rintro ⟨body, role, definition, index, pod, hrole, hindex, -, hpod, heq⟩
    have hkey : key = _ := (congrArg Prod.fst heq).trans (key_of_replica hid hpod)
    rw [hkey]
    refine ⟨rfl, rfl, role, definition, ?_⟩
    obtain ⟨index', hzero, hlt, hname⟩ := (exists_index_iff (p := fun index' =>
      replicaName identity.name role index = Names.pod identity.name role index')
        definition).2 ⟨index, hindex, rfl⟩
    exact ⟨index', hrole, hzero, hlt, hname⟩
  · rintro ⟨hkind, hns, role, definition, index, hrole, hzero, hlt, hname⟩
    obtain ⟨index', hindex', hname'⟩ := (exists_index_iff (p := fun index =>
      key.name = Names.pod identity.name role index) definition).1 ⟨index, hzero, hlt, hname⟩
    obtain ⟨pod, hpod⟩ := replica_eq_ok hrole (Int32.ofNat index') images
    have hkey : key = (identity.entry .pod pod).1 := by
      rw [key_of_replica hid hpod]
      obtain ⟨kind, ns, name⟩ := key
      subst hkind hns hname'
      rfl
    exact ⟨(identity.entry .pod pod).2, role, definition, index', pod, hrole, hindex', rfl, hpod,
      by rw [hkey]⟩

/-- The objects that a job should have are those that are created when no pod is seen. -/
theorem mem_desired_iff (settings : PassSettings) (hid : Identity.ofJob job = .ok identity)
    {key : ObjectKey} : (∃ body, (key, body) ∈ desired settings job identity) ↔
      job.Wants identity.namespace identity.name key := by
  simp only [desired, creations, List.mem_append, exists_or, mem_children_iff,
    mem_missingPods_iff hid, Job.Wants]
  obtain ⟨kind, ns, name⟩ := key
  cases kind <;> simp [childKinds, and_comm]

/-- Where pods are kept under their own names, what a job should have and has not is created. -/
theorem mem_creationsIn_of_desired (hid : Identity.ofJob job = .ok identity)
    (hpods : ∀ key : ObjectKey, key.kind = .pod → cluster.Homed key) {key : ObjectKey} {body : Json}
    (hwanted : (key, body) ∈ desired settings job identity) (hnone : cluster.get? key = none) :
    (key, body) ∈ creationsIn settings job identity cluster := by
  rcases List.mem_append.1 hwanted with hchild | hpod
  · exact List.mem_append_left _ hchild
  · obtain ⟨role, definition, index, pod, hrole, hindex, -, hpod, heq⟩ := mem_missingPods.1 hpod
    refine List.mem_append_right _
      (mem_missingPods.2 ⟨role, definition, index, pod, hrole, hindex, ?_, hpod, heq⟩)
    cases hseen : podNamed? (ownedPods cluster identity.namespace job)
        (replicaName identity.name role index) with
    | none => rfl
    | some seen =>
      -- a pod that is seen is kept under the name by which it is looked for
      obtain ⟨hmem, hname⟩ := name_of_podNamed? hseen
      obtain ⟨key', doc', hdoc', howned⟩ := mem_ownedPods.1 hmem
      obtain ⟨hlisted, hreads, -⟩ := ownedPod?_eq_some.1 howned
      have hkind := kind_of_isListed hlisted
      obtain ⟨kind, ns, name⟩ := key'
      obtain rfl : kind = .pod := hkind
      have hhomed : ∀ doc (object : Pod), cluster.get? ⟨.pod, ns, name⟩ = some doc →
          Pod.codec.decode doc = .ok object →
            object.metadata.namespace = some ns ∧ object.metadata.nameAny = name :=
        hpods ⟨.pod, ns, name⟩ rfl
      obtain ⟨-, hown⟩ := hhomed doc' seen hdoc' hreads
      have hns : identity.namespace = ns := by
        simp only [isListed, Bool.and_eq_true, beq_iff_eq] at hlisted
        exact hlisted.1.2
      have hkey : key = ⟨.pod, ns, name⟩ := by
        have hentry : key = _ := (congrArg Prod.fst heq).trans (key_of_replica hid hpod)
        rw [hentry, hns, ← hname]
        exact congrArg (ObjectKey.mk .pod ns) hown
      rw [hkey, hdoc'] at hnone
      cases hnone

/-! ### Counting -/

theorem count_insert_of_contains {p : ObjectKey → Bool} {key : ObjectKey} {old : Json}
    (hold : cluster.get? key = some old) (body : Json) :
    Cluster.count p (cluster.insert key body) = cluster.count p := by
  have hkeys : (cluster.insert key body).keys = cluster.keys := by
    refine SortedMap.keys_eq_of_isSome fun k => ?_
    rw [SortedMap.get?_insert]
    by_cases hk : k = key
    · rw [if_pos hk, hk, hold]
      rfl
    · rw [if_neg hk]
  rw [Cluster.count, Cluster.count, hkeys]

/-- A pass counts the pods that it creates. -/
theorem count_progressed (h : Ready job identity doc cluster) :
    (progressed settings now job identity doc cluster).count (·.kind == .pod) =
      cluster.count (·.kind == .pod) + createdIn settings job identity cluster := by
  rw [progressed, count_insert_of_contains (get?_key_addAll_creations.trans h.stored), creations,
    Cluster.addAll_append, Cluster.count_addAll, Cluster.count_addAll_of_not]
  · rfl
  · intro e he
    rw [beq_eq_false_iff_ne]
    exact (childKinds_ne (kind_of_mem_children he)).2
  · intro e he
    refine .inr ?_
    rw [beq_iff_eq]
    exact kind_of_mem_missingPods he

/-! ### The pass -/

/-- What a pass over the job does to a cluster when the job goes on and this many pods are created:
the job has a new status, all else that was there is as it was, and what is there besides is what
the job should have, controlled by the job alone. -/
structure Effect (now : Instant) (job : Job) (ns name : String) (created : Nat)
    (before after : Cluster) : Prop where
  patched : ∃ doc status, before.get? ⟨.job, ns, name⟩ = some doc ∧
    Job.codec.decode doc = .ok job ∧
    after.get? ⟨.job, ns, name⟩ =
      some (doc.mergePatch (statusPatch { job with status := some status })) ∧
    status.startTime = job.statusOrEmpty.startTime.or (some now) ∧
    status.completionTime = job.statusOrEmpty.completionTime ∧
    status.lastReconcileTime = some now
  unpatched : ∀ doc doc', before.get? ⟨.job, ns, name⟩ = some doc →
    after.get? ⟨.job, ns, name⟩ = some doc' →
    ∀ member, member ∉ ["apiVersion", "kind", "status"] → doc'.get? member = doc.get? member
  kept : ∀ key, key ≠ ⟨.job, ns, name⟩ → ∀ body, before.get? key = some body →
    after.get? key = some body
  added : ∀ key, before.get? key = none → ((after.get? key).isSome = true ↔ job.Wants ns name key)
  owned : ∀ key body, before.get? key = none → after.get? key = some body →
    ∃ object owner, key.kind.codec.decode body = .ok object ∧
      (key.kind.metadata object).ownerReferences = some [owner] ∧ job.isControllerIn owner = true
  counted : after.count (·.kind == .pod) = before.count (·.kind == .pod) + created

theorem effect_of_proceeds (settings : PassSettings)
    (hpods : ∀ key : ObjectKey, key.kind = .pod → cluster.Homed key)
    (h : Proceeds now job identity doc cluster) :
    Effect now job identity.namespace identity.name (createdIn settings job identity cluster)
      cluster (progressed settings now job identity doc cluster) := by
  have hother {key : ObjectKey} (hnone : cluster.get? key = none) : key ≠ identity.key := by
    rintro rfl
    rw [h.stored] at hnone
    cases hnone
  -- an object that is new is one of those that the pass creates
  have hnew {key : ObjectKey} (hnone : cluster.get? key = none) :
      (progressed settings now job identity doc cluster).get? key =
        Cluster.firstOf key (creationsIn settings job identity cluster) := by
    rw [get?_progressed_ne (hother hnone), Cluster.get?_addAll, hnone, Option.none_or]
  constructor
  · exact ⟨doc, nextStatus now job identity cluster, h.stored, h.reads, get?_progressed_key, rfl,
      rfl, rfl⟩
  · intro doc' patched hdoc' hpatched member hmember
    obtain rfl : doc = doc' := Option.some.inj (h.stored.symm.trans hdoc')
    obtain rfl : _ = patched := Option.some.inj (get?_progressed_key.symm.trans hpatched)
    rw [Job.statusPatch_withStatus]
    refine Json.get?_mergePatch_of_ne (Job.sets_statusMembers _) ?_ doc
    rintro p hp rfl
    simp only [Job.statusMembers, List.mem_cons, List.not_mem_nil, or_false] at hp
    rcases hp with rfl | rfl | rfl <;> exact hmember (by simp)
  · intro key hne body hbody
    rw [get?_progressed_ne hne, Cluster.get?_addAll, hbody]
    rfl
  · intro key hnone
    rw [hnew hnone, ← mem_desired_iff settings h.identified]
    constructor
    · intro hsome
      obtain ⟨body, hbody⟩ := Option.isSome_iff_exists.1 hsome
      exact ⟨body, creations_subset_desired (Cluster.mem_of_firstOf hbody)⟩
    · rintro ⟨body, hbody⟩
      have hmem := mem_creationsIn_of_desired h.identified hpods hbody hnone
      rw [Option.isSome_iff_ne_none, Ne, Cluster.firstOf_eq_none_iff]
      exact fun hall => hall _ hmem rfl
  · intro key body hnone hbody
    rw [hnew hnone] at hbody
    obtain ⟨kind, object, hkind, heq⟩ := entry_of_mem_creations (Cluster.mem_of_firstOf hbody)
    obtain ⟨rfl, rfl⟩ := Prod.mk.inj heq
    refine ⟨identity.owned kind object, Job.controllerReference identity.name identity.uid,
      (Kind.codec_lawful hkind _).roundTrips, ?_,
      Identity.isControllerIn_controllerReference h.identified⟩
    rw [Identity.owned, Kind.metadata_withMetadata]
    rfl
  · exact count_progressed h.toReady

/-- Where the job and all pods are kept under their own names, a pass after which the job goes on,
in a server without faults, has this effect. -/
theorem progressing_effect {settings : PassSettings} {now : Instant} {ns name : String}
    {server : Server} {created : Nat} (hfaults : server.faults = [])
    (hjob : server.cluster.Homed ⟨.job, ns, name⟩)
    (hpods : ∀ key : ObjectKey, key.kind = .pod → server.cluster.Homed key)
    (h : ((program settings now ns name).run (handler Server.exchange) server).1 =
      .ok (.progressing created)) :
    ∃ job, Effect now job ns name created server.cluster
      ((program settings now ns name).run (handler Server.exchange) server).2.cluster := by
  obtain ⟨-, hresult, hcluster, -⟩ := run_of_faultless (program settings now ns name) hfaults
  rw [hresult] at h
  rw [hcluster]
  obtain ⟨job, identity, doc, rfl, rfl, hproceeds⟩ := proceeds_of_run_program hjob
    (Prod.ext h rfl : _ = (_, ((program settings now ns name).run store server.cluster).2))
  rw [run_program_of_proceeds settings hproceeds] at h ⊢
  cases h
  exact ⟨job, effect_of_proceeds settings hpods hproceeds⟩

/-- A job with two replicas that has just been posted gets both. -/
theorem progressing_effect_posted : ∃ job, Effect Sample.now job "default" "train" 2 Sample.posted
    ((program {} Sample.now "default" "train").run (handler Server.exchange)
      { cluster := Sample.posted }).2.cluster := by
  have hpods : ∀ key : ObjectKey, key.kind = .pod → Sample.posted.Homed key := by
    intro key hkey
    refine Sample.homed_posted_of_ne ?_
    rintro rfl
    cases hkey
  let server : Server := { cluster := Sample.posted }
  have hfaults : server.faults = [] := rfl
  exact progressing_effect hfaults Sample.homed_posted hpods rfl

end Pass

end JobOperator
