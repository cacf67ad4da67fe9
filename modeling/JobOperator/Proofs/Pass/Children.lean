import JobOperator.Pass.Children
import JobOperator.Proofs.Api.Client

/-!
Creating objects that a job controls. An object is wanted under a key and in a form that follow from
the job alone; a step that looks for it first ends well when what is there can be read, and leaves
the cluster with the object added where there was none.
-/

namespace JobOperator

open Client

namespace Kind

@[simp] theorem metadata_withMetadata (kind : Kind) (m : ObjectMeta) (object : kind.Object) :
    kind.metadata (kind.withMetadata m object) = m := by
  cases kind <;> rfl

end Kind

namespace Identity

/-- An object as the job of this identity controls it. -/
def owned (identity : Identity) (kind : Kind) (object : kind.Object) : kind.Object :=
  kind.withMetadata (identity.adopt (kind.metadata object)) object

/-- Where a cluster keeps an object that the job controls, and as what. -/
def entry (identity : Identity) (kind : Kind) (object : kind.Object) : ObjectKey × Json :=
  (⟨kind, identity.namespace, (kind.metadata object).nameAny⟩,
    kind.codec.encode (identity.owned kind object))

@[simp] theorem nameAny_owned (identity : Identity) (kind : Kind) (object : kind.Object) :
    (kind.metadata (identity.owned kind object)).nameAny = (kind.metadata object).nameAny := by
  rw [owned, Kind.metadata_withMetadata]
  rfl

end Identity

namespace Pass

variable {identity : Identity} {cluster cluster' : Cluster}

/-! ### Creating an object -/

theorem run_createOwned {kind : Kind} (hkind : kind ≠ .job)
    (hns : identity.namespace.toList.all mayStandInPath = true) (object : kind.Object)
    (onError : StoreError → PassError) (cluster : Cluster) :
    (createOwned identity kind object onError).run store cluster =
      (.ok (!cluster.contains (identity.entry kind object).1),
        cluster.addMissing (identity.entry kind object).1 (identity.entry kind object).2) := by
  have hcreate : store (.create kind identity.namespace
      (kind.withMetadata (identity.adopt (kind.metadata object)) object)) cluster = _ :=
    store_create hkind hns (identity.nameAny_owned kind object) cluster
  rw [createOwned, Program.run_call, hcreate]
  change Program.run store _ (cluster.addMissing _ _) = _
  cases hkey : SortedMap.contains cluster (identity.entry kind object).1 with
  | true =>
    simp only [Identity.entry] at hkey
    rw [hkey]
    rfl
  | false =>
    simp only [Identity.entry] at hkey
    rw [hkey]
    rfl

/-- Whether an object of this name can be read, if there is one. -/
def Readable (cluster : Cluster) (kind : Kind) (ns name : String) : Prop :=
  ∀ doc, cluster.get? ⟨kind, ns, name⟩ = some doc → ∃ object, kind.codec.decode doc = .ok object

theorem hasPath_ns {ns name : String} (h : hasPath ns name = true) :
    ns.toList.all mayStandInPath = true := by
  simp only [hasPath, Bool.and_eq_true] at h
  exact h.2

theorem run_ensure {kind : Kind} (hkind : kind ≠ .job)
    (hpath : hasPath identity.namespace identity.name = true) {object : kind.Object}
    (hname : (kind.metadata object).nameAny = identity.name)
    (hread : Readable cluster kind identity.namespace identity.name)
    (onError : StoreError → PassError) :
    (ensure identity kind object onError).run store cluster =
      (.ok (!cluster.contains (identity.entry kind object).1),
        cluster.addMissing (identity.entry kind object).1 (identity.entry kind object).2) := by
  rw [ensure]
  cases hget : cluster.get? ⟨kind, identity.namespace, identity.name⟩ with
  | none =>
    have hcall : store (.get kind identity.namespace identity.name) cluster =
        (.ok none, cluster) := store_get.2 ⟨hpath, rfl, .inl ⟨rfl, hget⟩⟩
    rw [Program.run_bind_of_ok (Program.run_perform_eq_ok.2 hcall)]
    exact run_createOwned hkind (hasPath_ns hpath) object onError cluster
  | some doc =>
    obtain ⟨o, ho⟩ := hread doc hget
    have hcall : store (.get kind identity.namespace identity.name) cluster =
        (.ok (some o), cluster) := store_get.2 ⟨hpath, rfl, .inr ⟨doc, o, hget, ho, rfl⟩⟩
    have hcontains : cluster.contains (identity.entry kind object).1 = true := by
      rw [SortedMap.contains_iff]
      exact ⟨doc, by rw [Identity.entry, hname]; exact hget⟩
    rw [Program.run_bind_of_ok (Program.run_perform_eq_ok.2 hcall), Cluster.addMissing,
      if_pos hcontains, hcontains]
    rfl

/-- A look that ends well has read the object that is there. -/
theorem readable_of_run_ensure {kind : Kind} {object : kind.Object}
    {onError : StoreError → PassError} {isNew : Bool}
    (h : (ensure identity kind object onError).run store cluster = (.ok isNew, cluster')) :
    Readable cluster kind identity.namespace identity.name := by
  obtain ⟨found, _, hget, -⟩ := Program.run_bind_eq_ok.1 h
  obtain ⟨-, -, ⟨-, hnone⟩ | ⟨doc, o, hdoc, ho, -⟩⟩ :=
    store_get.1 (Program.run_perform_eq_ok.1 hget)
  · intro doc hdoc
    rw [hnone] at hdoc
    cases hdoc
  · intro doc' hdoc'
    rw [hdoc] at hdoc'
    cases hdoc'
    exact ⟨o, ho⟩

/-! ### The objects that a job has one of -/

/-- The objects that a job has one of. -/
def children (job : Job) (identity : Identity) (port : Int32) : List (ObjectKey × Json) :=
  [identity.entry .configMap (job.configMap identity),
    identity.entry .service (Job.service identity port)] ++
    if job.spec.enableGangScheduling then [identity.entry .podGroup (job.podGroup identity)] else []

/-- The kinds of the objects that a job has one of. -/
def childKinds (job : Job) : List Kind :=
  [.configMap, .service] ++ if job.spec.enableGangScheduling then [.podGroup] else []

/-- An object of another kind does not get in the way. -/
theorem readable_addMissing_iff {kind : Kind} {ns name : String} {key : ObjectKey}
    (hkey : key.kind ≠ kind) (body : Json) :
    Readable (cluster.addMissing key body) kind ns name ↔ Readable cluster kind ns name := by
  have hne : (⟨kind, ns, name⟩ : ObjectKey) ≠ key := by
    rintro rfl
    exact hkey rfl
  simp only [Readable, Cluster.get?_addMissing, if_neg hne, Option.or_none]

theorem run_syncChildren {job : Job} {port : Int32}
    (hpath : hasPath identity.namespace identity.name = true)
    (hread : ∀ kind ∈ childKinds job, Readable cluster kind identity.namespace identity.name) :
    (syncChildren job identity port).run store cluster =
      (.ok (), cluster.addAll (children job identity port)) := by
  let configMap := identity.entry .configMap (job.configMap identity)
  let service := identity.entry .service (Job.service identity port)
  have hcs : configMap.1.kind ≠ .service := show Kind.configMap ≠ .service by decide
  have hcg : configMap.1.kind ≠ .podGroup := show Kind.configMap ≠ .podGroup by decide
  have hsg : service.1.kind ≠ .podGroup := show Kind.service ≠ .podGroup by decide
  have hconfigMap := hread .configMap (by simp [childKinds])
  have hservice : Readable (cluster.addMissing configMap.1 configMap.2) .service
      identity.namespace identity.name :=
    (readable_addMissing_iff hcs _).2 (hread .service (by simp [childKinds]))
  rw [syncChildren,
    Program.run_bind_of_ok (run_ensure (by decide) hpath rfl hconfigMap .syncConfigMap),
    Program.run_bind_of_ok (run_ensure (by decide) hpath rfl hservice .syncService)]
  cases hgang : job.spec.enableGangScheduling with
  | false =>
    simp only [children, hgang]
    rfl
  | true =>
    have hgroup : Readable ((cluster.addMissing configMap.1 configMap.2).addMissing service.1
        service.2) .podGroup identity.namespace identity.name :=
      (readable_addMissing_iff hsg _).2
        ((readable_addMissing_iff hcg _).2
          (hread .podGroup (by simp [childKinds, hgang])))
    rw [if_pos rfl, Program.run_bind_of_ok (run_ensure (by decide) hpath rfl hgroup .syncPodGroup)]
    simp only [children, hgang]
    rfl

theorem readable_of_run_syncChildren {job : Job} {port : Int32}
    (hpath : hasPath identity.namespace identity.name = true)
    (h : (syncChildren job identity port).run store cluster = (.ok (), cluster')) :
    ∀ kind ∈ childKinds job, Readable cluster kind identity.namespace identity.name := by
  let configMap := identity.entry .configMap (job.configMap identity)
  let service := identity.entry .service (Job.service identity port)
  have hcs : configMap.1.kind ≠ .service := show Kind.configMap ≠ .service by decide
  have hcg : configMap.1.kind ≠ .podGroup := show Kind.configMap ≠ .podGroup by decide
  have hsg : service.1.kind ≠ .podGroup := show Kind.service ≠ .podGroup by decide
  rw [syncChildren] at h
  obtain ⟨_, _, hfirst, h⟩ := Program.run_bind_eq_ok.1 h
  have hconfigMap := readable_of_run_ensure hfirst
  rw [run_ensure (by decide) hpath rfl hconfigMap] at hfirst
  cases hfirst
  obtain ⟨_, _, hsecond, h⟩ := Program.run_bind_eq_ok.1 h
  have hservice := readable_of_run_ensure hsecond
  rw [run_ensure (by decide) hpath rfl hservice] at hsecond
  cases hsecond
  have hservice : Readable cluster .service identity.namespace identity.name :=
    (readable_addMissing_iff hcs configMap.2).1 hservice
  cases hgang : job.spec.enableGangScheduling with
  | false =>
    intro kind hkind
    simp only [childKinds, hgang, Bool.false_eq_true, if_false, List.append_nil, List.mem_cons,
      List.not_mem_nil, or_false] at hkind
    rcases hkind with rfl | rfl
    · exact hconfigMap
    · exact hservice
  | true =>
    rw [if_pos hgang] at h
    obtain ⟨_, _, hthird, -⟩ := Program.run_bind_eq_ok.1 h
    have hgroup : Readable cluster .podGroup identity.namespace identity.name :=
      (readable_addMissing_iff hcg configMap.2).1
        ((readable_addMissing_iff hsg service.2).1
          (readable_of_run_ensure hthird))
    intro kind hkind
    simp only [childKinds, hgang, if_true, List.mem_append, List.mem_cons, List.not_mem_nil,
      or_false] at hkind
    rcases hkind with (rfl | rfl) | rfl
    · exact hconfigMap
    · exact hservice
    · exact hgroup

end Pass

end JobOperator
