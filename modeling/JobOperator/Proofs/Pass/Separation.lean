import JobOperator.Proofs.Pass.Homed
import JobOperator.Proofs.Pass.Schedule
import JobOperator.Proofs.Pass.Stopping
import JobOperator.Proofs.Store.Interleaving

/-!
Passes over different jobs in one cluster. Each is about the objects of its own job's name and about
that job's pods, and does not see the pods of the other in its list; so when the jobs have no pod in
common, the calls of the passes commute, and each does the same in any order.
-/

namespace JobOperator

open Client

namespace Pass

variable {settings : PassSettings} {now : Instant} {ns name ns' name' : String} {job : Job}
  {identity : Identity} {start cluster : Cluster} {key : ObjectKey} {doc : Json} {c d : Call}

/-! ### Whose pods are whose -/

/-- Whether the list of the job of this namespace and name has the object of this entry. -/
def isLabelled (ns name : String) (e : ObjectKey × Json) : Bool :=
  e.1.kind == .pod && ns == e.1.namespace && Cluster.selected e.2 (.equals appLabel name)

theorem isListed_eq (ns : String) (job : Job) (e : ObjectKey × Json) :
    isListed ns job e = isLabelled ns job.name e := rfl

theorem isLabelled_iff : isLabelled ns name (key, doc) = true ↔
    key.kind = .pod ∧ ns = key.namespace ∧ Cluster.label? doc appLabel = some (.str name) := by
  simp only [isLabelled, Cluster.selected, Bool.and_eq_true, beq_iff_eq, and_assoc]

/-- No pod is in the lists of two jobs. -/
theorem not_isLabelled (hother : (ns, name) ≠ (ns', name'))
    (h : isLabelled ns' name' (key, doc) = true) : ¬ isLabelled ns name (key, doc) = true := by
  intro hboth
  obtain ⟨-, rfl, hlabel'⟩ := isLabelled_iff.1 h
  obtain ⟨-, rfl, hlabel⟩ := isLabelled_iff.1 hboth
  rw [hlabel] at hlabel'
  cases hlabel'
  exact hother rfl

/-- Where the pods are that a job should have. -/
def desiredKeys (ns : String) (job : Job) : List ObjectKey :=
  (replicas job).map fun r => ⟨.pod, ns, replicaName job.name r.1 r.2⟩

/-- Where the pods are that the job of this namespace and name has. -/
def ownedKeys (cluster : Cluster) (ns name : String) : List ObjectKey :=
  (cluster.job? ns name).toList.flatMap fun job =>
    (ownedPods cluster ns job).map fun pod => ⟨.pod, ns, pod.name⟩

/-- Where the pods are that the job of this namespace and name should have or has. -/
def podKeys (cluster : Cluster) (ns name : String) : List ObjectKey :=
  (cluster.job? ns name).toList.flatMap (desiredKeys ns) ++ ownedKeys cluster ns name

theorem mem_ownedKeys (hjob : cluster.job? ns name = some job) : key ∈ ownedKeys cluster ns name ↔
    ∃ pod ∈ ownedPods cluster ns job, ⟨.pod, ns, pod.name⟩ = key := by
  simp [ownedKeys, hjob]

theorem kind_of_mem_podKeys (h : key ∈ podKeys cluster ns name) : key.kind = .pod := by
  simp only [podKeys, ownedKeys, desiredKeys, List.mem_append, List.mem_flatMap, List.mem_map] at h
  rcases h with ⟨_, -, _, -, rfl⟩ | ⟨_, -, _, -, rfl⟩ <;> rfl

/-- Whether an object is of the job of this namespace and name: it has its name, or is one of its
pods. -/
def IsOf (start : Cluster) (ns name : String) (key : ObjectKey) : Prop :=
  key.kind ≠ .pod ∧ key.namespace = ns ∧ key.name = name ∨ key ∈ podKeys start ns name

theorem isOf_job (start : Cluster) (ns name : String) : IsOf start ns name ⟨.job, ns, name⟩ := by
  have hkind : Kind.job ≠ .pod := by decide
  exact .inl ⟨hkind, rfl, rfl⟩

/-- Two jobs have no object in common: they are kept apart, and no pod is of both. -/
structure Apart (start : Cluster) (ns name ns' name' : String) : Prop where
  other : (ns, name) ≠ (ns', name')
  pods : ∀ key ∈ podKeys start ns name, key ∉ podKeys start ns' name'

theorem Apart.symm (h : Apart start ns name ns' name') : Apart start ns' name' ns name :=
  ⟨h.other.symm, fun key hkey hboth => h.pods key hboth hkey⟩

theorem Apart.not_isOf (h : Apart start ns name ns' name') (hkey : IsOf start ns name key) :
    ¬ IsOf start ns' name' key := by
  rcases hkey with ⟨hkind, rfl, rfl⟩ | hpod
  · rintro (⟨-, rfl, rfl⟩ | hpod')
    · exact h.other rfl
    · exact hkind (kind_of_mem_podKeys hpod')
  · rintro (⟨hkind, -⟩ | hpod')
    · exact hkind (kind_of_mem_podKeys hpod)
    · exact h.pods key hpod hpod'

/-! ### Whose calls are whose -/

/-- Whether a call is one that a pass over the job of this namespace and name makes. -/
def IsCallOf (start : Cluster) (ns name : String) : Call → Prop
  | .get kind ns' name' => IsOf start ns name ⟨kind, ns', name'⟩
  | .create kind ns' object =>
    let key : ObjectKey := ⟨kind, ns', (kind.metadata object).nameAny⟩
    IsOf start ns name key ∧
      (kind = .pod → isLabelled ns name (key, kind.codec.encode object) = true)
  | .delete kind ns' name' => ⟨kind, ns', name'⟩ ∈ ownedKeys start ns name
  | .listPods job | .writeStatus job => job.metadata.namespace = some ns ∧ job.name = name

theorem IsCallOf.isOf (h : IsCallOf start ns name c) (hkey : c.key? = some key) :
    IsOf start ns name key := by
  cases c with
  | get kind ns' name' =>
    cases hkey
    exact h
  | create kind ns' object =>
    cases hkey
    exact h.1
  | delete kind ns' name' =>
    cases hkey
    exact .inr (List.mem_append_right _ h)
  | listPods job => cases hkey
  | writeStatus job =>
    obtain ⟨hns, hname⟩ := h
    simp only [Call.key?, hns, hname, Option.map_some, Option.some.injEq] at hkey
    subst hkey
    exact isOf_job start ns name

/-- Whether the first job's list has none of the pods that the second one had at the start. -/
def Hides (start : Cluster) (ns name ns' name' : String) (cluster : Cluster) : Prop :=
  ∀ key ∈ ownedKeys start ns' name', ∀ doc, cluster.get? key = some doc →
    ¬ isLabelled ns name (key, doc) = true

section

variable (hapart : Apart start ns name ns' name') (hd : IsCallOf start ns' name' d)

include hapart hd

/-- What the first job's list has is not touched by calls of the second. -/
theorem labelled_iff (hhides : Hides start ns name ns' name' cluster)
    (hlabelled : isLabelled ns name (key, doc) = true) :
    (store d cluster).2.get? key = some doc ↔ cluster.get? key = some doc := by
  by_cases hkey : d.key? = some key
  · cases d with
    | get kind ns₀ name₀ => rw [store_get_cluster]
    | create kind ns₀ object =>
      cases hkey
      rcases store_create_cluster kind ns₀ object cluster with hsame | hadded
      · rw [hsame]
      · rw [hadded, Cluster.get?_addMissing, if_pos rfl]
        cases cluster.get? ⟨kind, ns₀, (kind.metadata object).nameAny⟩ with
        | some doc' => rfl
        | none =>
          -- the pod that is created is in the second job's list
          simp only [Option.none_or, reduceCtorEq, iff_false]
          intro hdoc
          obtain ⟨hkind, -, -⟩ := isLabelled_iff.1 hlabelled
          have hown := hd.2 hkind
          rw [Option.some.inj hdoc] at hown
          exact not_isLabelled hapart.other hown hlabelled
    | delete kind ns₀ name₀ =>
      cases hkey
      rcases store_delete_cluster kind ns₀ name₀ cluster with hsame | herased
      · rw [hsame]
      · rw [herased, SortedMap.get?_erase_self]
        simp only [reduceCtorEq, false_iff]
        exact fun hdoc => hhides _ hd doc hdoc hlabelled
    | listPods job => cases hkey
    | writeStatus job =>
      obtain ⟨_, -, rfl⟩ := Option.map_eq_some_iff.1 hkey
      cases (isLabelled_iff.1 hlabelled).1
  · rw [store_frame hkey]

theorem listedPods_call (hhides : Hides start ns name ns' name' cluster) (hname : job.name = name) :
    listedPods (store d cluster).2 ns job = listedPods cluster ns job := by
  rw [listedPods_eq, listedPods_eq, ← List.filterMap_eq_map, List.filterMap_filter,
    List.filterMap_filter]
  refine SortedMap.filterMap_toList_congr fun key => Option.ext fun doc => ?_
  simp only [isListed_eq, hname, Option.bind_eq_some_iff, Function.comp_apply,
    Option.ite_none_right_eq_some, Option.some.injEq]
  constructor
  · rintro ⟨doc', hdoc, hlabelled, rfl⟩
    exact ⟨doc', (labelled_iff hapart hd hhides hlabelled).1 hdoc, hlabelled, rfl⟩
  · rintro ⟨doc', hdoc, hlabelled, rfl⟩
    exact ⟨doc', (labelled_iff hapart hd hhides hlabelled).2 hdoc, hlabelled, rfl⟩

/-- A call of the first job has the same answer after a call of the second. -/
theorem answer_after (hc : IsCallOf start ns name c)
    (hhides : Hides start ns name ns' name' cluster) :
    (store c (store d cluster).2).1 = (store c cluster).1 := by
  cases hkey : c.key? with
  | some key =>
    have hd' : d.key? ≠ some key := fun heq => hapart.not_isOf (hc.isOf hkey) (hd.isOf heq)
    exact (store_congr hkey (store_frame hd' cluster)).1
  | none =>
    cases c with
    | listPods job =>
      refine store_listPods_congr fun ns₀ hns₀ => ?_
      obtain rfl : ns = ns₀ := Option.some.inj (hc.1.symm.trans hns₀)
      exact listedPods_call hapart hd hhides hc.2
    | writeStatus job =>
      simp only [Call.key?, hc.1, Option.map_some] at hkey
      cases hkey
    | _ => cases hkey

theorem Hides.call (h : Hides start ns name ns' name' cluster) :
    Hides start ns name ns' name' (store d cluster).2 := by
  intro key hkey doc hdoc hlabelled
  exact h key hkey doc ((labelled_iff hapart hd h hlabelled).1 hdoc) hlabelled

theorem Hides.other_call (h : Hides start ns' name' ns name cluster) :
    Hides start ns' name' ns name (store d cluster).2 := by
  intro key hkey doc hdoc
  have hd' : d.key? ≠ some key := fun heq =>
    hapart.not_isOf (.inr (List.mem_append_right _ hkey)) (hd.isOf heq)
  rw [store_frame hd'] at hdoc
  exact h key hkey doc hdoc

end

/-- The calls of passes over jobs that are apart commute. -/
theorem independent_of_apart (h : Apart start ns name ns' name') :
    Program.Independent store (IsCallOf start ns name) (IsCallOf start ns' name') fun cluster =>
      Hides start ns name ns' name' cluster ∧ Hides start ns' name' ns name cluster where
  commutes c d cluster hc hd hhides := by
    refine ⟨answer_after h hd hc hhides.1, answer_after h.symm hc hd hhides.2, ?_⟩
    exact store_comm (fun key hkey hkey' => h.not_isOf (hc.isOf hkey) (hd.isOf hkey')) cluster
  keeps_first c cluster hc hhides := ⟨hhides.1.other_call h.symm hc, hhides.2.call h.symm hc⟩
  keeps_second d cluster hd hhides := ⟨hhides.1.call h hd, hhides.2.other_call h hd⟩

/-! ### What a pass does -/

theorem hides_start (hhomed : ∀ key, start.Homed key) (hother : (ns, name) ≠ (ns', name')) :
    Hides start ns name ns' name' start := by
  intro key hkey doc hdoc
  cases hjob : start.job? ns' name' with
  | none => simp [ownedKeys, hjob] at hkey
  | some job =>
    obtain ⟨pod, hpod, rfl⟩ := (mem_ownedKeys hjob).1 hkey
    obtain ⟨doc', hdoc', howned⟩ := get?_of_mem_ownedPods
      (Cluster.namesPods_of_homed fun key _ => hhomed key) hpod
    obtain rfl : doc' = doc := Option.some.inj (hdoc'.symm.trans hdoc)
    obtain ⟨hlisted, -, -⟩ := ownedPod?_eq_some.1 howned
    rw [isListed_eq, ((hhomed _).of_job? hjob).2] at hlisted
    exact not_isLabelled hother hlisted

theorem key_of_mem_children {port : Int32} {e : ObjectKey × Json}
    (h : e ∈ children job identity port) :
    e.1.kind ≠ .pod ∧ e.1.namespace = identity.namespace ∧ e.1.name = identity.name := by
  refine ⟨(childKinds_ne (kind_of_mem_children h)).2, ?_⟩
  rcases mem_children.1 h with rfl | rfl | ⟨-, rfl⟩ <;> exact ⟨rfl, rfl⟩

theorem isOf_missing (hjob : start.job? identity.namespace identity.name = some job)
    (hid : Identity.ofJob job = .ok identity) {images : Images} {pods : List Pod} {e : ObjectKey × Json}
    (h : e ∈ missingPods job identity images pods job.spec.roles.toList) :
    IsOf start identity.namespace identity.name e.1 ∧
      isLabelled identity.namespace identity.name e = true := by
  obtain ⟨role, definition, index, pod, hrole, hindex, -, hpod, rfl⟩ := mem_missingPods.1 h
  have hmem : (role, index) ∈ replicas job := by
    refine List.mem_flatMap.2 ⟨(role, definition), SortedMap.get?_eq_some_iff.1 hrole, ?_⟩
    exact List.mem_map_of_mem (List.mem_range.2 hindex)
  have hname := Identity.name_of_ofJob hid
  constructor
  · rw [key_of_replica hid hpod, ← hname]
    refine .inr (List.mem_append_left _ ?_)
    rw [hname, hjob]
    simpa [desiredKeys] using ⟨role, index, hmem, by rw [hname]⟩
  · obtain ⟨hlisted, -⟩ := ownedPod?_eq_some.1 (ownedPod?_entry hid hpod)
    rwa [isListed_eq, hname] at hlisted

theorem isCallOf_provides {wanted : List (ObjectKey × Json)} (h : c.Provides wanted)
    (hwanted : ∀ e ∈ wanted, IsOf start ns name e.1 ∧
      (e.1.kind = .pod → isLabelled ns name e = true)) : IsCallOf start ns name c := by
  cases c with
  | get kind ns' name' =>
    obtain ⟨e, he, heq⟩ := h
    have hisOf := (hwanted e he).1
    rwa [heq] at hisOf
  | create kind ns' object => exact hwanted _ h
  | _ => exact h.elim

theorem Surveys.pods_of_store {pods : List Pod} {t u : Cluster}
    (h : Surveys store settings job identity pods start t u) :
    pods = ownedPods start identity.namespace job := by
  have hprovides : (syncChildren job identity settings.servicePort).Within
      (Call.Provides (Pass.children job identity settings.servicePort)) fun _ => True :=
    within_syncChildren fun _ he => he
  have hstep (c : Call) (cluster : Cluster)
      (hc : c.Provides (Pass.children job identity settings.servicePort))
      (hpods : ∀ key : ObjectKey, key.kind = .pod → cluster.get? key = start.get? key) :
      ∀ key : ObjectKey, key.kind = .pod → (store c cluster).2.get? key = start.get? key := by
    intro key hkey
    have hother : c.key? ≠ some key := fun heq =>
      (childKinds_ne (key?_of_provides hc heq)).2 hkey
    rw [store_frame hother, hpods key hkey]
  obtain ⟨hpods, -⟩ := hprovides.run hstep (fun _ _ => rfl : ∀ key : ObjectKey, key.kind = .pod →
    start.get? key = start.get? key)
  rw [h.children] at hpods
  obtain ⟨-, rfl, -, rfl⟩ :=
    (store_listPods_iff (Identity.ofJob_eq_ok.1 h.identified).1).1 h.lists
  exact ownedPods_congr hpods

/-- What a pass does to a cluster are calls that are about its own job. -/
theorem isCallOf_of_mem_history (hhomed : ∀ key, start.Homed key) {a : Answered}
    (ha : a ∈ (program settings now ns name).history store start) :
    IsCallOf start ns name a.call := by
  have hidentity {job : Job} {identity : Identity} (hjob : start.job? ns name = some job)
      (hid : Identity.ofJob job = .ok identity) :
      identity.namespace = ns ∧ identity.name = name := by
    obtain ⟨hns, hname⟩ := (hhomed _).of_job? hjob
    exact ⟨Option.some.inj ((Identity.ofJob_eq_ok.1 hid).1.symm.trans hns),
      (Identity.name_of_ofJob hid).symm.trans hname⟩
  cases stage_of_mem_history ha with
  | load => exact isOf_job start ns name
  | child hbegins hid hchild =>
    obtain ⟨-, hjob⟩ := hbegins.of_store
    obtain ⟨rfl, rfl⟩ := hidentity hjob hid
    refine isCallOf_provides ((within_syncChildren fun _ he => he).history hchild)
      fun e he => ?_
    have hkey := key_of_mem_children he
    exact ⟨.inl hkey, fun hkind => absurd hkind hkey.1⟩
  | list hbegins => exact (hhomed _).of_job? hbegins.of_store.2
  | creation hbegins hsurveys _ hcreation =>
    obtain ⟨-, hjob⟩ := hbegins.of_store
    have hid := hsurveys.identified
    obtain ⟨rfl, rfl⟩ := hidentity hjob hid
    refine isCallOf_provides ((within_syncRoles fun _ he => he).history hcreation)
      fun e he => ?_
    obtain ⟨hisOf, hlabelled⟩ := isOf_missing hjob hid he
    exact ⟨hisOf, fun _ => hlabelled⟩
  | deletion hbegins hsurveys _ hdeletion =>
    obtain ⟨rfl, hjob⟩ := hbegins.of_store
    have hid := hsurveys.identified
    obtain ⟨rfl, rfl⟩ := hidentity hjob hid
    obtain ⟨pod, hpod, -, hdelete⟩ := sweeps_finalize.history hdeletion
    rw [hdelete]
    rw [hsurveys.pods_of_store] at hpod
    exact (mem_ownedKeys hjob).2 ⟨pod, hpod, rfl⟩
  | status hbegins =>
    have hhome := (hhomed _).of_job? hbegins.of_store.2
    exact hhome

/-- Passes over two jobs that have no pod in common, in one cluster: in whatever order they make their
calls, each makes the same calls, has the same answers and ends the same way as when they run one
after the other, and the cluster that they leave is the same, whichever runs first. -/
theorem passes_separate (settings : PassSettings) {start : Cluster} {ns name ns' name' : String}
    (hhomed : ∀ key, start.Homed key) (hother : (ns, name) ≠ (ns', name'))
    (hpods : ∀ key ∈ podKeys start ns name, key ∉ podKeys start ns' name')
    (now now' : Instant) (turns : List Turn) :
    Program.Serializable store turns (program settings now ns name)
      (program settings now' ns' name') start :=
  (independent_of_apart ⟨hother, hpods⟩).serializable turns
    (fun _ ha => isCallOf_of_mem_history hhomed ha) (fun _ ha => isCallOf_of_mem_history hhomed ha)
    ⟨hides_start hhomed hother, hides_start hhomed hother.symm⟩

end Pass

namespace Sample

/-- A second job in the namespace of the small one. -/
def second : Json := .obj
  [("metadata", .obj [("name", .str "eval"), ("namespace", .str "default"), ("uid", .str "u2")]),
    ("spec", .obj [("roles", .obj [("worker", .obj [("replicas", .int 2)])])])]

/-- The small job, which is asked to stop, and a second job without pods. -/
def both : Cluster := halting.insert ⟨.job, "default", "eval"⟩ second

theorem homed_both (k : ObjectKey) : both.Homed k := by
  refine (homed_halting k).insert fun job hjob => ?_
  cases hjob
  exact ⟨rfl, rfl⟩

/-- Two programs that make their calls by turns. -/
def turns : List Turn := (List.replicate 12 [Turn.first, Turn.second]).flatten

end Sample

namespace Pass

/-- By turns, one job is stopped and the other one gets its pods, as one after the other. -/
theorem passes_separate_both :
    Program.Serializable store Sample.turns (program {} Sample.now "default" "train")
        (program {} Sample.later "default" "eval") Sample.both ∧
      (Program.interleave store Sample.turns (program {} Sample.now "default" "train")
        (program {} Sample.later "default" "eval") Sample.both).1.1.result =
          .ok (.completed "train-worker-1") ∧
      (Program.interleave store Sample.turns (program {} Sample.now "default" "train")
        (program {} Sample.later "default" "eval") Sample.both).1.2.result =
          .ok (.progressing 2) := by
  have hpods : ∀ key ∈ podKeys Sample.both "default" "train",
      key ∉ podKeys Sample.both "default" "eval" := by
    decide +kernel
  have hresults : (Program.interleave store Sample.turns (program {} Sample.now "default" "train")
        (program {} Sample.later "default" "eval") Sample.both).1.1.result =
          .ok (.completed "train-worker-1") ∧
      (Program.interleave store Sample.turns (program {} Sample.now "default" "train")
        (program {} Sample.later "default" "eval") Sample.both).1.2.result =
          .ok (.progressing 2) := by
    decide +kernel
  exact ⟨passes_separate {} Sample.homed_both (by decide) hpods Sample.now Sample.later Sample.turns,
    hresults⟩

end Pass

end JobOperator
