import JobOperator.Proofs.Pass.Replicas

/-!
The pods that a pass sees: of the pods in the job's namespace, those that have the job's label and
that the job controls. A replica that a pass has created is one of them, under the name by which the
pass looks for it.
-/

namespace JobOperator

open Client

namespace Pass

variable {cluster cluster' : Cluster} {ns : String} {job : Job}

/-- Whether a job's list of pods has the object of this entry. -/
def isListed (ns : String) (job : Job) (e : ObjectKey × Json) : Bool :=
  e.1.kind == .pod && ns == e.1.namespace &&
    Cluster.selected e.2 (.equals appLabel job.name)

/-- The pod of an entry, if the job's list has it and the job controls it. -/
def ownedPod? (ns : String) (job : Job) (e : ObjectKey × Json) : Option Pod :=
  if isListed ns job e then
    (Pod.codec.decode e.2).toOption.filter fun pod => job.controls pod.metadata
  else none

/-- The pods of a cluster that a pass over the job sees. -/
def ownedPods (cluster : Cluster) (ns : String) (job : Job) : List Pod :=
  cluster.toList.filterMap (ownedPod? ns job)

/-- Whether every object that the job's list has can be read as a pod. -/
def Listable (cluster : Cluster) (ns : String) (job : Job) : Prop :=
  ∀ key doc, cluster.get? key = some doc → isListed ns job (key, doc) = true →
    ∃ pod, Pod.codec.decode doc = .ok pod

theorem decodeItems_eq_ok {α : Type} {decode : Json → Except DecodeError α} {items : List Json}
    {as : List α} : Codec.decodeItems decode items = .ok as ↔
      (∀ item ∈ items, ∃ a, decode item = .ok a) ∧
        as = items.filterMap fun item => (decode item).toOption := by
  induction items generalizing as with
  | nil =>
    simp only [Codec.decodeItems, Except.ok.injEq, List.not_mem_nil, List.filterMap_nil]
    constructor
    · rintro rfl
      exact ⟨fun _ h => h.elim, rfl⟩
    · rintro ⟨-, rfl⟩
      rfl
  | cons item rest ih =>
    simp only [Codec.decodeItems, bind, Except.bind, List.mem_cons, forall_eq_or_imp,
      List.filterMap_cons]
    cases decode item with
    | error e => simp
    | ok a =>
      simp only [Except.toOption]
      cases hrest : Codec.decodeItems decode rest with
      | error e =>
        constructor
        · intro h
          cases h
        · rintro ⟨⟨-, hall⟩, -⟩
          rw [ih.2 ⟨hall, rfl⟩] at hrest
          cases hrest
      | ok as' =>
        obtain ⟨hall, rfl⟩ := ih.1 hrest
        constructor
        · rintro ⟨⟩
          exact ⟨⟨⟨a, rfl⟩, hall⟩, rfl⟩
        · rintro ⟨-, rfl⟩
          rfl

theorem listedPods_eq (cluster : Cluster) (ns : String) (job : Job) :
    listedPods cluster ns job = (cluster.toList.filter (isListed ns job)).map (·.2) := rfl

/-- A job's pods are listed when all that is listed can be read. -/
theorem store_listPods_iff (hns : job.metadata.namespace = some ns) {pods : List Pod} :
    store (.listPods job) cluster = (.ok pods, cluster') ↔
      ns.toList.all mayStandInPath = true ∧ cluster' = cluster ∧ Listable cluster ns job ∧
        pods = ownedPods cluster ns job := by
  have hlistable : (∀ item ∈ listedPods cluster ns job, ∃ pod, Pod.codec.decode item = .ok pod) ↔
      Listable cluster ns job := by
    simp only [listedPods_eq, List.mem_map, List.mem_filter, Prod.exists, Listable,
      forall_exists_index, and_imp, SortedMap.get?_eq_some_iff]
    constructor
    · intro h key doc hmem hlisted
      exact h doc key doc hmem hlisted rfl
    · rintro h _ key doc hmem hlisted rfl
      exact h key doc hmem hlisted
  have howned : ((listedPods cluster ns job).filterMap fun item =>
      (Pod.codec.decode item).toOption).filter (fun pod => job.controls pod.metadata) =
        ownedPods cluster ns job := by
    rw [listedPods_eq, List.filterMap_map, List.filterMap_filter, List.filter_filterMap, ownedPods]
    congr 1
    funext e
    simp only [ownedPod?]
    split <;> rfl
  rw [store_listPods hns]
  simp only [decodeItems_eq_ok, hlistable]
  constructor
  · rintro ⟨hpath, rfl, _, ⟨hall, rfl⟩, rfl⟩
    exact ⟨hpath, rfl, hall, howned⟩
  · rintro ⟨hpath, rfl, hall, rfl⟩
    exact ⟨hpath, rfl, _, ⟨hall, rfl⟩, howned.symm⟩

theorem mem_ownedPods {pod : Pod} : pod ∈ ownedPods cluster ns job ↔
    ∃ key doc, cluster.get? key = some doc ∧ ownedPod? ns job (key, doc) = some pod := by
  simp only [ownedPods, List.mem_filterMap, Prod.exists, SortedMap.get?_eq_some_iff]

theorem ownedPod?_eq_some {key : ObjectKey} {doc : Json} {pod : Pod} :
    ownedPod? ns job (key, doc) = some pod ↔ isListed ns job (key, doc) = true ∧
      Pod.codec.decode doc = .ok pod ∧ job.controls pod.metadata = true := by
  unfold ownedPod?
  split
  · rename_i h
    rw [Option.filter_eq_some_iff]
    cases Pod.codec.decode doc <;> simp [Except.toOption, h]
  · rename_i h
    simp [h]

theorem kind_of_isListed {key : ObjectKey} {doc : Json} (h : isListed ns job (key, doc) = true) :
    key.kind = .pod := by
  simp only [isListed, Bool.and_eq_true, beq_iff_eq] at h
  exact h.1.1

/-- The last pod of a name is the last one of those of that name. -/
theorem podNamed?_congr {pods pods' : List Pod} {name : String}
    (h : pods.filter (·.name == name) = pods'.filter (·.name == name)) :
    podNamed? pods name = podNamed? pods' name := by
  rw [podNamed?, podNamed?, ← List.head?_filter, ← List.head?_filter, List.filter_reverse,
    List.filter_reverse, h]

theorem podNamed?_isSome {pods : List Pod} {name : String} :
    (podNamed? pods name).isSome = true ↔ ∃ pod ∈ pods, pod.name = name := by
  simp only [podNamed?, List.find?_isSome, List.mem_reverse, beq_iff_eq]

theorem name_of_podNamed? {pods : List Pod} {name : String} {pod : Pod}
    (h : podNamed? pods name = some pod) : pod ∈ pods ∧ pod.name = name := by
  have hmem := List.mem_of_find?_eq_some h
  have hname := List.find?_some h
  exact ⟨List.mem_reverse.1 hmem, by simpa using hname⟩

/-- Clusters in which the same pods of a sort are owned show the same pods of that sort. -/
theorem filter_ownedPods_congr {p : Pod → Bool}
    (h : ∀ key, ((cluster.get? key).bind fun doc => (ownedPod? ns job (key, doc)).filter p) =
      (cluster'.get? key).bind fun doc => (ownedPod? ns job (key, doc)).filter p) :
    (ownedPods cluster ns job).filter p = (ownedPods cluster' ns job).filter p := by
  rw [ownedPods, ownedPods, List.filter_filterMap, List.filter_filterMap]
  exact SortedMap.filterMap_toList_congr h

theorem podNamed?_ownedPods_congr {name : String}
    (h : ∀ key, ((cluster.get? key).bind fun doc =>
        (ownedPod? ns job (key, doc)).filter (·.name == name)) =
      (cluster'.get? key).bind fun doc =>
        (ownedPod? ns job (key, doc)).filter (·.name == name)) :
    podNamed? (ownedPods cluster ns job) name = podNamed? (ownedPods cluster' ns job) name :=
  podNamed?_congr (filter_ownedPods_congr h)

/-! ### Pods alone matter -/

theorem ownedPods_congr
    (h : ∀ key : ObjectKey, key.kind = .pod → cluster.get? key = cluster'.get? key) :
    ownedPods cluster ns job = ownedPods cluster' ns job := by
  refine SortedMap.filterMap_toList_congr fun key => ?_
  by_cases hkind : key.kind = .pod
  · rw [h key hkind]
  · have hother (found : Option Json) :
        (found.bind fun doc => ownedPod? ns job (key, doc)) = none := by
      cases found with
      | none => rfl
      | some doc =>
        have hlisted : ¬ isListed ns job (key, doc) = true := fun hlisted =>
          hkind (kind_of_isListed hlisted)
        rw [Option.bind_some, ownedPod?, if_neg hlisted]
    rw [hother, hother]

theorem listable_congr
    (h : ∀ key : ObjectKey, key.kind = .pod → cluster.get? key = cluster'.get? key) :
    Listable cluster ns job ↔ Listable cluster' ns job := by
  constructor
  · intro hall key doc hdoc hlisted
    exact hall key doc ((h key (kind_of_isListed hlisted)).trans hdoc) hlisted
  · intro hall key doc hdoc hlisted
    exact hall key doc ((h key (kind_of_isListed hlisted)).symm.trans hdoc) hlisted

end Pass

end JobOperator
