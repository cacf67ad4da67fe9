import JobOperator.Proofs.Pass.Progress

/-!
Pods that are kept under their own names. Each pod that a job's list has is found under its name, no
two of them have the same name, and they are listed in the order of their names.
-/

namespace JobOperator

/-- What is put under its own name leaves everything under its own name. -/
theorem Cluster.Homed.insert {cluster : Cluster} {key other : ObjectKey} {doc : Json}
    (h : cluster.Homed other)
    (hdoc : ∀ object, key.kind.codec.decode doc = .ok object →
      (key.kind.metadata object).namespace = some key.namespace ∧
        (key.kind.metadata object).nameAny = key.name) :
    Cluster.Homed (cluster.insert key doc) other := by
  intro doc' object hdoc' hreads
  by_cases heq : other = key
  · subst heq
    obtain rfl : doc = doc' := Option.some.inj ((SortedMap.get?_insert_self _ _ _).symm.trans hdoc')
    exact hdoc object hreads
  · rw [SortedMap.get?_insert_ne _ heq] at hdoc'
    exact h doc' object hdoc' hreads

/-- Whether each pod that can be read is kept under its own name. -/
def Cluster.NamesPods (cluster : Cluster) : Prop :=
  ∀ ns name doc pod, cluster.get? ⟨.pod, ns, name⟩ = some doc → Pod.codec.decode doc = .ok pod →
    pod.name = name

theorem Cluster.namesPods_of_homed {cluster : Cluster}
    (h : ∀ key : ObjectKey, key.kind = .pod → cluster.Homed key) : cluster.NamesPods :=
  fun ns name doc pod hdoc hreads => (h ⟨.pod, ns, name⟩ rfl doc pod hdoc hreads).2

namespace Pass

variable {cluster : Cluster} {ns : String} {job : Job} {pod pod' : Pod}

section

variable (hnames : cluster.NamesPods)

include hnames

theorem key_of_ownedPod? {key : ObjectKey} {doc : Json} (hdoc : cluster.get? key = some doc)
    (h : ownedPod? ns job (key, doc) = some pod) : key = ⟨.pod, ns, pod.name⟩ := by
  obtain ⟨hlisted, hreads, -⟩ := ownedPod?_eq_some.1 h
  obtain ⟨kind, ns', name'⟩ := key
  simp only [isListed, Bool.and_eq_true, beq_iff_eq] at hlisted
  obtain ⟨⟨rfl, rfl⟩, -⟩ := hlisted
  rw [hnames ns name' doc pod hdoc hreads]

theorem get?_of_mem_ownedPods (h : pod ∈ ownedPods cluster ns job) :
    ∃ doc, cluster.get? ⟨.pod, ns, pod.name⟩ = some doc ∧
      ownedPod? ns job (⟨.pod, ns, pod.name⟩, doc) = some pod := by
  obtain ⟨key, doc, hdoc, hfound⟩ := mem_ownedPods.1 h
  obtain rfl := key_of_ownedPod? hnames hdoc hfound
  exact ⟨doc, hdoc, hfound⟩

theorem eq_of_name_eq (h : pod ∈ ownedPods cluster ns job) (h' : pod' ∈ ownedPods cluster ns job)
    (hname : pod.name = pod'.name) : pod = pod' := by
  obtain ⟨doc, hdoc, hfound⟩ := get?_of_mem_ownedPods hnames h
  obtain ⟨doc', hdoc', hfound'⟩ := get?_of_mem_ownedPods hnames h'
  rw [← hname] at hdoc' hfound'
  obtain rfl : doc = doc' := Option.some.inj (hdoc.symm.trans hdoc')
  exact Option.some.inj (hfound.symm.trans hfound')

theorem ownedPods_increasing (ns : String) (job : Job) :
    (ownedPods cluster ns job).Pairwise fun a b => a.name < b.name := by
  rw [ownedPods, List.pairwise_filterMap]
  refine cluster.increasing.imp_of_mem fun {a b} ha hb hlt pod hpod pod' hpod' => ?_
  obtain ⟨key, doc⟩ := a
  obtain ⟨key', doc'⟩ := b
  obtain rfl := key_of_ownedPod? hnames (SortedMap.get?_eq_some_iff.2 ha) hpod
  obtain rfl := key_of_ownedPod? hnames (SortedMap.get?_eq_some_iff.2 hb) hpod'
  rcases hlt with hlt | ⟨-, hlt | ⟨-, hlt⟩⟩
  · exact absurd hlt (String.lt_irrefl _)
  · exact absurd hlt (String.lt_irrefl _)
  · exact hlt

end

/-- Of the pods of a job that asks for something, the first one in the list has the first name. -/
theorem name_le_of_find? (hhomed : ∀ key : ObjectKey, key.kind = .pod → cluster.Homed key)
    {p : Pod → Bool} {first : Pod}
    (hfirst : (ownedPods cluster ns job).find? p = some first)
    (h : pod ∈ ownedPods cluster ns job) (hp : p pod = true) : first.name ≤ pod.name := by
  obtain ⟨-, before, after, hpods, hbefore⟩ := List.find?_eq_some_iff_append.1 hfirst
  have hincreasing := ownedPods_increasing (Cluster.namesPods_of_homed hhomed) ns job
  rw [hpods] at h hincreasing
  rcases List.mem_append.1 h with hmem | hmem
  · have hno := hbefore pod hmem
    rw [hp] at hno
    cases hno
  · rcases List.mem_cons.1 hmem with rfl | hmem
    · exact String.le_refl _
    · have hlt := (List.pairwise_cons.1 (List.pairwise_append.1 hincreasing).2.1).1 pod hmem
      exact String.not_lt.1 fun hgt => String.lt_irrefl _ (String.lt_trans hlt hgt)

end Pass

namespace Sample

/-- A pod of the small job with this name and status. -/
def podOf (name : String) (status : Json) : Json :=
  let owner : Json := .obj
    [("apiVersion", .str "realai.cn/v1alpha1"), ("kind", .str "LpJob"), ("name", .str "train"),
      ("uid", .str "u1"), ("controller", .bool true)]
  .obj [("metadata", .obj [("name", .str name), ("namespace", .str "default"),
    ("labels", .obj [("app", .str "train")]), ("ownerReferences", .arr [owner])]), ("status", status)]

/-- The small job with a pod that runs and one that asks for it to stop. -/
def halting : Cluster :=
  let ended : Json := .obj
    [("name", .str "main"), ("state", .obj [("terminated", .obj [("exitCode", .int 25)])])]
  ((posted.insert ⟨.pod, "default", "train-worker-0"⟩
      (podOf "train-worker-0" (.obj [("phase", .str "Running")]))).insert
    ⟨.pod, "default", "train-worker-1"⟩ (podOf "train-worker-1"
      (.obj [("phase", .str "Failed"), ("containerStatuses", .arr [ended])])))

theorem homed_halting (k : ObjectKey) : halting.Homed k := by
  refine ((all_homed_posted k).insert fun pod hpod => ?_).insert fun pod hpod => ?_
  · cases hpod
    exact ⟨rfl, rfl⟩
  · cases hpod
    exact ⟨rfl, rfl⟩

/-- The small job with a pod that runs and one that asks for it to stop, in a server that does not
let its status be written. -/
def unwritten : Server :=
  { cluster := halting, faults := [{ verb := .patch, kind := .job, response := .dropped }] }

end Sample

end JobOperator
