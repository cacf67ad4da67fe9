import JobOperator.Proofs.Pass.Desired

/-!
Clusters that passes over a job have added to. What a pass sees in such a cluster counts as it did at
the start, and what it still creates makes the cluster what a pass at the start would have made it.
-/

namespace JobOperator

open Client

namespace Pass

variable {settings : PassSettings} {job : Job} {identity : Identity} {own : ObjectKey}
  {start cluster : Cluster} {pods : List Pod}

/-- What a pass creates in a cluster, unless its name is taken. -/
abbrev creationsIn (settings : PassSettings) (job : Job) (identity : Identity)
    (cluster : Cluster) : List (ObjectKey × Json) :=
  creations settings job identity (ownedPods cluster identity.namespace job)

theorem entry_of_mem_creations {e : ObjectKey × Json}
    (h : e ∈ creations settings job identity pods) :
    ∃ kind object, kind ≠ .job ∧ e = identity.entry kind object := by
  rcases List.mem_append.1 h with h | h
  · rcases mem_children.1 h with rfl | rfl | ⟨-, rfl⟩
    · exact ⟨.configMap, _, by decide, rfl⟩
    · exact ⟨.service, _, by decide, rfl⟩
    · exact ⟨.podGroup, _, by decide, rfl⟩
  · obtain ⟨-, -, -, pod, -, -, -, -, rfl⟩ := mem_missingPods.1 h
    exact ⟨.pod, pod, by decide, rfl⟩

/-- What is created can be read. -/
theorem decode_of_mem_creations {key : ObjectKey} {body : Json}
    (h : (key, body) ∈ creations settings job identity pods) :
    ∃ object, key.kind.codec.decode body = .ok object := by
  obtain ⟨kind, object, hkind, heq⟩ := entry_of_mem_creations h
  obtain ⟨rfl, rfl⟩ := Prod.mk.inj heq
  exact ⟨identity.owned kind object, (Kind.codec_lawful hkind _).roundTrips⟩

/-- A pod that is created is seen from then on; it has not reported anything, and was not seen. -/
theorem ownedPod?_of_mem_creations (hid : Identity.ofJob job = .ok identity) {key : ObjectKey}
    {body : Json} (h : (key, body) ∈ creations settings job identity pods)
    (hkey : key.kind = .pod) :
    ∃ pod, ownedPod? identity.namespace job (key, body) = some pod ∧ pod.status = none ∧
      key = ⟨.pod, identity.namespace, pod.name⟩ ∧ podNamed? pods pod.name = none := by
  rcases List.mem_append.1 h with hchild | hpod
  · exact absurd hkey (childKinds_ne (kind_of_mem_children hchild)).2
  · obtain ⟨role, definition, index, pod, -, -, hunseen, hpod, heq⟩ := mem_missingPods.1 hpod
    have hentry := key_of_replica hid hpod
    obtain ⟨-, -, -, hstatus⟩ := of_replica hpod
    have hname : (identity.owned .pod pod).name = replicaName identity.name role index :=
      congrArg ObjectKey.name hentry
    refine ⟨identity.owned .pod pod, ?_, hstatus, ?_, ?_⟩
    · rw [heq]
      exact ownedPod?_entry hid hpod
    · rw [hname, ← hentry]
      exact congrArg Prod.fst heq
    · rw [hname]
      exact hunseen

/-! ### What is seen -/

section

variable (hid : Identity.ofJob job = .ok identity) (hown : own.kind = .job)
  (h : Cluster.Grown (creationsIn settings job identity start) own start cluster)

include hid hown h

/-- A pod that is seen was seen at the start, or was created since. -/
theorem mem_ownedPods_of_grown {pod : Pod} (hpod : pod ∈ ownedPods cluster identity.namespace job) :
    pod ∈ ownedPods start identity.namespace job ∨ pod.status = none ∧
      cluster.contains ⟨.pod, identity.namespace, pod.name⟩ = true ∧
      podNamed? (ownedPods start identity.namespace job) pod.name = none := by
  obtain ⟨key, doc, hdoc, howned⟩ := mem_ownedPods.1 hpod
  have hkind := kind_of_isListed (ownedPod?_eq_some.1 howned).1
  have hne : key ≠ own := by
    rintro rfl
    rw [hown] at hkind
    cases hkind
  rcases h key hne with hsame | ⟨-, body, hbody, hnow⟩
  · rw [hdoc] at hsame
    exact .inl (mem_ownedPods.2 ⟨key, doc, hsame.symm, howned⟩)
  · rw [hdoc] at hnow
    cases hnow
    obtain ⟨pod', howned', hstatus, hkey, hunseen⟩ :=
      ownedPod?_of_mem_creations hid hbody hkind
    rw [howned] at howned'
    cases howned'
    refine .inr ⟨hstatus, ?_, hunseen⟩
    rw [← hkey, SortedMap.contains_iff]
    exact ⟨doc, hdoc⟩

/-- A name that was seen at the start shows the same pod. -/
theorem podNamed?_of_grown {name : String}
    (hseen : (podNamed? (ownedPods start identity.namespace job) name).isSome = true) :
    podNamed? (ownedPods cluster identity.namespace job) name =
      podNamed? (ownedPods start identity.namespace job) name := by
  refine podNamed?_ownedPods_congr fun key => ?_
  have hother (hkind : key.kind ≠ .pod) (found : Option Json) : (found.bind fun doc =>
      (ownedPod? identity.namespace job (key, doc)).filter (·.name == name)) = none := by
    cases found with
    | none => rfl
    | some doc =>
      have hlisted : ¬ isListed identity.namespace job (key, doc) = true := fun hlisted =>
        hkind (kind_of_isListed hlisted)
      rw [Option.bind_some, ownedPod?, if_neg hlisted]
      rfl
  by_cases hkind : key.kind = .pod
  · have hne : key ≠ own := by
      rintro rfl
      rw [hown] at hkind
      cases hkind
    rcases h key hne with hsame | ⟨hnone, body, hbody, hnow⟩
    · rw [hsame]
    · obtain ⟨pod, howned, -, -, hunseen⟩ := ownedPod?_of_mem_creations hid hbody hkind
      have hname : (pod.name == name) = false := by
        rw [beq_eq_false_iff_ne]
        rintro rfl
        rw [hunseen] at hseen
        cases hseen
      rw [hnow, hnone, Option.bind_some, howned, Option.filter_some, hname]
      rfl
  · rw [hother hkind, hother hkind]

/-- No name counts otherwise than at the start. -/
theorem counterOf_of_grown (name : String) :
    counterOf (ownedPods cluster identity.namespace job) name =
      counterOf (ownedPods start identity.namespace job) name := by
  unfold counterOf
  cases hstart : podNamed? (ownedPods start identity.namespace job) name with
  | some pod =>
    rw [podNamed?_of_grown hid hown h (by rw [hstart]; rfl), hstart]
  | none =>
    cases hnow : podNamed? (ownedPods cluster identity.namespace job) name with
    | none => rfl
    | some pod =>
      obtain ⟨hmem, hname⟩ := name_of_podNamed? hnow
      rcases mem_ownedPods_of_grown hid hown h hmem with hold | ⟨hstatus, -⟩
      · have hsome := podNamed?_isSome.2 ⟨pod, hold, hname⟩
        rw [hstart] at hsome
        cases hsome
      · rw [Option.bind_some, Pod.phase?, hstatus]
        rfl

/-- No pod asks for the job to stop that did not at the start. -/
theorem requestsStop_of_grown
    (hstart : ∀ pod ∈ ownedPods start identity.namespace job, pod.requestsStop = false) :
    ∀ pod ∈ ownedPods cluster identity.namespace job, pod.requestsStop = false := by
  intro pod hpod
  rcases mem_ownedPods_of_grown hid hown h hpod with hold | ⟨hstatus, -⟩
  · exact hstart pod hold
  · simp only [Pod.requestsStop, Pod.phase?, hstatus]
    rfl

/-! ### What is created -/

/-- What a pass creates, a pass at the start would have created. -/
theorem creationsIn_subset {e : ObjectKey × Json}
    (he : e ∈ creationsIn settings job identity cluster) :
    e ∈ creationsIn settings job identity start := by
  rcases List.mem_append.1 he with hchild | hwanted
  · exact List.mem_append_left _ hchild
  · obtain ⟨role, definition, index, pod, hrole, hindex, hunseen, hpod, heq⟩ :=
      mem_missingPods.1 hwanted
    refine List.mem_append_right _
      (mem_missingPods.2 ⟨role, definition, index, pod, hrole, hindex, ?_, hpod, heq⟩)
    cases hstart : podNamed? (ownedPods start identity.namespace job)
        (replicaName identity.name role index) with
    | none => rfl
    | some pod' =>
      rw [podNamed?_of_grown hid hown h (by rw [hstart]; rfl), hstart] at hunseen
      cases hunseen

/-- What a pass at the start would have created and is still missing, a pass creates. -/
theorem mem_creationsIn_of_missing {e : ObjectKey × Json}
    (he : e ∈ creationsIn settings job identity start) (hmissing : cluster.get? e.1 = none) :
    e ∈ creationsIn settings job identity cluster := by
  rcases List.mem_append.1 he with hchild | hwanted
  · exact List.mem_append_left _ hchild
  · obtain ⟨role, definition, index, pod, hrole, hindex, hunseen, hpod, rfl⟩ :=
      mem_missingPods.1 hwanted
    refine List.mem_append_right _
      (mem_missingPods.2 ⟨role, definition, index, pod, hrole, hindex, ?_, hpod, rfl⟩)
    cases hnow : podNamed? (ownedPods cluster identity.namespace job)
        (replicaName identity.name role index) with
    | none => rfl
    | some pod' =>
      obtain ⟨hmem, hname⟩ := name_of_podNamed? hnow
      rcases mem_ownedPods_of_grown hid hown h hmem with hold | ⟨-, hthere, -⟩
      · have hsome := podNamed?_isSome.2 ⟨pod', hold, hname⟩
        rw [hunseen] at hsome
        cases hsome
      · rw [hname, ← key_of_replica hid hpod, SortedMap.contains_iff] at hthere
        obtain ⟨body, hbody⟩ := hthere
        rw [hmissing] at hbody
        cases hbody

/-- A pass makes of the cluster what a pass at the start would have made of it. -/
theorem get?_addAll_creationsIn {key : ObjectKey} (hkey : key ≠ own) :
    (cluster.addAll (creationsIn settings job identity cluster)).get? key =
      (start.addAll (creationsIn settings job identity start)).get? key := by
  have hfirst {body : Json} {later : Cluster}
      (hmem : (key, body) ∈ creationsIn settings job identity later) :
      Cluster.firstOf key (creationsIn settings job identity later) = some body := by
    cases hfound : Cluster.firstOf key (creationsIn settings job identity later) with
    | none => exact absurd rfl (Cluster.firstOf_eq_none_iff.1 hfound _ hmem)
    | some body' =>
      have heq := desired_functional hid (creations_subset_desired (Cluster.mem_of_firstOf hfound))
        (creations_subset_desired hmem) rfl
      cases heq
      rfl
  rw [Cluster.get?_addAll, Cluster.get?_addAll]
  rcases h key hkey with hsame | ⟨hnone, body, hbody, hnow⟩
  · rw [hsame]
    cases hstart : start.get? key with
    | some body => rfl
    | none =>
      rw [Option.none_or, Option.none_or]
      cases hfound : Cluster.firstOf key (creationsIn settings job identity start) with
      | some body =>
        have hmem := mem_creationsIn_of_missing hid hown h (Cluster.mem_of_firstOf hfound)
          (hsame.trans hstart)
        exact hfirst hmem
      | none =>
        rw [Cluster.firstOf_eq_none_iff] at hfound ⊢
        exact fun e he => hfound e (creationsIn_subset hid hown h he)
  · rw [hnow, hnone, hfirst hbody]
    rfl

/-! ### What can be read -/

theorem listable_of_grown : Listable cluster identity.namespace job ↔
    Listable start identity.namespace job := by
  constructor
  · intro hall key doc hdoc hlisted
    have hne : key ≠ own := by
      rintro rfl
      rw [kind_of_isListed hlisted] at hown
      cases hown
    exact hall key doc (h.get?_of_some hne hdoc) hlisted
  · intro hall key doc hdoc hlisted
    have hkind := kind_of_isListed hlisted
    have hne : key ≠ own := by
      rintro rfl
      rw [hkind] at hown
      cases hown
    rcases h key hne with hsame | ⟨-, body, hbody, hnow⟩
    · exact hall key doc (hsame ▸ hdoc) hlisted
    · rw [hdoc] at hnow
      cases hnow
      obtain ⟨pod, howned, -⟩ := ownedPod?_of_mem_creations hid hbody hkind
      exact ⟨pod, (ownedPod?_eq_some.1 howned).2.1⟩

omit hid in
theorem readable_of_grown {kind : Kind} (hkind : kind ≠ .job) {name : String} :
    Readable cluster kind identity.namespace name ↔
      Readable start kind identity.namespace name := by
  have hne : (⟨kind, identity.namespace, name⟩ : ObjectKey) ≠ own := by
    rintro rfl
    exact hkind hown
  constructor
  · intro hread doc hdoc
    exact hread doc (h.get?_of_some hne hdoc)
  · intro hread doc hdoc
    rcases h _ hne with hsame | ⟨-, body, hbody, hnow⟩
    · exact hread doc (hsame ▸ hdoc)
    · rw [hdoc] at hnow
      cases hnow
      exact decode_of_mem_creations hbody

end

end Pass

end JobOperator
