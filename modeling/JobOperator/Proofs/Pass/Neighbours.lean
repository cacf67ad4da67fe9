import JobOperator.Proofs.Pass.Effect
import JobOperator.Proofs.Pass.Homed
import JobOperator.Proofs.Pass.Separation
import JobOperator.Proofs.Pass.Timeline

/-!
Jobs in one namespace. Replicas of two jobs can have the same name, as names may contain what stands
between the parts of a name; a pass that loses a name to another job goes on without that replica.
Jobs that have no name in common get all their replicas, in whatever order the passes over them come.
-/

namespace JobOperator

open Client

/-- Whether roles of two jobs that are to have replicas share the names of those. -/
def Job.Clashes (job other : Job) : Prop :=
  ∃ role definition role' definition', job.spec.roles.get? role = some definition ∧
    other.spec.roles.get? role' = some definition' ∧ 0 < definition.replicas ∧
    0 < definition'.replicas ∧ Names.stem job.name role = Names.stem other.name role'

/-- Whether a pod is kept under this key that the job controls. -/
def Cluster.HasPodOf (cluster : Cluster) (job : Job) (key : ObjectKey) : Prop :=
  ∃ doc pod, cluster.get? key = some doc ∧ Pod.codec.decode doc = .ok pod ∧
    job.controls pod.metadata = true

namespace Pass

variable {settings : PassSettings} {now : Instant} {ns name name' : String} {names : List String}
  {job other : Job} {identity : Identity} {start cluster next last : Cluster} {key : ObjectKey}
  {created : Nat}

/-- A run of passes over jobs of a namespace, in a server without faults, after each of which its job
goes on. -/
inductive Progresses (ns : String) : Cluster → List String → Cluster → Prop
  | done (cluster : Cluster) : Progresses ns cluster [] cluster
  | pass {settings : PassSettings} {now : Instant} {name : String} {created : Nat}
      {names : List String} {cluster last : Cluster} (valid : now.Valid)
      (goes : ((program settings now ns name).run serverStore { cluster }).1 =
        .ok (.progressing created))
      (rest : Progresses ns
        ((program settings now ns name).run serverStore { cluster }).2.cluster names last) :
      Progresses ns cluster (name :: names) last

/-! ### Names -/

theorem clashes_of_wants (hkey : key.kind = .pod) (h : job.Wants ns job.name key)
    (h' : other.Wants ns other.name key) : job.Clashes other := by
  obtain ⟨kind, space, text⟩ := key
  obtain rfl : kind = .pod := hkey
  obtain ⟨-, role, definition, index, hrole, hzero, hlt, hname⟩ := h
  obtain ⟨-, role', definition', index', hrole', hzero', hlt', hname'⟩ := h'
  obtain ⟨n, hn, hpod⟩ := (exists_index_iff (p := fun i => text = Names.pod job.name role i)
    definition).1 ⟨index, hzero, hlt, hname⟩
  obtain ⟨n', hn', hpod'⟩ := (exists_index_iff (p := fun i => text = Names.pod other.name role' i)
    definition').1 ⟨index', hzero', hlt', hname'⟩
  have hbound := definition.desiredReplicas_lt
  have hbound' := definition'.desiredReplicas_lt
  obtain ⟨-, hstem⟩ := (Names.pod_eq_iff (by omega) (by omega)).1 (hpod.symm.trans hpod')
  exact ⟨role, definition, role', definition', hrole, hrole', Int32.lt_of_le_of_lt hzero hlt,
    Int32.lt_of_le_of_lt hzero' hlt', hstem⟩

/-! ### One pass -/

theorem homed_of_mem_creations (hid : Identity.ofJob job = .ok identity) {pods : List Pod}
    {body : Json} (h : (key, body) ∈ creations settings job identity pods) (hkey : key.kind = .pod)
    {pod : Pod} (hpod : Pod.codec.decode body = .ok pod) :
    pod.metadata.namespace = some key.namespace ∧ pod.name = key.name := by
  rcases List.mem_append.1 h with hchild | hwanted
  · exact absurd hkey (childKinds_ne (kind_of_mem_children hchild)).2
  · obtain ⟨role, definition, index, replica, -, -, -, hreplica, heq⟩ := mem_missingPods.1 hwanted
    obtain ⟨-, hns, -, -⟩ := of_replica hreplica
    obtain ⟨rfl, rfl⟩ := Prod.mk.inj heq
    have hreads : Pod.codec.decode (Pod.codec.encode (identity.owned .pod replica)) =
        .ok (identity.owned .pod replica) :=
      (Kind.codec_lawful (show Kind.pod ≠ .job by decide) _).roundTrips
    obtain rfl : identity.owned .pod replica = pod := Except.ok.inj (hreads.symm.trans hpod)
    exact ⟨hns.trans (Identity.ofJob_eq_ok.1 hid).1, identity.nameAny_owned .pod replica⟩

theorem progressed_of_goes (hjob : cluster.Homed ⟨.job, ns, name⟩)
    (h : ((program settings now ns name).run serverStore { cluster }).1 =
      .ok (.progressing created)) :
    ∃ job identity doc, identity.namespace = ns ∧ identity.name = name ∧
      Proceeds now job identity doc cluster ∧
      ((program settings now ns name).run serverStore { cluster }).2.cluster =
        progressed settings now job identity doc cluster := by
  have hnone : ({ cluster } : Server).faults = [] := rfl
  obtain ⟨-, hresult, hcluster, -⟩ := run_of_faultless (program settings now ns name) hnone
  rw [hresult] at h
  obtain ⟨job, identity, doc, rfl, rfl, hproceeds⟩ := proceeds_of_run_program hjob (Prod.ext h rfl)
  refine ⟨job, identity, doc, rfl, rfl, hproceeds, ?_⟩
  rw [hcluster, run_program_of_proceeds settings hproceeds]

/-- What a pass after which the job goes on does to jobs and pods: the job has a new status at most,
the other jobs and the pods that were there are as before, and the job has all its replicas, of which
it controls those that are new. -/
structure Advances (ns name : String) (job : Job) (cluster next : Cluster) : Prop where
  found : cluster.job? ns name = some job
  later : ∀ later, next.job? ns name = some later → ∃ status, later = { job with status }
  others : ∀ name', name' ≠ name → next.get? ⟨.job, ns, name'⟩ = cluster.get? ⟨.job, ns, name'⟩
  kept : ∀ key : ObjectKey, key.kind = .pod → ∀ doc, cluster.get? key = some doc →
    next.get? key = some doc
  present : ∀ key : ObjectKey, key.kind = .pod → job.Wants ns name key → next.get? key ≠ none
  added : ∀ key : ObjectKey, key.kind = .pod → cluster.get? key = none → next.get? key ≠ none →
    job.Wants ns name key ∧ next.HasPodOf job key ∧ next.Homed key

theorem advances_of_goes (hjob : cluster.Homed ⟨.job, ns, name⟩)
    (hpods : ∀ key : ObjectKey, key.kind = .pod → cluster.Homed key) (hnow : now.Valid)
    (hgoes : ((program settings now ns name).run serverStore { cluster }).1 =
      .ok (.progressing created)) :
    ∃ job, Advances ns name job cluster
      ((program settings now ns name).run serverStore { cluster }).2.cluster := by
  obtain ⟨job, identity, doc, rfl, rfl, hproceeds, hafter⟩ := progressed_of_goes hjob hgoes
  have hfound : cluster.job? identity.namespace identity.name = some job :=
    Cluster.job?_eq_some.2 ⟨doc, hproceeds.stored, hproceeds.reads⟩
  have heffect := effect_of_proceeds settings hpods hproceeds
  have hother {key : ObjectKey} (hkey : key.kind = .pod) : key ≠ identity.key := by
    rintro rfl
    cases hkey
  refine ⟨job, hfound, ?_, ?_, ?_, ?_, ?_⟩
  · intro later hlater
    have hlater : ((Event.pass [] now).next settings identity.namespace identity.name cluster).job?
        identity.namespace identity.name = some later := hlater
    obtain ⟨before, hbefore, hsucceeds⟩ := succeeds_of_pass hjob failing_nil hnow hlater
    obtain rfl : job = before := Option.some.inj (hfound.symm.trans hbefore)
    exact hsucceeds.exists_eq
  · intro name' hname
    have hne : (⟨.job, identity.namespace, name'⟩ : ObjectKey) ≠ identity.key := by
      intro heq
      exact hname (congrArg ObjectKey.name heq)
    rw [hafter, get?_progressed_ne hne, get?_job_addAll (fun _ => kind_of_mem_creations) rfl]
  · intro key hkey doc hdoc
    rw [hafter]
    exact heffect.kept key (hother hkey) doc hdoc
  · intro key hkey hwants
    rw [hafter]
    cases hdoc : cluster.get? key with
    | some doc =>
      rw [heffect.kept key (hother hkey) doc hdoc]
      exact Option.some_ne_none doc
    | none => exact Option.isSome_iff_ne_none.1 ((heffect.added key hdoc).2 hwants)
  · intro key hkey hnone hthere
    rw [hafter] at hthere ⊢
    obtain ⟨body, hbody⟩ := Option.ne_none_iff_exists'.1 hthere
    have hwants := (heffect.added key hnone).1 (Option.isSome_iff_exists.2 ⟨body, hbody⟩)
    have hnew : (key, body) ∈ creationsIn settings job identity cluster := by
      rw [get?_progressed_ne (hother hkey), Cluster.get?_addAll, hnone, Option.none_or] at hbody
      exact Cluster.mem_of_firstOf hbody
    obtain ⟨pod, hpod, -⟩ := ownedPod?_of_mem_creations hproceeds.identified hnew hkey
    obtain ⟨-, hreads, hcontrols⟩ := ownedPod?_eq_some.1 hpod
    refine ⟨hwants, ⟨body, pod, hbody, hreads, hcontrols⟩, ?_⟩
    intro doc' object hdoc' hobject
    obtain rfl : body = doc' := Option.some.inj (hbody.symm.trans hdoc')
    obtain ⟨kind, space, text⟩ := key
    obtain rfl : kind = .pod := hkey
    exact homed_of_mem_creations hproceeds.identified hnew rfl hobject

/-! ### Any number of passes -/

/-- A cluster after passes over jobs of a namespace: what is read of the jobs is the same but for
their status, and each pod in the namespace is a replica of one of them, which controls it. -/
structure Apportioned (ns : String) (start cluster : Cluster) : Prop where
  jobsHomed : ∀ name, cluster.Homed ⟨.job, ns, name⟩
  podsHomed : ∀ key : ObjectKey, key.kind = .pod → cluster.Homed key
  jobs : ∀ name later, cluster.job? ns name = some later →
    ∃ job status, start.job? ns name = some job ∧ later = { job with status }
  pods : ∀ key : ObjectKey, key.kind = .pod → key.namespace = ns → cluster.get? key ≠ none →
    ∃ name job, start.job? ns name = some job ∧ job.Wants ns name key ∧ cluster.HasPodOf job key

theorem apportioned_start (hhomed : ∀ key, start.Homed key)
    (hempty : ∀ key : ObjectKey, key.namespace = ns → start.get? key ≠ none → key.kind = .job) :
    Apportioned ns start start := by
  refine ⟨fun name => hhomed _, fun key _ => hhomed key, ?_, ?_⟩
  · intro name later hlater
    exact ⟨later, later.status, hlater, rfl⟩
  · intro key hkey hspace hthere
    have hjob := hempty key hspace hthere
    rw [hkey] at hjob
    cases hjob

theorem Apportioned.advance (h : Apportioned ns start cluster)
    (hadvances : Advances ns name job cluster next) : Apportioned ns start next := by
  have hjobs (name' : String) (later : Job) (hlater : next.job? ns name' = some later) :
      ∃ job status, cluster.job? ns name' = some job ∧ later = { job with status } := by
    by_cases hname : name' = name
    · subst hname
      obtain ⟨status, hstatus⟩ := hadvances.later later hlater
      exact ⟨job, status, hadvances.found, hstatus⟩
    · unfold Cluster.job? at hlater
      rw [hadvances.others name' hname] at hlater
      exact ⟨later, later.status, hlater, rfl⟩
  constructor
  · intro name' doc later hdoc hlater
    obtain ⟨job, status, hjob, rfl⟩ :=
      hjobs name' later (Cluster.job?_eq_some.2 ⟨doc, hdoc, hlater⟩)
    have hhome := (h.jobsHomed name').of_job? hjob
    exact hhome
  · intro key hkey
    cases hold : cluster.get? key with
    | some old =>
      intro doc object hdoc
      rw [hadvances.kept key hkey old hold, ← hold] at hdoc
      exact h.podsHomed key hkey doc object hdoc
    | none =>
      intro doc object hdoc
      have hthere : next.get? key ≠ none := by
        rw [hdoc]
        exact Option.some_ne_none doc
      obtain ⟨-, -, hhomed⟩ := hadvances.added key hkey hold hthere
      exact hhomed doc object hdoc
  · intro name' later hlater
    obtain ⟨middle, status, hmiddle, rfl⟩ := hjobs name' later hlater
    obtain ⟨job, _, hjob, rfl⟩ := h.jobs name' middle hmiddle
    exact ⟨job, status, hjob, rfl⟩
  · intro key hkey hspace hthere
    cases hold : cluster.get? key with
    | some old =>
      have hwas : cluster.get? key ≠ none := by
        rw [hold]
        exact Option.some_ne_none old
      obtain ⟨owner, job, hjob, hwants, doc, pod, hdoc, hpod⟩ := h.pods key hkey hspace hwas
      exact ⟨owner, job, hjob, hwants, doc, pod, hadvances.kept key hkey doc hdoc, hpod⟩
    | none =>
      -- the replica is new, and what the pass has read is the job but for its status
      obtain ⟨hwants, hpod, -⟩ := hadvances.added key hkey hold hthere
      obtain ⟨first, status, hfirst, rfl⟩ := h.jobs name job hadvances.found
      exact ⟨name, first, hfirst, hwants, hpod⟩

theorem Progresses.apportioned (hpasses : Progresses ns cluster names last)
    (h : Apportioned ns start cluster) : Apportioned ns start last ∧
      (∀ key : ObjectKey, key.kind = .pod → cluster.get? key ≠ none → last.get? key ≠ none) ∧
      ∀ name ∈ names, ∀ job, start.job? ns name = some job → ∀ key : ObjectKey, key.kind = .pod →
        job.Wants ns name key → last.get? key ≠ none := by
  induction hpasses with
  | done => exact ⟨h, fun _ _ hthere => hthere, fun _ hname => absurd hname List.not_mem_nil⟩
  | pass hnow hgoes _ ih =>
    obtain ⟨later, hadvances⟩ := advances_of_goes (h.jobsHomed _) h.podsHomed hnow hgoes
    obtain ⟨hlast, hkept, hpresent⟩ := ih (h.advance hadvances)
    refine ⟨hlast, ?_, ?_⟩
    · intro key hkey hthere
      apply hkept key hkey
      obtain ⟨doc, hdoc⟩ := Option.ne_none_iff_exists'.1 hthere
      rw [hadvances.kept key hkey doc hdoc]
      exact Option.some_ne_none doc
    · intro name' hname job hjob key hkey hwants
      rcases List.mem_cons.1 hname with rfl | hname
      · obtain ⟨first, status, hfirst, rfl⟩ := h.jobs _ later hadvances.found
        obtain rfl : job = first := Option.some.inj (hjob.symm.trans hfirst)
        exact hkept key hkey (hadvances.present key hkey hwants)
      · exact hpresent name' hname job hjob key hkey hwants

/-- A replica that no other job is to have is the job's own. -/
theorem Progresses.hasPodOf (hpasses : Progresses ns start names last)
    (h : Apportioned ns start start) (hname : name ∈ names) (hjob : start.job? ns name = some job)
    (hkey : key.kind = .pod) (hwants : job.Wants ns name key)
    (hsole : ∀ owner rival, start.job? ns owner = some rival → rival.Wants ns owner key →
      owner = name) : last.HasPodOf job key := by
  obtain ⟨hlast, -, hpresent⟩ := hpasses.apportioned h
  have hthere : last.get? key ≠ none := hpresent name hname job hjob key hkey hwants
  obtain ⟨owner, found, hfound, hwanted, hpod⟩ := hlast.pods key hkey hwants.1 hthere
  obtain rfl : owner = name := hsole owner found hfound hwanted
  obtain rfl : job = found := Option.some.inj (hjob.symm.trans hfound)
  exact hpod

/-- Replicas of two jobs have the same name when their indices are the same and so is what stands
before them. If no role of one shares it with a role of the other, then in a namespace with nothing
else, passes over both, in any order, after each of which its job goes on, leave each job with all its
replicas, which it controls. -/
theorem neighbours_keep_apart {ns name name' : String} {start : Cluster} {first second : Job}
    (hhomed : ∀ key, start.Homed key) (hfirst : start.job? ns name = some first)
    (hsecond : start.job? ns name' = some second)
    (hempty : ∀ key : ObjectKey, key.namespace = ns → start.get? key ≠ none →
      key = ⟨.job, ns, name⟩ ∨ key = ⟨.job, ns, name'⟩) :
    (∀ role role' index index', index < 2 ^ 31 → index' < 2 ^ 31 →
      (Names.pod name role (Int32.ofNat index) = Names.pod name' role' (Int32.ofNat index') ↔
        index = index' ∧ Names.stem name role = Names.stem name' role')) ∧
    (¬ first.Clashes second → ∀ names last, Progresses ns start names last → name ∈ names →
      name' ∈ names → ∀ key : ObjectKey, key.kind = .pod →
        (first.Wants ns name key → last.HasPodOf first key) ∧
        (second.Wants ns name' key → last.HasPodOf second key)) := by
  constructor
  · intro role role' index index' h h'
    exact Names.pod_eq_iff h h'
  intro hapart names last hpasses hname hname' key hkey
  obtain ⟨-, hcalled⟩ := (hhomed _).of_job? hfirst
  obtain ⟨-, hcalled'⟩ := (hhomed _).of_job? hsecond
  have hstart : Apportioned ns start start := by
    apply apportioned_start hhomed
    intro key hspace hthere
    rcases hempty key hspace hthere with rfl | rfl
    · rfl
    · rfl
  have honly (owner : String) (job : Job) (hjob : start.job? ns owner = some job) :
      (owner = name ∧ job = first) ∨ (owner = name' ∧ job = second) := by
    obtain ⟨doc, hdoc, -⟩ := Cluster.job?_eq_some.1 hjob
    have hthere : start.get? ⟨.job, ns, owner⟩ ≠ none := by
      rw [hdoc]
      exact Option.some_ne_none doc
    rcases hempty ⟨.job, ns, owner⟩ rfl hthere with heq | heq
    · obtain rfl : owner = name := congrArg ObjectKey.name heq
      exact .inl ⟨rfl, Option.some.inj (hjob.symm.trans hfirst)⟩
    · obtain rfl : owner = name' := congrArg ObjectKey.name heq
      exact .inr ⟨rfl, Option.some.inj (hjob.symm.trans hsecond)⟩
  have hclash (hwants : first.Wants ns name key) (hwants' : second.Wants ns name' key) : False := by
    rw [← hcalled] at hwants
    rw [← hcalled'] at hwants'
    exact hapart (clashes_of_wants hkey hwants hwants')
  constructor
  · intro hwants
    apply hpasses.hasPodOf hstart hname hfirst hkey hwants
    intro owner rival hrival hwants'
    rcases honly owner rival hrival with ⟨howner, -⟩ | ⟨rfl, rfl⟩
    · exact howner
    · exact (hclash hwants hwants').elim
  · intro hwants
    apply hpasses.hasPodOf hstart hname' hsecond hkey hwants
    intro owner rival hrival hwants'
    rcases honly owner rival hrival with ⟨rfl, rfl⟩ | ⟨howner, -⟩
    · exact (hclash hwants' hwants).elim
    · exact howner

end Pass

namespace Sample

/-- The second job as it is read. -/
def secondJob : Job :=
  { metadata := { name := some "eval", «namespace» := some "default", uid := some "u2" }
    spec := { roles := SortedMap.ofList [("worker", { replicas := 2 })] } }

/-- The small job and the second one, both without pods. -/
def pair : Cluster := posted.insert ⟨.job, "default", "eval"⟩ second

theorem homed_pair (k : ObjectKey) : pair.Homed k := by
  refine (all_homed_posted k).insert fun job hjob => ?_
  cases hjob
  exact ⟨rfl, rfl⟩

theorem eq_of_get?_pair {k : ObjectKey} (h : pair.get? k ≠ none) :
    k = key ∨ k = ⟨.job, "default", "eval"⟩ := by
  by_cases hsecond : k = ⟨.job, "default", "eval"⟩
  · exact .inr hsecond
  · refine .inl (by_contra fun hk => h ?_)
    rw [pair, SortedMap.get?_insert_ne _ hsecond, get?_posted_ne hk]

theorem not_clashes_secondJob : ¬ job.Clashes secondJob := by
  rintro ⟨role, -, role', -, -, -, -, -, hstem⟩
  have htrain : job.name.toList = ['t', 'r', 'a', 'i', 'n'] := by decide +kernel
  have heval : secondJob.name.toList = ['e', 'v', 'a', 'l'] := by decide +kernel
  have hchars := congrArg String.toList hstem
  simp only [Names.stem, String.toList_ofList, htrain, heval, List.cons_append] at hchars
  exact absurd (List.cons.inj hchars).1 (by decide)

theorem wants_second_replica (job : Job) (ns name : String)
    (h : job.spec.roles.get? "worker" = some { replicas := 2 }) :
    job.Wants ns name ⟨.pod, ns, Names.pod name "worker" 1⟩ :=
  ⟨rfl, "worker", { replicas := 2 }, 1, h, by decide, by decide, rfl⟩

/-- A job with one replica of one role. -/
def single (name role uid : String) : Json := .obj
  [("metadata", .obj [("name", .str name), ("namespace", .str "default"), ("uid", .str uid)]),
    ("spec", .obj [("roles", .obj [(role, .obj [])])])]

end Sample

namespace Pass

/-- The small job and the second one get their second replicas. -/
theorem neighbours_keep_apart_pair :
    ∃ last, Progresses "default" Sample.pair ["eval", "train"] last ∧
      last.HasPodOf Sample.job ⟨.pod, "default", "train-worker-1"⟩ ∧
      last.HasPodOf Sample.secondJob ⟨.pod, "default", "eval-worker-1"⟩ := by
  have hfirst : Sample.pair.job? "default" "train" = some Sample.job := by rfl
  have hsecond : Sample.pair.job? "default" "eval" = some Sample.secondJob := by rfl
  have hgoes : ((program {} Sample.now "default" "eval").run serverStore
      { cluster := Sample.pair }).1 = .ok (.progressing 2) := by
    decide +kernel
  have hgoes' : ((program {} Sample.later "default" "train").run serverStore
      { cluster := ((program {} Sample.now "default" "eval").run serverStore
        { cluster := Sample.pair }).2.cluster }).1 = .ok (.progressing 2) := by
    decide +kernel
  have hpasses : Progresses "default" Sample.pair ["eval", "train"] _ :=
    .pass Sample.valid_now hgoes (.pass Sample.valid_later hgoes' (.done _))
  obtain ⟨-, hkept⟩ := neighbours_keep_apart Sample.homed_pair hfirst hsecond
    fun _ _ => Sample.eq_of_get?_pair
  have hpods := hkept Sample.not_clashes_secondJob _ _ hpasses
    (List.mem_cons_of_mem _ List.mem_cons_self) List.mem_cons_self
  refine ⟨_, hpasses, ?_, ?_⟩
  · exact (hpods _ rfl).1 (Sample.wants_second_replica Sample.job "default" "train" rfl)
  · exact (hpods _ rfl).2 (Sample.wants_second_replica Sample.secondJob "default" "eval" rfl)

/-- Two jobs whose names and roles come to the same: the second one never gets its replica. -/
theorem shares_name_of_roles :
    let start : Cluster := (SortedMap.insert ∅ ⟨.job, "default", "a"⟩
      (Sample.single "a" "b-c" "u1")).insert ⟨.job, "default", "a-b"⟩ (Sample.single "a-b" "c" "u2")
    let first := (program {} Sample.now "default" "a").run serverStore { cluster := start }
    let second := (program {} Sample.now "default" "a-b").run serverStore first.2
    let pod := (second.2.cluster.get? ⟨.pod, "default", "a-b-c-0"⟩).bind fun doc =>
      (Pod.codec.decode doc).toOption
    let controls (name : String) := (start.job? "default" name).bind fun job =>
      pod.map fun pod => job.controls pod.metadata
    Names.pod "a" "b-c" 0 = Names.pod "a-b" "c" 0 ∧ first.1 = .ok (.progressing 1) ∧
      second.1 = .ok (.progressing 0) ∧ controls "a" = some true ∧ controls "a-b" = some false := by
  decide +kernel

end Pass

end JobOperator
