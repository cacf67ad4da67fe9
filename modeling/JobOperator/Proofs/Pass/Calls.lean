import JobOperator.Pass.Basic
import JobOperator.Proofs.Api.Server
import JobOperator.Proofs.Job.Status
import JobOperator.Proofs.Pass.Replicas

/-!
The calls that a pass makes. Before it writes the status, a pass reads, adds objects that the job
controls and, when the job stops, deletes pods; so it leaves every job as it is. What it then writes
follows from the status that it started from and from the pods that it saw.
-/

namespace JobOperator

open Client

/-- Whether a call looks for one of these objects, or creates it. -/
def Call.Provides (wanted : List (ObjectKey × Json)) : Call → Prop
  | .get kind ns name => ∃ e ∈ wanted, e.1 = ⟨kind, ns, name⟩
  | .create kind ns object =>
    (⟨kind, ns, (kind.metadata object).nameAny⟩, kind.codec.encode object) ∈ wanted
  | _ => False

/-- Whether a call reads, or adds one of these objects. -/
def Call.Adds (wanted : List (ObjectKey × Json)) : Call → Prop
  | .get .. => True
  | .create kind ns object =>
    (⟨kind, ns, (kind.metadata object).nameAny⟩, kind.codec.encode object) ∈ wanted
  | .delete .. => False
  | .listPods _ => True
  | .writeStatus _ => False

/-- Whether a call leaves all jobs as they are, and no status is written. -/
def Call.SparesJobs : Call → Prop
  | .get .. => True
  | .create kind .. => kind ≠ .job
  | .delete kind .. => kind ≠ .job
  | .listPods _ => True
  | .writeStatus _ => False

theorem Call.Provides.adds {wanted : List (ObjectKey × Json)} {c : Call} (h : c.Provides wanted) :
    c.Adds wanted := by
  cases c with
  | get kind ns name => trivial
  | create kind ns object => exact h
  | _ => exact h.elim

theorem Call.Adds.deletesNothing {wanted : List (ObjectKey × Json)} {c : Call}
    (h : c.Adds wanted) : c.DeletesNothing := by
  cases c with
  | delete kind ns name => exact h.elim
  | _ => trivial

theorem Call.Adds.sparesJobs {wanted : List (ObjectKey × Json)}
    (hwanted : ∀ e ∈ wanted, e.1.kind ≠ .job) {c : Call} (h : c.Adds wanted) : c.SparesJobs := by
  cases c with
  | get kind ns name => trivial
  | create kind ns object => exact hwanted _ h
  | delete kind ns name => exact h.elim
  | listPods job => trivial
  | writeStatus job => exact h.elim

namespace Client

theorem store_adds {wanted : List (ObjectKey × Json)} {c : Call} (h : c.Adds wanted)
    (cluster : Cluster) : (store c cluster).2 = cluster ∨
      ∃ e ∈ wanted, (store c cluster).2 = cluster.addMissing e.1 e.2 := by
  cases c with
  | get kind ns name => exact .inl (store_get_cluster kind ns name cluster)
  | create kind ns object =>
    rcases store_create_cluster kind ns object cluster with hsame | hadded
    · exact .inl hsame
    · exact .inr ⟨_, h, hadded⟩
  | delete kind ns name => exact h.elim
  | listPods job => exact .inl (store_listPods_cluster job cluster)
  | writeStatus job => exact h.elim

theorem store_sparesJobs {c : Call} (h : c.SparesJobs) (cluster : Cluster) {key : ObjectKey}
    (hkey : key.kind = .job) : (store c cluster).2.get? key = cluster.get? key := by
  cases c with
  | get kind ns name => rw [store_get_cluster]
  | create kind ns object =>
    rcases store_create_cluster kind ns object cluster with hsame | hadded
    · rw [hsame]
    · have hne : key ≠ ⟨kind, ns, (kind.metadata object).nameAny⟩ := by
        rintro rfl
        exact h hkey
      rw [hadded, Cluster.get?_addMissing, if_neg hne, Option.or_none]
  | delete kind ns name =>
    rcases store_delete_cluster kind ns name cluster with hsame | herased
    · rw [hsame]
    · have hne : key ≠ ⟨kind, ns, name⟩ := by
        rintro rfl
        exact h hkey
      rw [herased, SortedMap.get?_erase_ne _ hne]
  | listPods job => rw [store_listPods_cluster]
  | writeStatus job => exact h.elim

end Client

namespace Pass

variable {job : Job} {identity : Identity} {images : Images} {pods : List Pod}
  {wanted : List (ObjectKey × Json)}

/-! ### Adding objects -/

theorem within_createOwned {kind : Kind} {object : kind.Object}
    {onError : StoreError → PassError} (h : identity.entry kind object ∈ wanted) :
    (createOwned identity kind object onError).Within (Call.Provides wanted) fun _ => True := by
  refine ⟨?_, fun answer => ?_⟩
  · change (_, kind.codec.encode (identity.owned kind object)) ∈ wanted
    rw [← Identity.owned, Identity.nameAny_owned]
    exact h
  · cases answer with
    | ok object => trivial
    | error e =>
      simp only
      split <;> trivial

theorem within_ensure {kind : Kind} {object : kind.Object} {onError : StoreError → PassError}
    (hname : (kind.metadata object).nameAny = identity.name)
    (h : identity.entry kind object ∈ wanted) :
    (ensure identity kind object onError).Within (Call.Provides wanted) fun _ => True := by
  have hget : (Call.get kind identity.namespace identity.name).Provides wanted :=
    ⟨_, h, by rw [Identity.entry, hname]⟩
  refine (Program.within_perform hget).bind fun found _ => ?_
  cases found with
  | none => exact within_createOwned h
  | some object => trivial

theorem within_syncChildren {port : Int32} (h : ∀ e ∈ children job identity port, e ∈ wanted) :
    (syncChildren job identity port).Within (Call.Provides wanted) fun _ => True := by
  refine (within_ensure rfl (h _ (by simp [children]))).bind fun _ _ => ?_
  refine (within_ensure rfl (h _ (by simp [children]))).bind fun _ _ => ?_
  split
  · rename_i hgang
    refine (within_ensure rfl (h _ ?_)).bind fun _ _ => trivial
    simp [children, hgang]
  · trivial

theorem within_createReplica {role : String} {index : Nat}
    (h : ∀ e ∈ replicaEntry job identity images role index, e ∈ wanted) :
    (createReplica job identity images role (Int32.ofNat index)).Within (Call.Provides wanted)
      fun _ => True := by
  unfold createReplica
  unfold replicaEntry at h
  cases hpod : job.replica role (Int32.ofNat index) images with
  | error e => trivial
  | ok pod =>
    rw [hpod] at h
    exact within_createOwned (h _ List.mem_cons_self)

theorem within_syncReplicas {role : String} {remaining index : Nat} {counters : RoleStatus}
    {created : Nat}
    (h : ∀ e ∈ missingReplicas job identity images pods role remaining index, e ∈ wanted) :
    (syncReplicas job identity images pods role remaining index counters created).Within
      (Call.Provides wanted) fun r =>
        r.1 = countReplicas pods identity.name role remaining index counters := by
  induction remaining generalizing index counters created with
  | zero => exact rfl
  | succ remaining ih =>
    rw [missingReplicas_succ] at h
    have hrest : ∀ e ∈ missingReplicas job identity images pods role remaining (index + 1),
        e ∈ wanted := fun e he => h e (List.mem_append_right _ he)
    rw [syncReplicas, countReplicas_succ, counterOf]
    split
    · rename_i pod hpod
      have hseen : podNamed? pods (replicaName identity.name role index) = some pod := hpod
      rw [hseen]
      exact ih hrest
    · rename_i hpod
      have hseen : podNamed? pods (replicaName identity.name role index) = none := hpod
      have hnew : ∀ e ∈ replicaEntry job identity images role index, e ∈ wanted := by
        intro e he
        refine h e (List.mem_append_left _ ?_)
        rw [hseen]
        exact he
      rw [hseen]
      exact (within_createReplica hnew).bind fun _ _ => ih hrest

theorem within_syncRoles {roles : List (String × Role)} {statuses : StringMap RoleStatus}
    {created : Nat} (h : ∀ e ∈ missingPods job identity images pods roles, e ∈ wanted) :
    (syncRoles job identity images pods roles statuses created).Within (Call.Provides wanted)
      fun r => r.1 = countRoles pods identity.name roles statuses := by
  induction roles generalizing statuses created with
  | nil => exact rfl
  | cons r roles ih =>
    obtain ⟨name, role⟩ := r
    have hfirst : ∀ e ∈ missingReplicas job identity images pods name role.desiredReplicas 0,
        e ∈ wanted := fun e he => h e (List.mem_append_left _ he)
    have hrest : ∀ e ∈ missingPods job identity images pods roles, e ∈ wanted :=
      fun e he => h e (List.mem_append_right _ he)
    rw [syncRoles]
    refine (within_syncReplicas hfirst).bind ?_
    rintro ⟨counters, created⟩ rfl
    exact ih hrest

/-! ### Kinds of what is added -/

theorem kind_of_mem_children {port : Int32} {e : ObjectKey × Json}
    (h : e ∈ children job identity port) : e.1.kind ∈ childKinds job := by
  simp only [children, List.mem_append, List.mem_cons, List.not_mem_nil, or_false] at h
  rcases h with (rfl | rfl) | h
  · exact List.mem_append_left _ List.mem_cons_self
  · exact List.mem_append_left _ (List.mem_cons_of_mem _ List.mem_cons_self)
  · split at h
    · rename_i hgang
      rw [List.mem_singleton] at h
      rw [h, childKinds, if_pos hgang]
      exact List.mem_append_right _ List.mem_cons_self
    · exact absurd h List.not_mem_nil

theorem childKinds_ne {kind : Kind} (h : kind ∈ childKinds job) : kind ≠ .job ∧ kind ≠ .pod := by
  simp only [childKinds, List.mem_append, List.mem_cons, List.not_mem_nil, or_false] at h
  rcases h with (rfl | rfl) | h
  · decide
  · decide
  · split at h
    · rw [List.mem_singleton] at h
      rw [h]
      decide
    · exact absurd h List.not_mem_nil

theorem kind_of_mem_missingPods {roles : List (String × Role)} {e : ObjectKey × Json}
    (h : e ∈ missingPods job identity images pods roles) : e.1.kind = .pod := by
  obtain ⟨r, -, h⟩ := List.mem_flatMap.1 h
  obtain ⟨index, -, h⟩ := List.mem_flatMap.1 h
  split at h
  · exact absurd h List.not_mem_nil
  · unfold replicaEntry at h
    split at h
    · rw [List.mem_singleton] at h
      rw [h]
      rfl
    · exact absurd h List.not_mem_nil

theorem within_finalize {statuses : StringMap RoleStatus} :
    (finalize identity pods statuses).Within Call.SparesJobs fun _ => True := by
  induction pods generalizing statuses with
  | nil => trivial
  | cons pod rest ih =>
    rw [finalize]
    split
    · exact ih
    · split
      · exact ih
      · refine ⟨show Kind.pod ≠ .job by decide, fun answer => ?_⟩
        cases answer with
        | ok u => exact ih
        | error e => exact ih

/-! ### Up to the status -/

/-- A pass up to where it writes the status. -/
def prepare (settings : PassSettings) (now : Instant) (job : Job) :
    Program PassError (PodsOutcome × JobStatus) := do
  let identity ← Program.ofExcept (Identity.ofJob job)
  syncChildren job identity settings.servicePort
  syncPods job identity settings.images now (begin now job.statusOrEmpty)

theorem prepare_eq {settings : PassSettings} {now : Instant}
    (hid : Identity.ofJob job = .ok identity) :
    prepare settings now job = (syncChildren job identity settings.servicePort >>= fun _ =>
      syncPods job identity settings.images now (begin now job.statusOrEmpty)) := by
  rw [prepare, hid]
  rfl

/-- The end of a pass: it writes the status. -/
def persist (job : Job) (result : PodsOutcome × JobStatus) : Program PassError Outcome := do
  Program.perform (.writeStatus (job.withStatus result.2)) .persistStatus
  return outcome result.1

theorem ofJob_eq (settings : PassSettings) (now : Instant) (job : Job) :
    ofJob settings now job = prepare settings now job >>= persist job := by
  rw [prepare, Program.bind_assoc]
  simp only [Program.bind_assoc]
  rfl

/-- What a pass makes of the status that it started from: the first pass starts the job, each looks
at it, and one that sees a request to stop completes it. The numbers of roles that the job does not
have stay as they are as long as it goes on. -/
structure Updates (now : Instant) (job : Job) (result : PodsOutcome × JobStatus) : Prop where
  start : result.2.startTime = job.statusOrEmpty.startTime.or (some now)
  last : result.2.lastReconcileTime = some now
  progressing : ∀ created, result.1 = .progressing created →
    result.2.completionTime = job.statusOrEmpty.completionTime ∧
      ∃ pods name, result.2.roleStatuses =
        countRoles pods name job.spec.roles.toList job.statusOrEmpty.roleStatuses
  stopped : ∀ requestedBy, result.1 = .stopped requestedBy →
    result.2.completionTime = some now

section

variable {P : Call → Prop} (hlist : P (.listPods job))
  (hfinalize : ∀ (identity : Identity) (pods : List Pod) (statuses : StringMap RoleStatus),
    (finalize identity pods statuses).Within P fun _ => True)
  (hprovides : ∀ (wanted : List (ObjectKey × Json)) (c : Call),
    (∀ e ∈ wanted, e.1.kind ≠ .job) → c.Provides wanted → P c)

include hlist hfinalize hprovides

theorem within_syncPods {now : Instant} :
    (syncPods job identity images now (begin now job.statusOrEmpty)).Within P
      (Updates now job) := by
  refine (Program.within_perform hlist).bind fun pods _ => ?_
  split
  · refine (hfinalize _ _ _).bind fun roleStatuses _ => ?_
    exact ⟨rfl, rfl, nofun, fun _ _ => rfl⟩
  · have hroles : ∀ e ∈ missingPods job identity images pods job.spec.roles.toList,
        e.1.kind ≠ .job := fun e he => by
      rw [kind_of_mem_missingPods he]
      decide
    refine ((within_syncRoles fun e he => he).mono (fun c hc => hprovides _ c hroles hc)
      fun _ hr => hr).bind ?_
    rintro ⟨roleStatuses, created⟩ hr
    exact ⟨rfl, rfl, fun _ _ => ⟨rfl, pods, identity.name, hr⟩, nofun⟩

/-- What holds of every call that looks for objects other than jobs or creates them, of the list, and
of the deletions, holds of every call up to the status. -/
theorem within_prepare_of {settings : PassSettings} {now : Instant} :
    (prepare settings now job).Within P (Updates now job) := by
  have hidentity : (Program.ofExcept (Identity.ofJob job)).Within P fun _ => True :=
    Program.within_ofExcept.mono (fun _ hc => hc) fun _ _ => trivial
  refine hidentity.bind fun identity _ => ?_
  have hkinds : ∀ e ∈ children job identity settings.servicePort, e.1.kind ≠ .job :=
    fun e he => (childKinds_ne (kind_of_mem_children he)).1
  refine ((within_syncChildren fun e he => he).mono (fun c hc => hprovides _ c hkinds hc)
    fun _ hr => hr).bind fun _ _ => ?_
  exact within_syncPods hlist hfinalize hprovides

end

theorem within_prepare {settings : PassSettings} {now : Instant} :
    (prepare settings now job).Within Call.SparesJobs (Updates now job) :=
  within_prepare_of trivial (fun _ _ _ => within_finalize)
    fun _ _ hwanted hc => hc.adds.sparesJobs hwanted

end Pass

end JobOperator
