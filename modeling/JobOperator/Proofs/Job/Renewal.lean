import JobOperator.Job.State
import JobOperator.Proofs.Job.Patch

/-!
The documents of a job that goes on. Passes write one status after the other; however many there
were, the document is as it was at first or as the last of them alone would have left it.
-/

namespace JobOperator

open Client

namespace Job

variable {job later other : Job} {doc : Json} {s t : JobStatus}

/-- A job without a status is in the state of an empty one. -/
theorem state_eq (job : Job) : job.state = job.statusOrEmpty.state := by
  unfold state statusOrEmpty
  cases job.status <;> rfl

theorem state_eq_complete_iff :
    job.state = .complete ↔ ∃ t, job.statusOrEmpty.completionTime = some t := by
  rw [state_eq, JobStatus.state]
  cases job.statusOrEmpty.completionTime with
  | some t => simp
  | none =>
    simp only [Option.isSome_none, Bool.false_eq_true, if_false]
    split <;> simp

theorem state_ne_complete_iff :
    job.state ≠ .complete ↔ job.statusOrEmpty.completionTime = none := by
  rw [Ne, state_eq_complete_iff, ← Option.isSome_iff_exists, Option.not_isSome_iff_eq_none]

/-- A status that is written to a job that goes on: each of its roles has numbers, and any other
numbers are those that the job had. -/
structure Renews (job : Job) (s : JobStatus) : Prop where
  stamped : s.Stamped
  unfinished : s.completionTime = none
  known : ∀ k ∈ job.spec.roles.keys, (s.roleStatuses.get? k).isSome = true
  others : ∀ k, k ∉ job.spec.roles.keys →
    s.roleStatuses.get? k = job.statusOrEmpty.roleStatuses.get? k

/-- A job that is read later: only its status has changed, and the job goes on. -/
structure Resumes (job later : Job) : Prop where
  metadata : later.metadata = job.metadata
  spec : later.spec = job.spec
  timed : later.statusOrEmpty.Timed
  unfinished : later.statusOrEmpty.completionTime = none
  others : ∀ k, k ∉ job.spec.roles.keys →
    later.statusOrEmpty.roleStatuses.get? k = job.statusOrEmpty.roleStatuses.get? k

/-- A document of a job that goes on, given the first one. -/
def Renewed (job : Job) (doc now : Json) : Prop :=
  now = doc ∨ ∃ s, job.Renews s ∧ now = doc.mergePatch (statusPatch (job.withStatus s))

theorem Renews.comparable (hs : job.Renews s) (ht : job.Renews t) : s.Comparable t := by
  refine ⟨hs.unfinished, ht.unfinished, fun k => ?_⟩
  by_cases hk : k ∈ job.spec.roles.keys
  · rw [hs.known k hk, ht.known k hk]
  · rw [hs.others k hk, ht.others k hk]

/-- Of several statuses, the last one shows. -/
theorem Renewed.mergePatch_statusPatch {now : Json} (h : job.Renewed doc now) (hs : job.Renews s)
    (other : Job) : now.mergePatch (statusPatch (other.withStatus s)) =
      doc.mergePatch (statusPatch (job.withStatus s)) := by
  rcases h with rfl | ⟨t, ht, rfl⟩
  · rw [statusPatch_withStatus, statusPatch_withStatus]
  · rw [statusPatch_statusPatch ht.stamped hs.stamped (ht.comparable hs)]
    rw [statusPatch_withStatus, statusPatch_withStatus]

/-- Only a document in object form holds a job after a status was written. -/
theorem eq_obj_of_decode (h : codec.decode (doc.mergePatch (statusPatch (job.withStatus s))) =
    .ok later) : ∃ members, doc = .obj members := by
  cases doc with
  | obj members => exact ⟨members, rfl⟩
  | _ => exact absurd h (statusPatch_unreadable (by simp) job s later)

theorem Resumes.exists_eq (h : job.Resumes later) : ∃ status, later = { job with status } := by
  obtain ⟨metadata, spec, status⟩ := later
  obtain ⟨rfl, rfl, -⟩ := h
  exact ⟨status, rfl⟩

theorem Resumes.refl (hread : codec.decode doc = .ok job) (hstate : job.state ≠ .complete) :
    job.Resumes job :=
  ⟨rfl, rfl, timed_of_decode hread, state_ne_complete_iff.1 hstate, fun _ _ => rfl⟩

/-- A job is read again as it was, with the times that were written and the numbers of the roles that
are its own. -/
theorem Renews.decode {members : List (String × Json)} (hs : job.Renews s)
    (hread : codec.decode (.obj members) = .ok job) (hstate : job.state ≠ .complete) :
    ∃ status, codec.decode ((Json.obj members).mergePatch (statusPatch (job.withStatus s))) =
        .ok (job.withStatus status) ∧ status.startTime = s.startTime ∧
      job.Resumes (job.withStatus status) := by
  obtain ⟨status, hdecode, hfollows⟩ :=
    decode_statusPatch hread (state_ne_complete_iff.1 hstate) hs.stamped
  refine ⟨status, hdecode, hfollows.start, rfl, rfl, timed_of_decode hdecode,
    hfollows.completion.trans hs.unfinished, fun k hk => ?_⟩
  rcases hfollows.roles k with hnew | ⟨r, hold, hkept⟩
  · exact hnew.trans (hs.others k hk)
  · exact hkept.trans hold.symm

/-- What is read from a document of a job that goes on is that job. -/
theorem Renewed.resumes {now : Json} (h : job.Renewed doc now) (hread : codec.decode doc = .ok job)
    (hstate : job.state ≠ .complete) (hlater : codec.decode now = .ok later) :
    job.Resumes later := by
  rcases h with rfl | ⟨s, hs, rfl⟩
  · rw [hread] at hlater
    cases hlater
    exact Resumes.refl hread hstate
  · obtain ⟨members, rfl⟩ := eq_obj_of_decode hlater
    obtain ⟨status, hdecode, -, hresumes⟩ := hs.decode hread hstate
    rw [hdecode] at hlater
    cases hlater
    exact hresumes

end Job

end JobOperator
