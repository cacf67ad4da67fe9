import JobOperator.Proofs.Api.Conversation
import JobOperator.Proofs.Json.Path
import JobOperator.Proofs.Pass.Step

/-!
What a pass leaves alone in the documents of jobs. All that it does to them is to merge a status into
one, by a patch that sets the header, the times and the numbers of the roles, and nothing else. So
what else a document has, known to the operator or not, stays as it is.
-/

namespace JobOperator

open Client Json

namespace Json

theorem of_at?_cons_obj {step : Step} {rest : List Step} {members : List (String × Json)} {v : Json}
    (h : at? (step :: rest) (.obj members) = some v) :
    ∃ key value, step = .member key ∧ (key, value) ∈ members ∧ at? rest value = some v := by
  cases step with
  | item index => cases h
  | member key =>
    obtain ⟨value, hvalue, hrest⟩ := Option.bind_eq_some_iff.1 h
    exact ⟨key, value, rfl, mem_of_lastMember? hvalue, hrest⟩

theorem of_at?_str {path : List Step} {text : String} {v : Json}
    (h : at? path (.str text) = some v) : path = [] ∧ v = .str text := by
  cases path with
  | nil => exact ⟨rfl, (Option.some.inj h).symm⟩
  | cons step rest => cases step <;> cases h

theorem of_at?_int {path : List Step} {n : Int} {v : Json} (h : at? path (.int n) = some v) :
    path = [] ∧ v = .int n := by
  cases path with
  | nil => exact ⟨rfl, (Option.some.inj h).symm⟩
  | cons step rest => cases step <;> cases h

end Json

namespace JobStatus

/-- The names of the times of a status. -/
def timeKeys : List String := ["startTime", "completionTime", "lastReconcileTime"]

/-- The members of a status: those times that it has, and the numbers of the roles. -/
def memberList (s : JobStatus) : List (String × Json) :=
  (s.startTime.map fun t => ("startTime", Json.str t.text)).toList ++
    (s.completionTime.map fun t => ("completionTime", Json.str t.text)).toList ++
    (s.lastReconcileTime.map fun t => ("lastReconcileTime", Json.str t.text)).toList ++
    [("roleStatuses", (Codec.stringMap RoleStatus.codec).encode s.roleStatuses)]

theorem encode_eq_obj (s : JobStatus) : codec.encode s = .obj s.memberList := by
  obtain ⟨start, completion, last, roles⟩ := s
  cases start <;> cases completion <;> cases last <;> rfl

theorem of_mem_memberList {s : JobStatus} {key : String} {value : Json}
    (h : (key, value) ∈ s.memberList) :
    (key ∈ timeKeys ∧ ∃ text, value = .str text) ∨
      key = "roleStatuses" ∧ value = (Codec.stringMap RoleStatus.codec).encode s.roleStatuses := by
  simp only [memberList, List.mem_append, Option.mem_toList, Option.map_eq_some_iff,
    List.mem_singleton, Prod.mk.injEq] at h
  rcases h with ((⟨t, -, rfl, rfl⟩ | ⟨t, -, rfl, rfl⟩) | ⟨t, -, rfl, rfl⟩) | h
  · exact .inl ⟨by simp [timeKeys], _, rfl⟩
  · exact .inl ⟨by simp [timeKeys], _, rfl⟩
  · exact .inl ⟨by simp [timeKeys], _, rfl⟩
  · exact .inr h

theorem sets_memberList (s : JobStatus) : Sets s.memberList := by
  obtain ⟨start, completion, last, roles⟩ := s
  cases start <;> cases completion <;> cases last <;>
    exact ⟨by simp [memberList], by simp [memberList, Codec.stringMap]⟩

end JobStatus

namespace Job

/-- The path to a role's numbers in the document of a job. -/
def rolePath (role : String) : List Step := [.member "status", .member "roleStatuses", .member role]

/-- Whether a path leads to something that is set when a status is written, or on from there. -/
inductive Written : List Step → Prop
  | header {key : String} (below : List Step) (h : key ∈ ["apiVersion", "kind"]) :
    Written (.member key :: below)
  | time {key : String} (below : List Step) (h : key ∈ JobStatus.timeKeys) :
    Written (.member "status" :: .member key :: below)
  | number (role : String) {key : String} (below : List Step)
    (h : key ∈ ["running", "completed", "failed"]) :
    Written (rolePath role ++ .member key :: below)

/-- Whether a path leads to one of the objects that hold what is set when a status is written. -/
inductive Holder : List Step → Prop
  | job : Holder []
  | status : Holder [.member "status"]
  | roles : Holder [.member "status", .member "roleStatuses"]
  | role (role : String) : Holder (rolePath role)

theorem Written.append {path : List Step} (h : Written path) (below : List Step) :
    Written (path ++ below) := by
  cases h with
  | header below' h => exact .header (below' ++ below) h
  | time below' h => exact .time (below' ++ below) h
  | number role below' h =>
    rw [List.append_assoc]
    exact .number role (below' ++ below) h

/-! ### The patch -/

/-- What a patch that gives a job a status has at its places. -/
inductive Place (s : JobStatus) : List Step → Json → Prop
  | job : Place s [] (.obj (statusMembers s))
  | header {key : String} (text : String) (h : key ∈ ["apiVersion", "kind"]) :
    Place s [.member key] (.str text)
  | status : Place s [.member "status"] (JobStatus.codec.encode s)
  | time {key : String} (text : String) (h : key ∈ JobStatus.timeKeys) :
    Place s [.member "status", .member key] (.str text)
  | roles : Place s [.member "status", .member "roleStatuses"]
    ((Codec.stringMap RoleStatus.codec).encode s.roleStatuses)
  | role (role : String) (numbers : RoleStatus) :
    Place s (rolePath role) (RoleStatus.codec.encode numbers)
  | number (role : String) {key : String} (n : Int) (h : key ∈ ["running", "completed", "failed"]) :
    Place s (rolePath role ++ [.member key]) (.int n)

variable {s : JobStatus} {path : List Step} {v : Json}

theorem place_of_at?_role {role : String} {numbers : RoleStatus}
    (h : at? path (RoleStatus.codec.encode numbers) = some v) :
    Place s (rolePath role ++ path) v := by
  cases path with
  | nil =>
    cases h
    rw [List.append_nil]
    exact .role role numbers
  | cons step rest =>
    rw [RoleStatus.encode_eq] at h
    obtain ⟨key, value, rfl, hmem, hrest⟩ := of_at?_cons_obj h
    have hkey : key ∈ ["running", "completed", "failed"] ∧ ∃ n, value = .int n := by
      simp only [List.mem_cons, List.not_mem_nil, or_false, Prod.mk.injEq] at hmem
      rcases hmem with ⟨rfl, rfl⟩ | ⟨rfl, rfl⟩ | ⟨rfl, rfl⟩
      · exact ⟨by simp, _, rfl⟩
      · exact ⟨by simp, _, rfl⟩
      · exact ⟨by simp, _, rfl⟩
    obtain ⟨hkey, n, rfl⟩ := hkey
    obtain ⟨rfl, rfl⟩ := of_at?_int hrest
    exact .number role n hkey

theorem place_of_at?_status (h : at? path (JobStatus.codec.encode s) = some v) :
    Place s (.member "status" :: path) v := by
  cases path with
  | nil =>
    cases h
    exact .status
  | cons step rest =>
    rw [JobStatus.encode_eq_obj] at h
    obtain ⟨key, value, rfl, hmem, hrest⟩ := of_at?_cons_obj h
    rcases JobStatus.of_mem_memberList hmem with ⟨hkey, text, rfl⟩ | ⟨rfl, rfl⟩
    · obtain ⟨rfl, rfl⟩ := of_at?_str hrest
      exact .time text hkey
    · cases rest with
      | nil =>
        cases hrest
        exact .roles
      | cons step rest =>
        obtain ⟨role, _, rfl, hmem, hrest⟩ := of_at?_cons_obj hrest
        obtain ⟨e, -, heq⟩ := List.mem_map.1 hmem
        cases heq
        exact place_of_at?_role hrest

theorem place_of_at? (h : at? path (.obj (statusMembers s)) = some v) : Place s path v := by
  cases path with
  | nil =>
    cases h
    exact .job
  | cons step rest =>
    obtain ⟨key, value, rfl, hmem, hrest⟩ := of_at?_cons_obj h
    simp only [statusMembers, List.mem_cons, List.not_mem_nil, or_false, Prod.mk.injEq] at hmem
    rcases hmem with ⟨rfl, rfl⟩ | ⟨rfl, rfl⟩ | ⟨rfl, rfl⟩
    · obtain ⟨rfl, rfl⟩ := of_at?_str hrest
      exact .header _ (by simp)
    · obtain ⟨rfl, rfl⟩ := of_at?_str hrest
      exact .header _ (by simp)
    · exact place_of_at?_status hrest

/-- A place of the patch is an object that only sets members, or a value that is written. -/
theorem Place.sets_or_written (h : Place s path v) :
    Holder path ∧ (∃ members, v = .obj members ∧ Sets members) ∨
      Written path ∧ ¬ v.IsObject := by
  cases h with
  | job => exact .inl ⟨.job, _, rfl, sets_statusMembers s⟩
  | header text h => exact .inr ⟨.header [] h, by rintro ⟨_, ⟨⟩⟩⟩
  | status => exact .inl ⟨.status, _, JobStatus.encode_eq_obj s, s.sets_memberList⟩
  | time text h => exact .inr ⟨.time [] h, by rintro ⟨_, ⟨⟩⟩⟩
  | roles =>
    exact .inl ⟨.roles, _, rfl, Codec.sets_entriesOf (fun r => by simp [RoleStatus.encode_eq]) _⟩
  | role role numbers =>
    exact .inl ⟨.role role, _, RoleStatus.encode_eq numbers, ⟨by simp, by simp [Json.int]⟩⟩
  | number role n h => exact .inr ⟨.number role [] h, by rintro ⟨_, ⟨⟩⟩⟩

/-! ### What stays -/

/-- Whether a document has objects where those belong that hold what is set when a status is written,
or nothing there that they would take the place of. -/
structure Holds (doc : Json) : Prop where
  isObject : doc.IsObject
  roomy : ∀ path, Holder path → Roomy (at? path doc)

/-- Whether everything in a document is as it was in another one, but for what is set when a status is
written, and for the objects that hold this. -/
def Untouched (doc after : Json) : Prop :=
  ∀ path, ¬ Written path → at? path after = at? path doc ∨
    Holder path ∧ Roomy (at? path doc) ∧ ∃ value, at? path after = some value ∧ value.IsObject

variable {doc after last : Json}

theorem Untouched.refl (doc : Json) : Untouched doc doc := fun _ _ => .inl rfl

theorem Untouched.trans (h : Untouched doc after) (h' : Untouched after last) :
    Untouched doc last := by
  intro path hpath
  rcases h' path hpath with hlast | ⟨hholder, hroomy, hlast⟩
  · rcases h path hpath with hafter | hafter
    · exact .inl (hlast.trans hafter)
    · rw [hlast]
      exact .inr hafter
  · rcases h path hpath with hafter | ⟨-, hbefore, -⟩
    · rw [hafter] at hroomy
      exact .inr ⟨hholder, hroomy, hlast⟩
    · exact .inr ⟨hholder, hbefore, hlast⟩

theorem not_written_of_holder (h : Holder path) : ¬ Written path := by
  intro hwritten
  cases hwritten with
  | header below hkey => cases h <;> exact absurd hkey (by decide)
  | time below hkey => cases h <;> exact absurd hkey (by decide)
  | number role below hkey => cases h

theorem Holds.of_untouched (h : Holds doc) (hafter : Untouched doc after) : Holds after := by
  have hroomy : ∀ path, Holder path → Roomy (at? path after) := by
    intro path hholder
    rcases hafter path (not_written_of_holder hholder) with hsame | ⟨-, -, value, hvalue, hobject⟩
    · rw [hsame]
      exact h.roomy path hholder
    · rw [hvalue]
      exact hobject.roomy
  refine ⟨?_, hroomy⟩
  rcases hafter [] (not_written_of_holder .job) with hsame | ⟨-, -, value, hvalue, hobject⟩
  · obtain rfl : after = doc := Option.some.inj hsame
    exact h.isObject
  · obtain rfl : after = value := Option.some.inj hvalue
    exact hobject

/-- Writing a status leaves everything else. -/
theorem untouched_statusPatch (h : Holds doc) (job : Job) (s : JobStatus) :
    Untouched doc (doc.mergePatch (statusPatch (job.withStatus s))) := by
  intro path hpath
  rw [statusPatch_withStatus]
  have hsets : ∀ path members, at? path (.obj (statusMembers s)) = some (.obj members) →
      Sets members := by
    intro path members hat
    rcases (place_of_at? hat).sets_or_written with ⟨-, members', heq, hsets⟩ | ⟨-, hnot⟩
    · cases heq
      exact hsets
    · exact absurd ⟨members, rfl⟩ hnot
  have hleads : ∀ path, (obj (statusMembers s)).Leads path → Holder path := by
    rintro path ⟨members, hat⟩
    rcases (place_of_at? hat).sets_or_written with ⟨hholder, -⟩ | ⟨-, hnot⟩
    · exact hholder
    · exact absurd ⟨members, rfl⟩ hnot
  have houtcome : (obj (statusMembers s)).Outcome doc path :=
    outcome hsets fun path hl => h.roomy path (hleads path hl)
  rcases houtcome with
    hsame | ⟨hl, hobject⟩ | ⟨above, below, value, rfl, hat, hvalue⟩
  · exact .inl hsame
  · exact .inr ⟨hleads path hl, h.roomy path (hleads path hl), hobject⟩
  · rcases (place_of_at? hat).sets_or_written with ⟨-, members, rfl, -⟩ | ⟨hwritten, -⟩
    · exact absurd ⟨members, rfl⟩ hvalue
    · exact absurd (hwritten.append below) hpath

end Job

/-! ### Passes -/

/-- Whether a call leaves all jobs as they are, or gives one a status. -/
def Call.OnlyUpdates (c : Call) : Prop :=
  c.SparesJobs ∨ ∃ (job : Job) (s : JobStatus), c = .writeStatus (job.withStatus s)

namespace Pass

variable {server : Server} {key : ObjectKey} {doc : Json}

/-- A call that spares jobs or writes a status leaves the document of a job, or merges that status into
it. -/
theorem document_of_update {c : Call} (hc : c.SparesJobs ∨ ∃ job, c = .writeStatus job)
    (hkey : key.kind = .job) (hdoc : server.cluster.get? key = some doc) :
    (serverStore c server).2.cluster.get? key = some doc ∨
      ∃ job, c = .writeStatus job ∧
        (serverStore c server).2.cluster.get? key = some (doc.mergePatch (statusPatch job)) := by
  rcases cluster_serverStore c server with hsame | hserved
  · exact .inl (by rw [hsame, hdoc])
  · rw [hserved]
    rcases hc with hspares | ⟨job, rfl⟩
    · exact .inl ((store_sparesJobs hspares server.cluster hkey).trans hdoc)
    · rcases store_writeStatus_cluster job server.cluster with
        hsame | ⟨ns, found, -, hfound, hwritten⟩
      · exact .inl (by rw [hsame, hdoc])
      · rw [hwritten]
        by_cases heq : key = ⟨.job, ns, job.name⟩
        · rw [← heq] at hfound ⊢
          obtain rfl : doc = found := Option.some.inj (hdoc.symm.trans hfound)
          exact .inr ⟨job, rfl, SortedMap.get?_insert_self _ _ _⟩
        · rw [SortedMap.get?_insert_ne _ heq]
          exact .inl hdoc

theorem onlyUpdates_program (settings : PassSettings) (now : Instant) (ns name : String) :
    (program settings now ns name).Within Call.OnlyUpdates fun _ => True := by
  have hload : Call.OnlyUpdates (.get .job ns name) := .inl trivial
  refine (Program.within_perform hload).bind fun found _ => ?_
  cases found with
  | none => trivial
  | some job =>
    simp only
    split
    · trivial
    · rw [ofJob_eq]
      have hprepare : (prepare settings now job).Within Call.OnlyUpdates fun _ => True :=
        within_prepare.mono (fun _ hc => .inl hc) fun _ _ => trivial
      refine hprepare.bind fun result _ => ?_
      have hwrite : Call.OnlyUpdates (.writeStatus (job.withStatus result.2)) :=
        .inr ⟨job, result.2, rfl⟩
      exact (Program.within_perform hwrite).bind fun _ _ => trivial

/-- A pass, however it ends and whatever the faults of the server, leaves all that the document of a
job has besides what is set when a status is written. -/
theorem status_write_frame (settings : PassSettings) (now : Instant) (ns name : String)
    (server : Server) (hkey : key.kind = .job) (hstored : server.cluster.get? key = some doc)
    (hholds : Job.Holds doc) :
    ∃ after, ((program settings now ns name).run serverStore server).2.cluster.get? key =
      some after ∧ Job.Untouched doc after := by
  let Kept (s : Server) : Prop := ∃ after, s.cluster.get? key = some after ∧ Job.Untouched doc after
  have hstart : Kept server := ⟨doc, hstored, .refl doc⟩
  refine ((onlyUpdates_program settings now ns name).run (fun c s hc hs => ?_) hstart).1
  obtain ⟨middle, hmiddle, huntouched⟩ := hs
  rcases hc with hspares | ⟨job, status, rfl⟩
  · rcases document_of_update (.inl hspares) hkey hmiddle with hsame | ⟨job, rfl, -⟩
    · exact ⟨middle, hsame, huntouched⟩
    · exact hspares.elim
  · rcases document_of_update (.inr ⟨_, rfl⟩) hkey hmiddle with hsame | ⟨_, heq, hpatched⟩
    · exact ⟨middle, hsame, huntouched⟩
    · cases heq
      exact ⟨_, hpatched, huntouched.trans
        (Job.untouched_statusPatch (hholds.of_untouched huntouched) job status)⟩

end Pass

namespace Sample

/-- The small job with members that the operator does not know, in its status and elsewhere. -/
def annotated : Json := .obj
  [("metadata", .obj [("name", .str "train"), ("namespace", .str "default"), ("uid", .str "u1"),
      ("note", .str "first")]),
    ("spec", .obj [("roles", .obj [("worker", .obj [("note", .str "second")])])]),
    ("status", .obj [("note", .str "third"), ("roleStatuses", .obj [("worker", .obj
      [("running", .int 0), ("completed", .int 0), ("failed", .int 0), ("note", .str "fourth")])])])]

theorem holds_annotated : Job.Holds annotated := by
  refine ⟨⟨_, rfl⟩, fun path hholder => ?_⟩
  cases hholder with
  | job => exact IsObject.roomy ⟨_, rfl⟩
  | status => exact IsObject.roomy ⟨_, rfl⟩
  | roles => exact IsObject.roomy ⟨_, rfl⟩
  | role role =>
    by_cases hrole : role = "worker"
    · subst hrole
      exact IsObject.roomy ⟨_, rfl⟩
    · have hnone : at? (Job.rolePath role) annotated = none := by
        simp [Job.rolePath, annotated, at?, Json.get?, lastMember?, Ne.symm hrole]
      rw [hnone]
      exact roomy_none

/-- The small job as the list of its parts. -/
def listed : Json := .arr
  [.obj [("name", .str "train"), ("namespace", .str "default"), ("uid", .str "u1")],
    .obj [("roles", .obj [("worker", .obj [("replicas", .int 2)])])], .null]

end Sample

namespace Pass

/-- A status is written, without an answer, into a document that has more than the operator knows. -/
theorem status_write_frame_annotated :
    let server : Server :=
      { cluster := SortedMap.insert ∅ Sample.key Sample.annotated, faults := [Sample.lost .patch .job] }
    ∃ after, ((program {} Sample.now "default" "train").run serverStore server).2.cluster.get?
        Sample.key = some after ∧ Job.Untouched Sample.annotated after ∧
      at? (Job.rolePath "worker" ++ [.member "note"]) after = some (.str "fourth") := by
  intro server
  have hkey : Sample.key.kind = .job := rfl
  have hstored : server.cluster.get? Sample.key = some Sample.annotated :=
    SortedMap.get?_insert_self _ _ _
  obtain ⟨after, hafter, huntouched⟩ :=
    status_write_frame {} Sample.now "default" "train" server hkey hstored Sample.holds_annotated
  refine ⟨after, hafter, huntouched, ?_⟩
  have hnot : ¬ Job.Written (Job.rolePath "worker" ++ [.member "note"]) := by
    rintro (⟨_, hkey⟩ | ⟨_, hkey⟩ | ⟨_, _, hkey⟩)
    · exact absurd hkey (by decide)
    · exact absurd hkey (by decide)
    · exact absurd hkey (by decide)
  rcases huntouched _ hnot with hsame | ⟨hholder, -⟩
  · rw [hsame]
    rfl
  · cases hholder

/-- A job in the form of a list is replaced as a whole: its metadata, and what it should be, are
lost. -/
theorem listed_job_replaced :
    let server : Server := { cluster := SortedMap.insert ∅ Sample.key Sample.listed }
    Job.codec.decode Sample.listed = .ok Sample.job ∧
      ∃ after, ((program {} Sample.now "default" "train").run serverStore server).2.cluster.get?
          Sample.key = some after ∧
        at? [.item 0] after = none ∧ after.get? "metadata" = none ∧
          ¬ Job.Untouched Sample.listed after := by
  intro server
  have hlost : (((program {} Sample.now "default" "train").run serverStore server).2.cluster.get?
      Sample.key).map (fun after => (at? [.item 0] after, after.get? "metadata")) =
        some (none, none) := by
    decide +kernel
  obtain ⟨after, hafter, heq⟩ := Option.map_eq_some_iff.1 hlost
  obtain ⟨hitem, hmetadata⟩ := Prod.mk.inj heq
  refine ⟨rfl, after, hafter, hitem, hmetadata, fun huntouched => ?_⟩
  have hnot : ¬ Job.Written [.item 0] := nofun
  rcases huntouched _ hnot with hsame | ⟨hholder, -⟩
  · rw [hitem] at hsame
    cases hsame
  · cases hholder

end Pass

end JobOperator
