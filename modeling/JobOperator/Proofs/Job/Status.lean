import JobOperator.Api.Client
import JobOperator.Proofs.Codec.Patch
import JobOperator.Proofs.Instant.Timestamp
import JobOperator.Proofs.Object.Lawful

/-!
The status of a job, written as a merge patch and read again. A patch cannot take a member away, and
of a repeated role it reaches the wrong member; all that is written is read back except the numbers
of such a role.
-/

namespace JobOperator

open Json

theorem Field.optional_read {β : Type} (name : String) (codec : Codec β) (doc : Json) :
    (Field.optional name codec).read doc = readOption codec doc := rfl

theorem Codec.instant_encode (t : Instant) : Codec.instant.encode t = .str t.text := rfl

theorem Codec.instant_lawfulAt {t : Instant} (h : t.Valid) : Codec.instant.LawfulAt t := by
  refine ⟨?_, nofun⟩
  simp only [RoundTrips, instant, Instant.text, Instant.ofText?, String.toList_ofList,
    Instant.read_write h]

theorem Codec.valid_of_decode_instant {doc : Json} {t : Instant}
    (h : Codec.instant.decode doc = .ok t) : t.Valid := by
  cases doc with
  | str text =>
    simp only [instant] at h
    cases hread : Instant.ofText? text with
    | none => rw [hread] at h; cases h
    | some t' =>
      rw [hread] at h
      cases h
      exact Instant.valid_of_read hread
  | _ => cases h

namespace RoleStatus

@[simp] theorem codec_lawful : RoleStatus.codec.Lawful :=
  Codec.strictRecord_lawful (by decide) (by simp [fields]) fun _ => rfl

/-- The members of a role's status, all of them numbers. -/
theorem encode_eq (s : RoleStatus) : codec.encode s =
    .obj [("running", .int s.running.toInt), ("completed", .int s.completed.toInt),
      ("failed", .int s.failed.toInt)] := rfl

theorem codec_merges : RoleStatus.codec.Merges := by
  intro target new h
  have ht : fields.Tidy target.membersOrNone := by
    rcases h with rfl | ⟨old, h⟩
    · exact fields.tidy_nil
    · exact Codec.tidy_of_strictRecord h
  obtain ⟨patch, hpatch⟩ : ∃ patch, patch = [("running", Json.int new.running.toInt),
    ("completed", .int new.completed.toInt), ("failed", .int new.failed.toInt)] := ⟨_, rfl⟩
  have hp : Sets patch := by
    rw [hpatch]
    exact ⟨by simp, by simp [Json.int]⟩
  have hfield {name : String} {n : Int32} (hmem : (name, Json.int n.toInt) ∈ patch)
      (hlen : ((Field.required name .int32).values target.membersOrNone).length ≤ 1) :
      (Field.required name .int32).readMembers .refused 0 none
        (mergeMembers target.membersOrNone patch) = .ok n := by
    refine Field.readMembers_of_single (Field.values_mergeMembers_of_mem rfl hp hmem hlen) ?_
    rw [mergePatch_of_ne_obj (by simp [Json.int])]
    exact (Codec.int32_lawful n).roundTrips
  have hread : fields.readMembers .refused (mergeMembers target.membersOrNone patch) =
      .ok (new.running, new.completed, new.failed, ()) := by
    obtain ⟨hrunning, hcompleted, hfailed, -⟩ := ht.single
    refine Fields.readMembers_cons.2 ⟨hfield (by simp [hpatch]) hrunning, ?_⟩
    refine Fields.readMembers_cons.2 ⟨hfield (by simp [hpatch]) hcompleted, ?_⟩
    exact Fields.readMembers_cons.2 ⟨hfield (by simp [hpatch]) hfailed, rfl⟩
  have hothers : ∀ p ∈ patch, fields.named p.1 = true ∨
      ((base p.1 target.membersOrNone).mergePatch p.2).ignoredFault = none := by
    simp [hpatch, fields, Fields.named, Field.named, Field.required]
  rw [encode_eq, mergePatch_obj, ← hpatch]
  simp only [codec, Codec.strictRecord, Fields.readObject_mergeMembers hp ht hothers hread]
  rfl

end RoleStatus

namespace JobStatus

/-- A status as a pass writes it: it has a start and a last look, and its times can be written. -/
structure Stamped (s : JobStatus) : Prop where
  start : ∃ t, s.startTime = some t ∧ t.Valid
  last : ∃ t, s.lastReconcileTime = some t ∧ t.Valid
  completion : ∀ t, s.completionTime = some t → t.Valid

/-- A status as it is read after `new` was written over `old`: its times are those of `new`, and
each role has its numbers in `new` or keeps those in `old`. -/
structure Follows (old new s : JobStatus) : Prop where
  start : s.startTime = new.startTime
  last : s.lastReconcileTime = new.lastReconcileTime
  completion : s.completionTime = new.completionTime
  roles : ∀ k, s.roleStatuses.get? k = new.roleStatuses.get? k ∨
    ∃ r, old.roleStatuses.get? k = some r ∧ s.roleStatuses.get? k = some r

/-- A status as it is read after `new` was written over `old`, which may have a time of completion that
`new` lacks: it stays. -/
structure Overwrites (old new s : JobStatus) : Prop where
  start : s.startTime = new.startTime
  last : s.lastReconcileTime = new.lastReconcileTime
  completion : s.completionTime = new.completionTime.or old.completionTime
  roles : ∀ k, s.roleStatuses.get? k = new.roleStatuses.get? k ∨
    ∃ r, old.roleStatuses.get? k = some r ∧ s.roleStatuses.get? k = some r

theorem Overwrites.follows {old new s : JobStatus} (h : Overwrites old new s)
    (hopen : old.completionTime = none) : Follows old new s := by
  refine ⟨h.start, h.last, ?_, h.roles⟩
  rw [h.completion, hopen, Option.or_none]

/-- The members of a status that has a start and a last look. -/
def stampedMembers (start last : Instant) (completion : Option Instant) (roles : StringMap RoleStatus) :
    List (String × Json) :=
  ("startTime", .str start.text) ::
    ((completion.map fun t => ("completionTime", Json.str t.text)).toList ++
      [("lastReconcileTime", .str last.text),
        ("roleStatuses", (Codec.stringMap RoleStatus.codec).encode roles)])

theorem encode_eq {s : JobStatus} {start last : Instant} (hs : s.startTime = some start)
    (hl : s.lastReconcileTime = some last) :
    codec.encode s = .obj (stampedMembers start last s.completionTime s.roleStatuses) := by
  obtain ⟨_, completion, _, roles⟩ := s
  cases hs
  cases hl
  cases completion <;> rfl

theorem sets_stampedMembers (start last : Instant) (completion : Option Instant)
    (roles : StringMap RoleStatus) : Sets (stampedMembers start last completion roles) := by
  cases completion <;>
    exact ⟨by simp [stampedMembers], by simp [stampedMembers, Codec.stringMap]⟩

/-- A document holds a status, or none and nothing is known. -/
def ReadFrom (doc : Json) (s : JobStatus) : Prop :=
  doc = .null ∧ s = {} ∨ codec.decode doc = .ok s

/-- What the members of a document say of the status that it holds. -/
structure Shows (members : List (String × Json)) (s : JobStatus) : Prop where
  tidy : fields.Tidy members
  completion : s.completionTime = none →
    (Field.optional "completionTime" .instant).readMembers .refused 0 none members = .ok none
  entries : ∀ e ∈ (base "roleStatuses" members).membersOrNone,
    ∃ r, RoleStatus.codec.decode e.2 = .ok r
  roles : ∀ k v r, lastMember? k (base "roleStatuses" members).membersOrNone = some v →
    RoleStatus.codec.decode v = .ok r → s.roleStatuses.get? k = some r

theorem shows_nil (s : JobStatus) : Shows [] s :=
  ⟨fields.tidy_nil, fun _ => rfl, fun _ he => absurd he List.not_mem_nil, nofun⟩

theorem shows_of_decode {doc : Json} {s : JobStatus} (h : codec.decode doc = .ok s) :
    Shows doc.membersOrNone s := by
  have ht := Codec.tidy_of_strictRecord h
  cases doc with
  | obj members =>
    obtain ⟨⟨start, completion, last, roles, ⟨⟩⟩, hread, rfl⟩ := Codec.strictRecord_decode_obj.1 h
    obtain ⟨-, hread⟩ := Fields.readObject_eq_ok.1 hread
    obtain ⟨-, hread⟩ := Fields.readMembers_cons.1 hread
    obtain ⟨hcompletion, hread⟩ := Fields.readMembers_cons.1 hread
    obtain ⟨-, hread⟩ := Fields.readMembers_cons.1 hread
    obtain ⟨hroles, -⟩ := Fields.readMembers_cons.1 hread
    have hmap : base "roleStatuses" members = .null ∨ ∃ ms, base "roleStatuses" members = .obj ms ∧
        (Codec.stringMap RoleStatus.codec).decode (.obj ms) = .ok roles := by
      rcases Field.readMembers_refused_iff.1 hroles with ⟨hv, -⟩ | ⟨v, hv, hd⟩
      · exact .inl (Field.base_of_values_nil hv)
      · cases v with
        | obj ms => exact .inr ⟨ms, Field.base_of_values rfl hv, hd⟩
        | _ => cases hd
    refine ⟨ht, fun hc => ?_, ?_, ?_⟩
    · obtain rfl : completion = none := hc
      exact hcompletion
    · rcases hmap with hmap | ⟨ms, hmap, hd⟩
      · rw [membersOrNone, hmap]
        exact fun _ he => absurd he List.not_mem_nil
      · rw [membersOrNone, hmap]
        exact (Codec.of_decode_stringMap hd).1
    · intro k v r hv hr
      rcases hmap with hmap | ⟨ms, hmap, hd⟩
      · rw [membersOrNone, hmap] at hv
        cases hv
      · rw [membersOrNone, hmap] at hv
        have hget := (Codec.of_decode_stringMap hd).2 k
        rw [show lastMember? k ms = some v from hv, Option.bind_some, hr] at hget
        exact hget
  | _ => exact shows_nil s

theorem ReadFrom.shows {doc : Json} {s : JobStatus} (h : ReadFrom doc s) :
    Shows doc.membersOrNone s := by
  rcases h with ⟨rfl, -⟩ | h
  · exact shows_nil s
  · exact shows_of_decode h

section

variable {members : List (String × Json)} {start last : Instant} {completion : Option Instant}
  {roles : StringMap RoleStatus}

/-- A time that is written is read back, since a text takes the place of what was there. -/
theorem readMembers_time {name : String} {t : Instant} (ht : t.Valid)
    (hmem : (name, Json.str t.text) ∈ stampedMembers start last completion roles)
    (hlen : ((Field.optional name .instant).values members).length ≤ 1) :
    (Field.optional name .instant).readMembers .refused 0 none
      (mergeMembers members (stampedMembers start last completion roles)) = .ok (some t) := by
  refine Field.readMembers_of_single
    (Field.values_mergeMembers_of_mem rfl (sets_stampedMembers _ _ _ _) hmem hlen) ?_
  rw [mergePatch_of_ne_obj (by simp), Field.optional_read, ← Codec.instant_encode]
  exact Field.readOption_encode (Codec.instant_lawfulAt ht)

/-- The time of completion that is read is the one that was written, if any, and otherwise the one that
was read before. -/
theorem readMembers_completionTime {before : Option Instant}
    (hread : (Field.optional "completionTime" .instant).readMembers .refused 0 none members =
      .ok before)
    (hlen : ((Field.optional "completionTime" .instant).values members).length ≤ 1)
    (hvalid : ∀ t, completion = some t → t.Valid) :
    (Field.optional "completionTime" .instant).readMembers .refused 0 none
      (mergeMembers members (stampedMembers start last completion roles)) =
        .ok (completion.or before) := by
  cases completion with
  | none =>
    have hnot : ∀ m ∈ stampedMembers start last none roles,
        (Field.optional "completionTime" .instant).named m.1 = false := by
      simp [stampedMembers, Field.named, Field.optional]
    exact Field.readMembers_mergeMembers_of_not_named hnot hread
  | some t => exact readMembers_time (hvalid t rfl) (by simp [stampedMembers]) hlen

end

/-- Whether a status in this form keeps its time of completion when another status is merged into it: it
has none, or has it as a member. -/
def Mergeable (doc : Json) (s : JobStatus) : Prop :=
  s.completionTime = none ∨ ∃ members, doc = .obj members

theorem ReadFrom.readMembers_completionTime {doc : Json} {s : JobStatus} (h : ReadFrom doc s)
    (hmergeable : Mergeable doc s) :
    (Field.optional "completionTime" .instant).readMembers .refused 0 none doc.membersOrNone =
      .ok s.completionTime := by
  rcases hmergeable with hopen | ⟨members, rfl⟩
  · rw [hopen]
    exact h.shows.completion hopen
  · rcases h with ⟨hnull, -⟩ | h
    · cases hnull
    · obtain ⟨⟨start, completion, last, roles, ⟨⟩⟩, hread, rfl⟩ := Codec.strictRecord_decode_obj.1 h
      obtain ⟨-, hread⟩ := Fields.readObject_eq_ok.1 hread
      obtain ⟨-, hread⟩ := Fields.readMembers_cons.1 hread
      exact (Fields.readMembers_cons.1 hread).1

theorem decode_mergePatch {doc : Json} {old : JobStatus} (h : ReadFrom doc old)
    (hc : Mergeable doc old) {new : JobStatus} (hnew : new.Stamped) :
    ∃ s, codec.decode (doc.mergePatch (codec.encode new)) = .ok s ∧ Overwrites old new s := by
  have hbefore := h.readMembers_completionTime hc
  obtain ⟨_, completion, _, newRoles⟩ := new
  obtain ⟨⟨start, rfl, hvstart⟩, ⟨last, rfl, hvlast⟩, hvcompletion⟩ := hnew
  have hshows := h.shows
  have ht := hshows.tidy
  obtain ⟨hlstart, hlcompletion, hllast, hlroles, -⟩ := ht.single
  have hwritten : ∀ r, RoleStatus.codec.encode r ≠ .null := by
    intro r hr
    cases hr
  obtain ⟨roles, hdecode, hget⟩ := Codec.decode_stringMap_mergePatch RoleStatus.codec_merges
    hwritten hshows.entries newRoles
  have hrolesread : (Field.defaulted "roleStatuses" {} (.stringMap RoleStatus.codec)).readMembers
      .refused 0 none
      (mergeMembers doc.membersOrNone (stampedMembers start last completion newRoles)) =
      .ok roles := by
    have hmem : ("roleStatuses", (Codec.stringMap RoleStatus.codec).encode newRoles) ∈
        stampedMembers start last completion newRoles := by simp [stampedMembers]
    exact Field.readMembers_of_single
      (Field.values_mergeMembers_of_mem rfl (sets_stampedMembers _ _ _ _) hmem hlroles) hdecode
  have hothers : ∀ p ∈ stampedMembers start last completion newRoles, fields.named p.1 = true ∨
      ((base p.1 doc.membersOrNone).mergePatch p.2).ignoredFault = none := by
    cases completion <;>
      simp [stampedMembers, fields, Fields.named, Field.named, Field.optional, Field.defaulted]
  have hread := Fields.readObject_mergeMembers (sets_stampedMembers _ _ _ _) ht hothers
    (Fields.readMembers_cons.2 ⟨readMembers_time hvstart (by simp [stampedMembers]) hlstart,
      Fields.readMembers_cons.2 ⟨readMembers_completionTime hbefore hlcompletion hvcompletion,
        Fields.readMembers_cons.2 ⟨readMembers_time hvlast (by simp [stampedMembers]) hllast,
          Fields.readMembers_cons.2 ⟨hrolesread, rfl⟩⟩⟩⟩)
  refine ⟨⟨some start, completion.or old.completionTime, some last, roles⟩, ?_, rfl, rfl, rfl,
    fun k => ?_⟩
  · rw [encode_eq rfl rfl, mergePatch_obj]
    simp only [codec, Codec.strictRecord, hread]
    rfl
  · rcases hget k with h | ⟨v, r, hv, hr, h⟩
    · exact .inl h
    · exact .inr ⟨r, hshows.roles k v r hv hr, h⟩

/-- Every time of a status can be written. -/
structure Timed (s : JobStatus) : Prop where
  start : ∀ t, s.startTime = some t → t.Valid
  completion : ∀ t, s.completionTime = some t → t.Valid
  last : ∀ t, s.lastReconcileTime = some t → t.Valid

theorem timed_default : Timed {} := ⟨nofun, nofun, nofun⟩

theorem valid_of_read_time {name : String} {doc : Json} {time : Option Instant}
    (h : (Field.optional name .instant).read doc = .ok time) : ∀ t, time = some t → t.Valid := by
  rintro t rfl
  rw [Field.optional_read] at h
  cases doc with
  | null => cases h
  | _ =>
    simp only [Field.readOption] at h
    obtain ⟨t', ht', heq⟩ := map_eq_ok.1 h
    cases heq
    exact Codec.valid_of_decode_instant ht'

theorem valid_of_time_member {name : String} {members : List (String × Json)}
    {time : Option Instant}
    (h : (Field.optional name .instant).readMembers .refused 0 none members = .ok time) :
    ∀ t, time = some t → t.Valid := by
  rcases Field.readMembers_refused_iff.1 h with ⟨-, hmissing⟩ | ⟨v, -, hread⟩
  · cases hmissing
    exact nofun
  · exact valid_of_read_time hread

theorem valid_of_time_item {name : String} {time : Option Instant}
    (h : (Field.optional name .instant).trailing = some time ∨
      ∃ item, (Field.optional name .instant).read item = .ok time) :
    ∀ t, time = some t → t.Valid := by
  rcases h with h | ⟨item, h⟩
  · cases h
    exact nofun
  · exact valid_of_read_time h

/-- A status that was read can be written again. -/
theorem timed_of_decode {doc : Json} {s : JobStatus} (h : codec.decode doc = .ok s) : s.Timed := by
  cases doc with
  | obj members =>
    obtain ⟨⟨start, completion, last, roles, ⟨⟩⟩, hread, rfl⟩ := Codec.strictRecord_decode_obj.1 h
    obtain ⟨-, hread⟩ := Fields.readObject_eq_ok.1 hread
    obtain ⟨hstart, hread⟩ := Fields.readMembers_cons.1 hread
    obtain ⟨hcompletion, hread⟩ := Fields.readMembers_cons.1 hread
    obtain ⟨hlast, -⟩ := Fields.readMembers_cons.1 hread
    exact ⟨valid_of_time_member hstart, valid_of_time_member hcompletion,
      valid_of_time_member hlast⟩
  | arr items =>
    obtain ⟨⟨start, completion, last, roles, ⟨⟩⟩, hread, rfl⟩ := Codec.strictRecord_decode_arr.1 h
    obtain ⟨hstart, _, hread⟩ := Fields.of_readItems_cons hread
    obtain ⟨hcompletion, _, hread⟩ := Fields.of_readItems_cons hread
    obtain ⟨hlast, -⟩ := Fields.of_readItems_cons hread
    exact ⟨valid_of_time_item hstart, valid_of_time_item hcompletion, valid_of_time_item hlast⟩
  | _ => cases h

end JobStatus

/-- The status of a job that has one, and otherwise the empty status. -/
def Job.statusOrEmpty (job : Job) : JobStatus := job.status.getD {}

namespace Job

/-- A job that is given a status. -/
def withStatus (job : Job) (s : JobStatus) : Job := { job with status := some s }

theorem readFrom_of_read {doc : Json} {status : Option JobStatus}
    (h : Field.readOption JobStatus.codec doc = .ok status) :
    JobStatus.ReadFrom doc (status.getD {}) := by
  cases doc with
  | null =>
    cases h
    exact .inl ⟨rfl, rfl⟩
  | _ =>
    simp only [Field.readOption] at h
    obtain ⟨s, hs, rfl⟩ := map_eq_ok.1 h
    exact .inr hs

theorem readFrom_status {members : List (String × Json)} {status : Option JobStatus}
    (h : (Field.optionalInPlace "status" JobStatus.codec).readMembers .refused 0 none members =
      .ok status) : JobStatus.ReadFrom (base "status" members) (status.getD {}) := by
  rcases Field.readMembers_refused_iff.1 h with ⟨hv, hmissing⟩ | ⟨v, hv, hread⟩
  · cases hmissing
    exact .inl ⟨Field.base_of_values_nil hv, rfl⟩
  · have hbase : base "status" members = v := Field.base_of_values rfl hv
    rw [hbase]
    exact readFrom_of_read hread

theorem decode_obj {members : List (String × Json)} {job : Job} :
    codec.decode (.obj members) = .ok job ↔
      fields.readObject .refused members = .ok (job.metadata, job.spec, job.status, ()) := by
  obtain ⟨metadata, spec, status⟩ := job
  constructor
  · intro h
    change (fields.readObject .refused members).map _ = _ at h
    obtain ⟨⟨_, _, _, ⟨⟩⟩, hread, heq⟩ := map_eq_ok.1 h
    cases heq
    exact hread
  · intro h
    change (fields.readObject .refused members).map _ = _
    rw [h]
    rfl

/-- The status of a job that was read can be written again. -/
theorem timed_of_decode {doc : Json} {job : Job} (h : codec.decode doc = .ok job) :
    job.statusOrEmpty.Timed := by
  have hfrom : ∃ doc', JobStatus.ReadFrom doc' job.statusOrEmpty := by
    cases doc with
    | obj members =>
      obtain ⟨-, hread⟩ := Fields.readObject_eq_ok.1 (decode_obj.1 h)
      obtain ⟨-, hread⟩ := Fields.readMembers_cons.1 hread
      obtain ⟨-, hread⟩ := Fields.readMembers_cons.1 hread
      obtain ⟨hstatus, -⟩ := Fields.readMembers_cons.1 hread
      exact ⟨_, readFrom_status hstatus⟩
    | arr items =>
      change (fields.readItems items).map _ = _ at h
      obtain ⟨⟨metadata, spec, status, ⟨⟩⟩, hread, rfl⟩ := map_eq_ok.1 h
      obtain ⟨-, _, hread⟩ := Fields.of_readItems_cons hread
      obtain ⟨-, _, hread⟩ := Fields.of_readItems_cons hread
      obtain ⟨hstatus, -⟩ := Fields.of_readItems_cons hread
      rcases hstatus with hstatus | ⟨item, hstatus⟩
      · cases hstatus
      · exact ⟨item, readFrom_of_read hstatus⟩
    | _ => cases h
  obtain ⟨doc', ⟨-, heq⟩ | hdecode⟩ := hfrom
  · rw [heq]
    exact JobStatus.timed_default
  · exact JobStatus.timed_of_decode hdecode

/-- The members of the patch that gives a job a status. -/
def statusMembers (s : JobStatus) : List (String × Json) :=
  [("apiVersion", .str apiVersion), ("kind", .str kind), ("status", JobStatus.codec.encode s)]

theorem statusPatch_withStatus (job : Job) (s : JobStatus) :
    Client.statusPatch (job.withStatus s) = .obj (statusMembers s) := rfl

theorem sets_statusMembers (s : JobStatus) : Sets (statusMembers s) :=
  ⟨by simp [statusMembers], by simp [statusMembers, JobStatus.codec, Codec.strictRecord]⟩

/-- A job in object form takes a status: it is the same job with the times of that status. -/
theorem decode_statusPatch_of_mergeable {members : List (String × Json)} {job : Job}
    (written : Job) (h : Job.codec.decode (.obj members) = .ok job)
    (hc : JobStatus.Mergeable (base "status" members) job.statusOrEmpty) {new : JobStatus}
    (hnew : new.Stamped) :
    ∃ patched s, (Json.obj members).mergePatch (Client.statusPatch (written.withStatus new)) =
        .obj patched ∧
      Job.codec.decode (.obj patched) = .ok (job.withStatus s) ∧
      (∃ ms, base "status" patched = .obj ms) ∧
      JobStatus.Overwrites job.statusOrEmpty new s := by
  rw [decode_obj] at h
  have ht := Fields.tidy_of_readObject h
  have hp := sets_statusMembers new
  obtain ⟨-, hread⟩ := Fields.readObject_eq_ok.1 h
  obtain ⟨hmetadata, hread⟩ := Fields.readMembers_cons.1 hread
  obtain ⟨hspec, hread⟩ := Fields.readMembers_cons.1 hread
  obtain ⟨hstatus, -⟩ := Fields.readMembers_cons.1 hread
  obtain ⟨s, hs, hoverwrites⟩ := JobStatus.decode_mergePatch (readFrom_status hstatus) hc hnew
  have hnotMetadata : ∀ m ∈ statusMembers new,
      (Field.required "metadata" ObjectMeta.codec).named m.1 = false := by
    simp [statusMembers, Field.named, Field.required]
  have hnotSpec : ∀ m ∈ statusMembers new,
      (Field.required "spec" JobSpec.codec).named m.1 = false := by
    simp [statusMembers, Field.named, Field.required]
  have hmem : ("status", JobStatus.codec.encode new) ∈ statusMembers new := by
    simp [statusMembers]
  have hvalues := Field.values_mergeMembers_of_mem rfl hp hmem (Field.values_length_le hstatus)
  obtain ⟨ms, hms⟩ : ∃ ms, JobStatus.codec.encode new = .obj ms := ⟨_, rfl⟩
  rw [hms, mergePatch_obj] at hs hvalues
  have hpatched : (Field.optionalInPlace "status" JobStatus.codec).readMembers .refused 0 none
      (mergeMembers members (statusMembers new)) = .ok (some s) := by
    refine Field.readMembers_of_single hvalues ?_
    change (JobStatus.codec.decode _).map some = _
    exact map_eq_ok.2 ⟨s, hs, rfl⟩
  have hothers : ∀ p ∈ statusMembers new, fields.named p.1 = true ∨
      ((base p.1 members).mergePatch p.2).ignoredFault = none := by
    simp [statusMembers, fields, Fields.named, Field.named, Field.required, Field.optionalInPlace,
      mergePatch_of_ne_obj, ignoredFault, skipFault]
  refine ⟨mergeMembers members (statusMembers new), s, ?_, ?_, ⟨_, Field.base_of_values rfl hvalues⟩,
    hoverwrites⟩
  · rw [statusPatch_withStatus, mergePatch_obj, membersOrNone]
  · rw [decode_obj]
    exact Fields.readObject_mergeMembers hp ht hothers (Fields.readMembers_cons.2
      ⟨Field.readMembers_mergeMembers_of_not_named hnotMetadata hmetadata,
        Fields.readMembers_cons.2
          ⟨Field.readMembers_mergeMembers_of_not_named hnotSpec hspec,
            Fields.readMembers_cons.2 ⟨hpatched, rfl⟩⟩⟩)

/-- A job in object form that is not complete takes a status. -/
theorem decode_statusPatch {members : List (String × Json)} {job : Job}
    (h : Job.codec.decode (.obj members) = .ok job)
    (hc : job.statusOrEmpty.completionTime = none) {new : JobStatus} (hnew : new.Stamped) :
    ∃ s, Job.codec.decode ((Json.obj members).mergePatch
        (Client.statusPatch (job.withStatus new))) = .ok (job.withStatus s) ∧
      JobStatus.Follows job.statusOrEmpty new s := by
  obtain ⟨patched, s, hpatched, hreads, -, hoverwrites⟩ :=
    decode_statusPatch_of_mergeable job h (.inl hc) hnew
  exact ⟨s, by rw [hpatched, hreads], hoverwrites.follows hc⟩

/-- Whether a document is an object without metadata. -/
def Headless (doc : Json) : Prop :=
  ∃ members, doc = .obj members ∧ (Field.required "metadata" ObjectMeta.codec).values members = []

theorem Headless.unreadable {doc : Json} (h : Headless doc) (job : Job) :
    codec.decode doc ≠ .ok job := by
  obtain ⟨members, rfl, hvalues⟩ := h
  intro hread
  obtain ⟨-, hread⟩ := Fields.readObject_eq_ok.1 (decode_obj.1 hread)
  obtain ⟨hmetadata, -⟩ := Fields.readMembers_cons.1 hread
  rw [Field.readMembers_refused_iff, hvalues] at hmetadata
  rcases hmetadata with ⟨-, h⟩ | ⟨v, hv, -⟩
  · cases h
  · cases hv

/-- A document has no metadata after it has taken a status if it had none as an object, or was no
object. -/
theorem headless_statusPatch {doc : Json} (h : Headless doc ∨ ∀ members, doc ≠ .obj members)
    (job : Job) (new : JobStatus) :
    Headless (doc.mergePatch (Client.statusPatch (job.withStatus new))) := by
  have hmembers : (Field.required "metadata" ObjectMeta.codec).values doc.membersOrNone = [] := by
    rcases h with ⟨members, rfl, hvalues⟩ | hother
    · exact hvalues
    · cases doc with
      | obj members => exact absurd rfl (hother members)
      | _ => rfl
  refine ⟨_, by rw [statusPatch_withStatus, mergePatch_obj], ?_⟩
  rw [Field.values_mergeMembers_of_not_named (by simp [statusMembers, Field.named, Field.required])]
  exact hmembers

/-- A document in another form holds no job any more once it has taken a status. -/
theorem statusPatch_unreadable {doc : Json} (h : ∀ members, doc ≠ .obj members) (job : Job)
    (new : JobStatus) (job' : Job) :
    codec.decode (doc.mergePatch (Client.statusPatch (job.withStatus new))) ≠ .ok job' :=
  (headless_statusPatch (.inr h) job new).unreadable job'

end Job

end JobOperator
