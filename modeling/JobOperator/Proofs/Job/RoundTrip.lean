import JobOperator.Proofs.Codec.Plain
import JobOperator.Proofs.Job.Status

/-!
Jobs as texts. Whatever text a job was read from, the text that is printed for it is read as the same
job: the printed text is one of the texts of the job, the same for all of them.
-/

namespace JobOperator

@[simp] theorem GitSource.codec_lawful : GitSource.codec.Lawful :=
  Codec.strictRecord_lawful (by decide) (by simp [fields]) fun _ => rfl

@[simp] theorem ObjectStoreSource.codec_lawful : ObjectStoreSource.codec.Lawful :=
  Codec.strictRecord_lawful (by decide) (by simp [fields]) fun _ => rfl

@[simp] theorem SyncSource.codec_lawful : SyncSource.codec.Lawful :=
  Codec.strictRecord_lawful (by decide) (by simp [fields]) fun _ => rfl

@[simp] theorem Role.codec_lawful : Role.codec.Lawful :=
  Codec.strictRecord_lawful (by decide) (by simp [fields]) fun _ => rfl

@[simp] theorem JobSpec.codec_lawful : JobSpec.codec.Lawful :=
  Codec.strictRecord_lawful (by decide) (by simp [fields]) fun _ => rfl

/-- A status whose times can be written is read back. -/
theorem JobStatus.codec_lawfulAt {s : JobStatus} (h : s.Timed) : JobStatus.codec.LawfulAt s := by
  have htime {name : String} {o : Option Instant} (ho : ∀ t, o = some t → t.Valid) :
      (Field.optional name Codec.instant).LawfulAt o :=
    Field.optional_lawfulAt fun t ht => Codec.instant_lawfulAt (ho t ht)
  exact Codec.strictRecord_lawfulAt (by decide)
    ⟨htime h.start, htime h.completion, htime h.last, by simp, trivial⟩ rfl

@[simp] theorem Codec.instant_plain : Codec.instant.Plain := fun _ => .str _

@[simp] theorem GitSource.codec_plain : GitSource.codec.Plain :=
  Codec.strictRecord_plain (by simp [fields])

@[simp] theorem ObjectStoreSource.codec_plain : ObjectStoreSource.codec.Plain :=
  Codec.strictRecord_plain (by simp [fields])

@[simp] theorem SyncSource.codec_plain : SyncSource.codec.Plain :=
  Codec.strictRecord_plain (by simp [fields])

@[simp] theorem Role.codec_plain : Role.codec.Plain :=
  Codec.strictRecord_plain (by simp [fields])

@[simp] theorem JobSpec.codec_plain : JobSpec.codec.Plain :=
  Codec.strictRecord_plain (by simp [fields])

@[simp] theorem RoleStatus.codec_plain : RoleStatus.codec.Plain :=
  Codec.strictRecord_plain (by simp [fields])

@[simp] theorem JobStatus.codec_plain : JobStatus.codec.Plain :=
  Codec.strictRecord_plain (by simp [fields])

namespace Job

theorem codec_plain : codec.Plain := Codec.withHeader_plain (by simp [fields])

/-- A job whose times can be written is read back. -/
theorem codec_lawfulAt {job : Job} (h : job.statusOrEmpty.Timed) : codec.LawfulAt job := by
  have hstatus : ∀ s, job.status = some s → JobStatus.codec.LawfulAt s := by
    intro s hs
    refine JobStatus.codec_lawfulAt ?_
    rwa [statusOrEmpty, hs] at h
  exact Codec.withHeader_lawfulAt (by decide) (by decide)
    ⟨by simp, by simp, Field.optionalInPlace_lawfulAt hstatus, trivial⟩ rfl

theorem of_ofText {text : Json.Text} {job : Job} (h : ofText text = .ok job) :
    codec.decode text.root = .ok job := by
  simp only [ofText, bind, Except.bind] at h
  split at h
  · cases h
  · rename_i found hfound
    split at h
    · cases h
    · cases h
      exact hfound

/-- A job whose times can be written is read from the text that is printed for it. -/
theorem ofText_print {job : Job} (h : job.statusOrEmpty.Timed) :
    ofText (Json.Text.read (codec.encode job).print) = .ok job := by
  have hdecode : codec.decode (codec.encode job) = .ok job := (codec_lawfulAt h).roundTrips
  rw [Json.Text.read_print (codec_plain job), ofText, hdecode]
  rfl

/-- Reading and writing jobs are inverse: a job that was read from a text, in any of the spellings of
that job, is written as a document and as a text that are read as the same job, and this job is written
in the same way again. -/
theorem reads_back_rewritten {text : String} {job : Job}
    (h : ofText (Json.Text.read text) = .ok job) :
    Json.Text.read (codec.encode job).print = ⟨codec.encode job, false⟩ ∧
      ∃ again, ofText (Json.Text.read (codec.encode job).print) = .ok again ∧
        codec.decode (codec.encode job) = .ok again ∧ again = job ∧
        codec.encode again = codec.encode job := by
  have htimed := timed_of_decode (of_ofText h)
  exact ⟨Json.Text.read_print (codec_plain job), job, ofText_print htimed,
    (codec_lawfulAt htimed).roundTrips, rfl, rfl⟩

/-- The characters of a job in other spellings than its own: records as arrays, an archive under its
older key, a number for a quantity, a role that leaves out every field, an escaped letter, and a leap
second that is in the next year in UTC. -/
def spelling : List Char :=
  [ "\x7b\"spec\": [true, ", "\x7b\"worker\": [2, ", "\x7b\"spec\": ", "\x7b\"containers\": [",
    "\x7b\"name\": \"main\", ", "\"resources\": ", "\x7b\"limits\": \x7b\"cpu\": 4\x7d\x7d\x7d]\x7d\x7d, ",
    "\"AP8Q\"], ", "\"\": []\x7d, ", "\x7b\"minio\": [\"store\", \"code\", ",
    "\"a/b.tar\", \"\", \"\"]\x7d], ", "\"metadata\": ", "\x7b\"name\": \"tra\\u0131n\", ",
    "\"labels\": null, ", "\"generation\": -3\x7d, ", "\"status\": [",
    "\"2023-12-31 23:59:60.5-01:00\", ", "null]\x7d" ].flatMap String.toList

/-- The job that is spelled so. -/
def spelledJob : Job where
  metadata := { name := some "traın", generation := some (-3) }
  spec :=
    { enableGangScheduling := true
      roles := SortedMap.ofList
        [ ("worker",
            { replicas := 2
              template.spec := some
                { containers :=
                    [ { name := "main"
                        resources := some
                          { limits := some (SortedMap.ofList [("cpu", ⟨"4"⟩)]), requests := none } } ] }
              executable := [0, 255, 16] }),
          ("", {}) ]
      source := some
        { git := none
          objectStore := some
            { endpoint := "store", bucket := "code", path := "a/b.tar", accessKey := ""
              secretKey := "" } } }
  status := some { startTime := some ⟨1704070799, 1500000000⟩ }

theorem reads_back_rewritten_spelled :
    ofText (Json.Text.read (String.ofList spelling)) = .ok spelledJob ∧
      Json.Text.read (codec.encode spelledJob).print = ⟨codec.encode spelledJob, false⟩ ∧
      ∃ again, ofText (Json.Text.read (codec.encode spelledJob).print) = .ok again ∧
        codec.decode (codec.encode spelledJob) = .ok again ∧ again = spelledJob ∧
        codec.encode again = codec.encode spelledJob := by
  have hread : Json.Text.read (String.ofList spelling) =
      (Json.Reader.value []).run (Json.Token.scan spelling) := by
    simp only [Json.Text.read, String.toList_ofList]
  have hjob : ofText ((Json.Reader.value []).run (Json.Token.scan spelling)) = .ok spelledJob := by
    decide +kernel
  have h : ofText (Json.Text.read (String.ofList spelling)) = .ok spelledJob := by
    rw [hread]
    exact hjob
  exact ⟨h, reads_back_rewritten h⟩

end Job

end JobOperator
