import JobOperator.Job.Source
import JobOperator.Proofs.Job.Names
import JobOperator.Proofs.Text.Spelled

/-!
The script that fetches and unpacks an archive. The fields of the archive stand in it as they are, so a
shell reads it as the three commands that it is meant to be just if none of them holds a sign of the
shell, the keys are not empty, and the path ends in the name of a file.
-/

namespace JobOperator

/-! ### The last segment of a path -/

/-- Whether a file is the last segment of a path. -/
def LastSegment (path file : List Char) : Prop :=
  '/' ∉ file ∧ (path = file ∨ ∃ directory, path = directory ++ '/' :: file)

theorem LastSegment.isSuffix {path file : List Char} (h : LastSegment path file) : file <:+ path := by
  rcases h.2 with rfl | ⟨directory, rfl⟩
  · exact List.suffix_rfl
  · exact (List.suffix_cons '/' file).trans (List.suffix_append directory _)

/-- The last segment is empty in the empty path and after a slash. -/
theorem LastSegment.ne_nil_iff {path file : List Char} (h : LastSegment path file) :
    file ≠ [] ↔ ∃ c ∈ path.getLast?, c ≠ '/' := by
  obtain ⟨hslash, rfl | ⟨directory, rfl⟩⟩ := h
  · constructor
    · intro hne
      exact ⟨_, List.getLast?_eq_some_getLast hne, fun heq => hslash (heq ▸ List.getLast_mem hne)⟩
    · rintro ⟨c, hc, -⟩ rfl
      cases hc
  · rw [List.getLast?_append_cons]
    constructor
    · intro hne
      rw [List.getLast?_cons_of_ne_nil hne]
      exact ⟨_, List.getLast?_eq_some_getLast hne, fun heq => hslash (heq ▸ List.getLast_mem hne)⟩
    · rintro ⟨c, hc, hne⟩ rfl
      cases hc
      exact hne rfl

namespace ObjectStoreSource

theorem lastSegment_fileName (source : ObjectStoreSource) :
    LastSegment source.path.toList source.fileName.toList := by
  by_cases hslash : '/' ∈ source.path.toList
  · obtain ⟨after, before, hpath, hafter⟩ := List.eq_append_cons_of_mem (List.mem_reverse.2 hslash)
    have hpath : source.path.toList = before.reverse ++ '/' :: after.reverse := by
      rw [← List.reverse_reverse source.path.toList, hpath]
      simp
    have hsplit := Text.splitLast?_append (mt List.mem_reverse.1 hafter) before.reverse
    rw [fileName, hpath, hsplit, String.toList_ofList]
    exact ⟨mt List.mem_reverse.1 hafter, .inr ⟨_, rfl⟩⟩
  · rw [fileName, Text.splitLast?_of_notMem hslash]
    exact ⟨hslash, .inl rfl⟩

/-- The commands that are to fetch and unpack an archive, each as its words. -/
def intended (source : ObjectStoreSource) : List (List String) :=
  [["mc", "alias", "set", "minio", "http://" ++ source.endpoint ++ "/", source.accessKey,
      source.secretKey],
    ["mc", "cp", "minio/" ++ source.bucket ++ "/" ++ source.path, "./" ++ source.fileName],
    ["tar", "xvf", source.fileName]]

/-- The texts that a job gives for an archive. -/
def texts (source : ObjectStoreSource) : List String :=
  [source.endpoint, source.bucket, source.path, source.accessKey, source.secretKey]

/-- The script is the intended commands, spelled out without quotes. -/
theorem toList_script (source : ObjectStoreSource) :
    source.script.toList = Shell.spell (source.intended.map (·.map String.toList)) := by
  simp [script, Shell.spell, intended, List.intercalate_cons_cons]

open Shell in
theorem plain_intended_iff (source : ObjectStoreSource) :
    (∀ command ∈ source.intended.map (·.map String.toList),
      command ≠ [] ∧ ∀ word ∈ command, word ≠ [] ∧ Plain word) ↔
      (∀ text ∈ source.texts, Plain text.toList) ∧ source.accessKey ≠ "" ∧
        source.secretKey ≠ "" ∧ source.fileName.toList ≠ [] := by
  have hfile : Plain source.path.toList → Plain source.fileName.toList := by
    intro h
    obtain ⟨directory, hpath⟩ := source.lastSegment_fileName.isSuffix
    rw [← hpath] at h
    exact (plain_append.1 h).2.1
  simp (disch := decide) only [intended, texts, List.map_cons, List.map_nil, String.reduceToList,
    String.toList_append, List.cons_append, List.nil_append, List.append_assoc, List.mem_cons,
    List.not_mem_nil, or_false, ne_eq, forall_eq_or_imp, forall_eq, reduceCtorEq, not_false_eq_true,
    true_and, and_true, plain_cons_letter, plain_append_letter, plain_nil, String.toList_eq_nil_iff]
  constructor
  · rintro ⟨⟨hendpoint, ⟨hne, haccess⟩, hne', hsecret⟩, ⟨⟨hbucket, hpath⟩, -⟩, hfileNe, -⟩
    exact ⟨⟨hendpoint, hbucket, hpath, haccess, hsecret⟩, hne, hne', hfileNe⟩
  · rintro ⟨⟨hendpoint, hbucket, hpath, haccess, hsecret⟩, hne, hne', hfileNe⟩
    exact ⟨⟨hendpoint, ⟨hne, haccess⟩, hne', hsecret⟩, ⟨⟨hbucket, hpath⟩, hfile hpath⟩, hfileNe,
      hfile hpath⟩

/-- What a shell makes of the script of an archive. The file that it unpacks is the last segment of the
path. The script is read as the intended commands, with every field in one word as it is, just if no
field holds a sign of the shell, the keys are not empty, and the path does not end in a slash. -/
theorem script_read_iff (source : ObjectStoreSource) (images : Images) :
    ∃ script, (source.container images).command = some ["sh", "-c", script] ∧
      LastSegment source.path.toList source.fileName.toList ∧
      (Shell.commands? script.toList = some (source.intended.map (·.map String.toList)) ↔
        (∀ text ∈ source.texts, Shell.Plain text.toList) ∧ source.accessKey ≠ "" ∧
          source.secretKey ≠ "" ∧ ∃ c ∈ source.path.toList.getLast?, c ≠ '/') := by
  refine ⟨source.script, rfl, source.lastSegment_fileName, ?_⟩
  rw [toList_script, Shell.reads_spelled_iff, plain_intended_iff,
    source.lastSegment_fileName.ne_nil_iff]

end ObjectStoreSource

namespace Sample

/-- An archive whose path has a blank in it. -/
def blankPath : ObjectStoreSource :=
  { endpoint := "minio:9000", bucket := "code", path := "jobs/my app.tar", accessKey := "ak"
    secretKey := "sk" }

end Sample

namespace ObjectStoreSource

/-- Of an archive with a blank in its path, a semicolon in its key or a slash at the end of its path, the
script is not read as intended: a word is split, a command is added, or there is no file to unpack. -/
theorem script_splits_words :
    (∀ text ∈ Sample.blankPath.texts, text ≠ "") ∧
    Shell.commands? Sample.blankPath.script.toList ≠
      some (Sample.blankPath.intended.map (·.map String.toList)) ∧
    Shell.commands? Sample.blankPath.script.toList = some
      ([["mc", "alias", "set", "minio", "http://minio:9000/", "ak", "sk"],
        ["mc", "cp", "minio/code/jobs/my", "app.tar", "./my", "app.tar"],
        ["tar", "xvf", "my", "app.tar"]].map (·.map String.toList)) ∧
    Shell.commands? { Sample.blankPath with path := "jobs/", secretKey := "s;k" }.script.toList = some
      ([["mc", "alias", "set", "minio", "http://minio:9000/", "ak", "s"], ["k"],
        ["mc", "cp", "minio/code/jobs/", "./"], ["tar", "xvf"]].map (·.map String.toList)) := by
  decide +kernel

end ObjectStoreSource

end JobOperator
