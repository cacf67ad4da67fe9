import JobOperator.Proofs.Config.Draft
import JobOperator.Proofs.Store.Program
import Mathlib.Tactic.MkIffOfInductiveProp

/-!
What comes of the settings of a file. They are used if the port is one, and neither the namespace nor an
image is blank where it is given; then the configuration has what stands in the file as it stands there.
Otherwise the first setting that cannot be used is reported.
-/

namespace JobOperator

/-- The image that settings have for a key. -/
def ImageSettings.given (settings : ImageSettings) : ImageKey → Option String
  | .gitSync => settings.gitSync
  | .objectStore => settings.objectStore
  | .dependencyInstaller => settings.dependencyInstaller

/-- The image for a key. -/
def Images.get (images : Images) : ImageKey → String
  | .gitSync => images.gitSync
  | .objectStore => images.objectStore
  | .dependencyInstaller => images.dependencyInstaller

theorem ImageKey.forall_iff {P : ImageKey → Prop} :
    (∀ key, P key) ↔ P .gitSync ∧ P .objectStore ∧ P .dependencyInstaller := by
  constructor
  · exact fun h => ⟨h _, h _, h _⟩
  · rintro ⟨hgit, hobject, hinstaller⟩ key
    cases key <;> assumption

/-- The setting that an error is about. -/
def SettingsError.setting : SettingsError → String
  | portOutOfRange _ => "servicePort"
  | emptyNamespace => "namespace"
  | emptyImage key => key.name

/-- The words of an error name the setting that it is about. -/
theorem SettingsError.setting_in_message (e : SettingsError) :
    ∃ before after, e.message = before ++ e.setting ++ after := by
  cases e with
  | portOutOfRange port =>
    refine ⟨"", " must be between 1 and 65535, got " ++ String.ofList (Decimal.ofInt port.toInt), ?_⟩
    rw [← String.append_assoc]
    rfl
  | emptyNamespace => exact ⟨"", " must not be empty when set", rfl⟩
  | emptyImage key => exact ⟨"Image '", "' must not be empty", rfl⟩

namespace Settings

variable {settings : Settings}

/-- Whether settings can be used. -/
@[mk_iff]
structure Usable (settings : Settings) : Prop where
  servicePort : 1 ≤ settings.servicePort.toInt ∧ settings.servicePort.toInt ≤ 65535
  «namespace» : ∀ given ∈ settings.namespace, Text.allBlank given = false
  images : ∀ key, ∀ given ∈ settings.images.given key, Text.allBlank given = false

/-- Whether settings break the condition that an error is about. -/
def Breaks (settings : Settings) : SettingsError → Prop
  | .portOutOfRange port =>
    port = settings.servicePort ∧ ¬ (1 ≤ port.toInt ∧ port.toInt ≤ 65535)
  | .emptyNamespace => ∃ given ∈ settings.namespace, Text.allBlank given = true
  | .emptyImage key => ∃ given ∈ settings.images.given key, Text.allBlank given = true

instance (settings : Settings) : DecidablePred settings.Breaks
  | .portOutOfRange _ => inferInstanceAs (Decidable (_ ∧ _))
  | .emptyNamespace => inferInstanceAs (Decidable (∃ given ∈ settings.namespace, _))
  | .emptyImage key => inferInstanceAs (Decidable (∃ given ∈ settings.images.given key, _))

/-- The errors that settings can have, in the order in which they are looked for. -/
def possibleErrors (settings : Settings) : List SettingsError :=
  [ .portOutOfRange settings.servicePort, .emptyNamespace, .emptyImage .gitSync,
    .emptyImage .objectStore, .emptyImage .dependencyInstaller ]

/-- Whether an error is about the first of the conditions that settings break. -/
def Reports (settings : Settings) (e : SettingsError) : Prop :=
  ∃ before after, settings.possibleErrors = before ++ e :: after ∧ settings.Breaks e ∧
    ∀ earlier ∈ before, ¬ settings.Breaks earlier

/-- The configuration of settings that can be used. -/
def config (settings : Settings) : Config :=
  let usual : Images := {}
  { «namespace» := settings.namespace
    images :=
      { gitSync := settings.images.gitSync.getD usual.gitSync
        objectStore := settings.images.objectStore.getD usual.objectStore
        dependencyInstaller :=
          settings.images.dependencyInstaller.getD usual.dependencyInstaller }
    servicePort := settings.servicePort.toInt32
    requeue := settings.requeue }

theorem breaks_portOutOfRange_iff :
    settings.Breaks (.portOutOfRange settings.servicePort) ↔
      ¬ (1 ≤ settings.servicePort ∧ settings.servicePort ≤ 65535) := by
  rw [Int64.le_iff_toInt_le, Int64.le_iff_toInt_le]
  exact and_iff_right rfl

theorem breaks_emptyNamespace_iff :
    settings.Breaks .emptyNamespace ↔ settings.namespace.any Text.allBlank = true :=
  (Option.any_eq_true _ _).symm

theorem image_bind {α : Type} (settings : Settings) (key : ImageKey) (usual : String)
    (next : String → Except SettingsError α) :
    (image key usual (settings.images.given key) >>= next) =
      if settings.Breaks (.emptyImage key) then .error (.emptyImage key)
      else next ((settings.images.given key).getD usual) := by
  cases hgiven : settings.images.given key with
  | none =>
    have hbreaks : ¬ settings.Breaks (.emptyImage key) := by simp [Breaks, hgiven]
    rw [if_neg hbreaks]
    rfl
  | some given =>
    have hbreaks : settings.Breaks (.emptyImage key) ↔ Text.allBlank given = true := by
      simp [Breaks, hgiven]
    simp only [hbreaks, image]
    split <;> rfl

/-- What comes of settings if these errors are looked for. -/
def outcome (settings : Settings) (errors : List SettingsError) : Except SettingsError Config :=
  match errors.find? (settings.Breaks ·) with
  | some e => .error e
  | none => .ok settings.config

theorem outcome_nil (settings : Settings) : settings.outcome [] = .ok settings.config := rfl

theorem outcome_cons (settings : Settings) (e : SettingsError) (rest : List SettingsError) :
    settings.outcome (e :: rest) = if settings.Breaks e then .error e else settings.outcome rest := by
  by_cases h : settings.Breaks e <;> simp [outcome, h]

/-- The settings are checked by looking for the first of the errors. -/
theorem check_eq (settings : Settings) : settings.check = settings.outcome settings.possibleErrors := by
  have hgit := @image_bind Config settings .gitSync
  have hobject := @image_bind Config settings .objectStore
  have hinstaller := @image_bind Config settings .dependencyInstaller
  simp only [ImageSettings.given] at hgit hobject hinstaller
  simp only [check, checkImages, ← breaks_portOutOfRange_iff, ← breaks_emptyNamespace_iff, bind_assoc,
    pure_bind, hgit, hobject, hinstaller, possibleErrors, outcome_cons, outcome_nil]
  rfl

theorem usable_iff_forall :
    settings.Usable ↔ ∀ e ∈ settings.possibleErrors, ¬ settings.Breaks e := by
  simp only [usable_iff, ImageKey.forall_iff, possibleErrors, List.forall_mem_cons, List.not_mem_nil,
    false_implies, implies_true, and_true, Breaks, true_and, Decidable.not_not]
  simp only [not_exists, not_and, Bool.not_eq_true]

instance (settings : Settings) : Decidable settings.Usable :=
  decidable_of_iff _ usable_iff_forall.symm

theorem check_eq_ok_iff {config : Config} :
    settings.check = .ok config ↔ settings.Usable ∧ config = settings.config := by
  rw [check_eq, outcome, usable_iff_forall]
  cases hfind : settings.possibleErrors.find? (settings.Breaks ·) with
  | none =>
    simp only [List.find?_eq_none, decide_eq_true_eq] at hfind
    rw [Except.ok.injEq, and_iff_right hfind, eq_comm]
  | some e =>
    have hbreaks : settings.Breaks e := by simpa using List.find?_some hfind
    constructor
    · intro h
      cases h
    · rintro ⟨husable, -⟩
      exact absurd hbreaks (husable e (List.mem_of_find?_eq_some hfind))

theorem check_eq_error_iff {e : SettingsError} : settings.check = .error e ↔ settings.Reports e := by
  have hfirst : settings.possibleErrors.find? (settings.Breaks ·) = some e ↔ settings.Reports e := by
    simp only [List.find?_eq_some_iff_append, Reports, decide_eq_true_eq, Bool.not_eq_true',
      decide_eq_false_iff_not]
    constructor
    · rintro ⟨hbreaks, before, after, herrors, hbefore⟩
      exact ⟨before, after, herrors, hbreaks, hbefore⟩
    · rintro ⟨before, after, herrors, hbreaks, hbefore⟩
      exact ⟨hbreaks, before, after, herrors, hbefore⟩
  rw [check_eq, outcome, ← hfirst]
  cases settings.possibleErrors.find? (settings.Breaks ·) with
  | none => simp
  | some first => simp

/-- Of two settings that cannot be used, the one that is looked at first is reported. -/
example : check { «namespace» := some "", servicePort := 70000 } = .error (.portOutOfRange 70000) := rfl

/-- The port of settings that can be used has its value in fewer bits. -/
theorem toInt_servicePort_config (h : settings.Usable) :
    settings.config.servicePort.toInt = settings.servicePort.toInt := by
  obtain ⟨hlow, hhigh⟩ := h.servicePort
  show settings.servicePort.toInt32.toInt = _
  rw [Int64.toInt_toInt32]
  apply Int.bmod_eq_of_le <;> omega

/-- A mapping without entries gives what the absence of a mapping gives. -/
theorem ofDocument?_of_empty {document : Yaml.Document}
    (h : document.resolve document.root = .mapping []) : ofDocument? document = some {} := by
  have hmembers : document.members? document.root = some [] := by
    simp only [Yaml.Document.members?, Yaml.Document.entries?, h]
    rfl
  simp only [ofDocument?, hmembers]
  rfl

end Settings

namespace Config

/-- Whether a configuration has what stands in a file as it stands there, and has the usual for all that is
missing there. -/
structure Keeps (config : Config) (draft : Draft) : Prop where
  «namespace» : config.namespace = draft.namespace
  images : ∀ key,
    config.images.get key = (draft.images.given key).getD (({} : Config).images.get key)
  servicePort : config.servicePort.toInt =
    (draft.servicePort.map Int64.toInt).getD ({} : Config).servicePort.toInt
  running : config.requeue.running = draft.running.getD ({} : Config).requeue.running
  error : config.requeue.error = draft.error.getD ({} : Config).requeue.error

theorem keeps_config {draft : Draft} (h : (draft.over {}).Usable) :
    (draft.over {}).config.Keeps draft where
  «namespace» := rfl
  images key := by cases key <;> rfl
  servicePort := by
    rw [Settings.toInt_servicePort_config h, Draft.over]
    cases draft.servicePort <;> rfl
  running := rfl
  error := rfl

variable {text : String} {settings : Settings}

theorem ofText_eq_ok_iff (h : Settings.ofText? text = some settings) {config : Config} :
    ofText text = .ok config ↔ settings.Usable ∧ config = settings.config := by
  simp only [ofText, h, mapError_eq_ok, Settings.check_eq_ok_iff]

theorem ofText_eq_error_iff (h : Settings.ofText? text = some settings) {e : ConfigError} :
    ofText text = .error e ↔ ∃ cause, e = .invalid cause ∧ settings.Reports cause := by
  simp only [ofText, h, mapError_eq_error, Settings.check_eq_error_iff]

/-- A file with a text gives what the text gives. -/
theorem ofFile_toUTF8 (text : String) : ofFile (some text.toUTF8) = ofText text := by
  have hvalid : text.toUTF8.IsValidUTF8 := text.isValidUTF8
  have hread : String.fromUTF8? text.toUTF8 = some text := by
    rw [String.fromUTF8?, dif_pos hvalid]
    rfl
  simp only [ofFile, hread]

/-- A text without settings gives what a mapping without entries gives. -/
theorem ofText_blank (hblank : Text.allBlank text = true) {other : String} {document : Yaml.Document}
    (hother : Yaml.Document.ofText? other = some (some document))
    (hroot : document.resolve document.root = .mapping []) : ofText text = ofText other := by
  have hsettings : Settings.ofText? other = some {} := by
    unfold Settings.ofText?
    split
    · rfl
    · simp only [hother, Settings.ofDocument?_of_empty hroot]
  rw [ofText, ofText, hsettings, Settings.ofText?, if_pos hblank]

/-- What comes of a text that settings can be read from. It is loaded if they can be used: then the
configuration keeps what stands in the text. If not, the error names the first setting that cannot be
used. -/
theorem loads_what_stands (h : Settings.ofText? text = some settings) :
    ofFile (some text.toUTF8) = ofText text ∧
    ((∃ config, ofText text = .ok config) ↔ settings.Usable) ∧
    (∃ draft : Draft, draft.StandsIn text) ∧
    (∀ config, ofText text = .ok config →
      config.servicePort.toInt = settings.servicePort.toInt ∧
      ∀ draft : Draft, draft.StandsIn text → config.Keeps draft) ∧
    (∀ e, ofText text = .error e ↔
      ∃ cause, e = .invalid cause ∧ settings.Reports cause ∧
        ∃ before after, cause.message = before ++ cause.setting ++ after) ∧
    (Text.allBlank text = true →
      ∀ other document, Yaml.Document.ofText? other = some (some document) →
        document.resolve document.root = .mapping [] → ofText text = ofText other) := by
  refine ⟨ofFile_toUTF8 text, ?_, ?_, fun config hconfig => ?_, fun e => ?_, ?_⟩
  · simp only [ofText_eq_ok_iff h, exists_and_left, exists_eq, and_true]
  · obtain ⟨draft, hdraft, -⟩ := Settings.ofText?_eq_some_iff.1 h
    exact ⟨draft, hdraft⟩
  · obtain ⟨husable, rfl⟩ := (ofText_eq_ok_iff h).1 hconfig
    refine ⟨Settings.toInt_servicePort_config husable, fun draft hdraft => ?_⟩
    have hsettings := Settings.ofText?_eq_some_iff.2 ⟨draft, hdraft, rfl⟩
    rw [h, Option.some.injEq] at hsettings
    subst hsettings
    exact keeps_config husable
  · simp only [ofText_eq_error_iff h, SettingsError.setting_in_message, and_true]
  · intro hblank other document hother hroot
    exact ofText_blank hblank hother hroot

end Config

namespace Sample

/-- A file with some of the settings. -/
def someSettings : String :=
  "namespace: training\nservicePort: 9000\nimages:\n  gitSync: registry.local/git-sync:v4\n" ++
    "requeue:\n  error: 5s\n"

/-- What stands in the file. -/
def draft : Draft where
  «namespace» := some "training"
  images := { gitSync := some "registry.local/git-sync:v4" }
  servicePort := some 9000
  error := some { nanos := 5000000000 }

end Sample

namespace Config

/-- A file with some of the settings, and one that is blank. -/
theorem loads_what_stands_some :
    Settings.ofText? Sample.someSettings = some (Sample.draft.over {}) ∧
    (Sample.draft.over {}).Usable ∧
    (∃ config draft, ofText Sample.someSettings = .ok config ∧ draft.StandsIn Sample.someSettings ∧
      config.Keeps draft ∧ config.servicePort.toInt = 9000) ∧
    Settings.ofText? " \n" = some {} ∧ Text.allBlank " \n" = true ∧ ofText " \n" = ofText "\x7b\x7d" := by
  have hsettings : Settings.ofText? Sample.someSettings = some (Sample.draft.over {}) := by
    decide +kernel
  have husable : (Sample.draft.over {}).Usable := by decide +kernel
  have hnone : Settings.ofText? " \n" = some {} := by decide +kernel
  have hblank : Text.allBlank " \n" = true := by decide +kernel
  have hmapping : ∃ document, Yaml.Document.ofText? "\x7b\x7d" = some (some document) ∧
      document.resolve document.root = .mapping [] := ⟨_, rfl, rfl⟩
  obtain ⟨-, hok, ⟨draft, hdraft⟩, hkept, -, -⟩ := loads_what_stands hsettings
  obtain ⟨config, hconfig⟩ := hok.2 husable
  obtain ⟨hport, hkeeps⟩ := hkept config hconfig
  obtain ⟨-, -, -, -, -, hempty⟩ := loads_what_stands hnone
  obtain ⟨document, hdocument, hroot⟩ := hmapping
  refine ⟨hsettings, husable, ⟨config, draft, hconfig, hdraft, hkeeps draft hdraft, ?_⟩, hnone, hblank,
    hempty hblank _ document hdocument hroot⟩
  rw [hport]
  rfl

end Config

end JobOperator
