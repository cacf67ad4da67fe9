import JobOperator.Config.Reader

/-!
What stands in a file, before the usual settings take the place of the missing ones. Each setting is read
from the only member with its key, and a section that is missing is one without members, so a setting
does not depend on the others.
-/

namespace JobOperator

/-- What stands in a file, of which everything may be missing. -/
structure Draft where
  «namespace» : Option String := none
  images : ImageSettings := {}
  servicePort : Option Int64 := none
  running : Option Duration := none
  error : Option Duration := none

/-- The settings of a file: what stands in it, and the usual for what is missing. -/
def Draft.over (usual : Settings) (draft : Draft) : Settings where
  «namespace» := draft.namespace
  images := draft.images
  servicePort := draft.servicePort.getD usual.servicePort
  requeue :=
    { running := draft.running.getD usual.requeue.running
      error := draft.error.getD usual.requeue.error }

namespace Yaml

/-- What stands under a key: nothing if no member has it, or what is read from the only one that has. -/
inductive Under {α : Type} (members : List (String × Node)) (key : String) (read : Node → Option α) :
    Option α → Prop where
  | missing (h : ∀ member ∈ members, member.1 ≠ key) : Under members key read none
  | only {before after : List (String × Node)} {node : Node} {value : α}
      (hmembers : members = before ++ (key, node) :: after)
      (hothers : ∀ member ∈ before ++ after, member.1 ≠ key)
      (hread : read node = some value) : Under members key read (some value)

namespace Document

/-- The text under a key. One that means the absence of a value is as good as none. -/
def TextUnder (document : Document) (members : List (String × Node)) (key : String)
    (text : Option String) : Prop :=
  ∃ given, Under members key document.optionalText? given ∧ text = given.getD none

/-- The members of the section under a key. -/
def SectionUnder (document : Document) (members : List (String × Node)) (key : String)
    (inner : List (String × Node)) : Prop :=
  ∃ given, Under members key document.members? given ∧ inner = given.getD []

/-- The images in the members of their section. -/
structure ImagesIn (document : Document) (members : List (String × Node)) (images : ImageSettings) :
    Prop where
  gitSync : document.TextUnder members "gitSync" images.gitSync
  objectStore : document.TextUnder members "objectStore" images.objectStore
  dependencyInstaller : document.TextUnder members "dependencyInstaller" images.dependencyInstaller

/-- The delays in the members of their section. -/
structure DelaysIn (document : Document) (members : List (String × Node))
    (running error : Option Duration) : Prop where
  running : Under members "running" document.duration? running
  error : Under members "error" document.duration? error

/-- Whether a draft is what stands in a document. -/
def Gives (document : Document) (draft : Draft) : Prop :=
  ∃ members images requeue,
    document.members? document.root = some members ∧
    document.TextUnder members "namespace" draft.namespace ∧
    document.SectionUnder members "images" images ∧ document.ImagesIn images draft.images ∧
    Under members "servicePort" document.int64? draft.servicePort ∧
    document.SectionUnder members "requeue" requeue ∧
    document.DelaysIn requeue draft.running draft.error

end Document

end Yaml

/-- Whether a draft is what stands in a text. Nothing stands in a blank one, nor in one without a
document. -/
inductive Draft.StandsIn (text : String) : Draft → Prop where
  | blank (h : Text.allBlank text = true) : StandsIn text {}
  | bare (h : Text.allBlank text = false) (hbare : Yaml.Document.ofText? text = some none) :
      StandsIn text {}
  | document {document : Yaml.Document} {draft : Draft} (h : Text.allBlank text = false)
      (hdocument : Yaml.Document.ofText? text = some (some document))
      (hgives : document.Gives draft) : StandsIn text draft

/-! ### Members -/

namespace Yaml

variable {α : Type} {members : List (String × Node)} {key : String} {read : Node → Option α}

theorem under_nil_iff {given : Option α} : Under [] key read given ↔ given = none := by
  constructor
  · intro h
    cases h with
    | missing => rfl
    | only hmembers => simp at hmembers
  · rintro rfl
    exact .missing fun member hmember => absurd hmember List.not_mem_nil

/-- A member is read from what stands under its key, and has its usual value if nothing does. -/
theorem Document.member?_eq_some_iff {usual value : α} :
    member? members key usual read = some value ↔
      ∃ given, Under members key read given ∧ value = given.getD usual := by
  constructor
  · intro h
    unfold member? at h
    split at h
    · next hnil =>
      rw [List.filter_eq_nil_iff] at hnil
      refine ⟨none, .missing fun member hmember heq => ?_, (Option.some.inj h).symm⟩
      exact hnil member hmember (beq_iff_eq.2 heq)
    · next found node hsingle =>
      obtain ⟨before, after, hmembers, hbefore, hkey, hafter⟩ := List.filter_eq_cons_iff.1 hsingle
      rw [List.filter_eq_nil_iff] at hafter
      obtain rfl : found = key := beq_iff_eq.1 hkey
      refine ⟨some value, .only hmembers (fun member hmember heq => ?_) h, rfl⟩
      rcases List.mem_append.1 hmember with hmember | hmember
      · exact hbefore member hmember (beq_iff_eq.2 heq)
      · exact hafter member hmember (beq_iff_eq.2 heq)
    · cases h
  · rintro ⟨given, hgiven, rfl⟩
    cases hgiven with
    | missing h =>
      have hnil : members.filter (·.1 == key) = [] := by
        rw [List.filter_eq_nil_iff]
        intro member hmember heq
        exact h member hmember (beq_iff_eq.1 heq)
      simp only [member?, hnil, Option.getD_none]
    | @only before after node value hmembers hothers hread =>
      have hsingle : members.filter (·.1 == key) = [(key, node)] := by
        rw [hmembers, List.filter_eq_cons_iff]
        refine ⟨before, after, rfl, fun member hmember heq => ?_, beq_self_eq_true key, ?_⟩
        · exact hothers member (List.mem_append_left _ hmember) (beq_iff_eq.1 heq)
        · rw [List.filter_eq_nil_iff]
          intro member hmember heq
          exact hothers member (List.mem_append_right _ hmember) (beq_iff_eq.1 heq)
      simp only [member?, hsingle, hread, Option.getD_some]

namespace Document

variable {document : Document}

/-- A section that is missing is read like one without members. -/
theorem member?_section_iff {P : List (String × Node) → α → Prop} {usual value : α}
    (hread : ∀ node value, read node = some value ↔
      ∃ inner, document.members? node = some inner ∧ P inner value)
    (husual : ∀ value, P [] value ↔ value = usual) :
    member? members key usual read = some value ↔
      ∃ inner, document.SectionUnder members key inner ∧ P inner value := by
  rw [member?_eq_some_iff]
  constructor
  · rintro ⟨given, hgiven, rfl⟩
    cases hgiven with
    | missing h => exact ⟨[], ⟨none, .missing h, rfl⟩, (husual usual).2 rfl⟩
    | only hmembers hothers h =>
      obtain ⟨inner, hinner, hvalue⟩ := (hread _ _).1 h
      exact ⟨inner, ⟨some inner, .only hmembers hothers hinner, rfl⟩, hvalue⟩
  · rintro ⟨inner, ⟨given, hgiven, rfl⟩, hvalue⟩
    cases hgiven with
    | missing h => exact ⟨none, .missing h, (husual value).1 hvalue⟩
    | only hmembers hothers hinner =>
      exact ⟨some value, .only hmembers hothers ((hread _ _).2 ⟨_, hinner, hvalue⟩), rfl⟩

theorem textUnder_nil_iff {text : Option String} :
    document.TextUnder [] key text ↔ text = none := by
  simp [TextUnder, under_nil_iff]

theorem imagesIn_nil_iff (images : ImageSettings) :
    document.ImagesIn [] images ↔ images = {} := by
  constructor
  · rintro ⟨hgit, hobject, hinstaller⟩
    obtain ⟨gitSync, objectStore, dependencyInstaller⟩ := images
    obtain rfl := textUnder_nil_iff.1 hgit
    obtain rfl := textUnder_nil_iff.1 hobject
    obtain rfl := textUnder_nil_iff.1 hinstaller
    rfl
  · rintro rfl
    exact ⟨textUnder_nil_iff.2 rfl, textUnder_nil_iff.2 rfl, textUnder_nil_iff.2 rfl⟩

theorem delaysIn_nil_iff {running error : Option Duration} :
    document.DelaysIn [] running error ↔ running = none ∧ error = none := by
  constructor
  · rintro ⟨hrunning, herror⟩
    exact ⟨under_nil_iff.1 hrunning, under_nil_iff.1 herror⟩
  · rintro ⟨hrunning, herror⟩
    exact ⟨under_nil_iff.2 hrunning, under_nil_iff.2 herror⟩

end Document

end Yaml

/-! ### Sections -/

open Yaml

variable {document : Document}

theorem ImageSettings.ofNode?_eq_some_iff (node : Node) (images : ImageSettings) :
    ofNode? document node = some images ↔
      ∃ members, document.members? node = some members ∧ document.ImagesIn members images := by
  simp only [ofNode?, Option.bind_eq_bind, Option.bind_eq_some_iff, Document.member?_eq_some_iff,
    Option.pure_def, Option.some.injEq]
  constructor
  · rintro ⟨members, hmembers, gitSync, hgit, objectStore, hobject, installer, hinstaller, rfl⟩
    exact ⟨members, hmembers, hgit, hobject, hinstaller⟩
  · rintro ⟨members, hmembers, hgit, hobject, hinstaller⟩
    exact ⟨members, hmembers, _, hgit, _, hobject, _, hinstaller, rfl⟩

/-- Whether delays are those in the members of their section, with the usual ones for the missing. -/
def Requeue.FromMembers (usual : Requeue) (document : Document) (members : List (String × Node))
    (requeue : Requeue) : Prop :=
  ∃ running error, document.DelaysIn members running error ∧
    requeue = { running := running.getD usual.running, error := error.getD usual.error }

theorem Requeue.ofNode?_eq_some_iff (node : Node) (requeue : Requeue) :
    ofNode? document node = some requeue ↔
      ∃ members, document.members? node = some members ∧ FromMembers {} document members requeue := by
  simp only [ofNode?, FromMembers, Option.bind_eq_bind, Option.bind_eq_some_iff,
    Document.member?_eq_some_iff, Option.pure_def, Option.some.injEq]
  constructor
  · rintro ⟨members, hmembers, _, ⟨running, hrunning, rfl⟩, _, ⟨error, herror, rfl⟩, rfl⟩
    exact ⟨members, hmembers, running, error, ⟨hrunning, herror⟩, rfl⟩
  · rintro ⟨members, hmembers, running, error, ⟨hrunning, herror⟩, rfl⟩
    exact ⟨members, hmembers, _, ⟨running, hrunning, rfl⟩, _, ⟨error, herror, rfl⟩, rfl⟩

theorem Requeue.fromMembers_nil_iff (requeue : Requeue) :
    FromMembers {} document [] requeue ↔ requeue = {} := by
  simp only [FromMembers, Document.delaysIn_nil_iff]
  constructor
  · rintro ⟨_, _, ⟨rfl, rfl⟩, rfl⟩
    rfl
  · rintro rfl
    exact ⟨none, none, ⟨rfl, rfl⟩, rfl⟩

namespace Settings

variable {settings : Settings}

/-- The settings of a document are those of what stands in it. -/
theorem ofDocument?_eq_some_iff :
    ofDocument? document = some settings ↔
      ∃ draft, document.Gives draft ∧ settings = draft.over {} := by
  simp only [ofDocument?, Option.bind_eq_bind, Option.bind_eq_some_iff,
    Document.member?_section_iff ImageSettings.ofNode?_eq_some_iff Document.imagesIn_nil_iff,
    Document.member?_section_iff Requeue.ofNode?_eq_some_iff Requeue.fromMembers_nil_iff,
    Document.member?_eq_some_iff, Option.pure_def, Option.some.injEq]
  constructor
  · rintro ⟨members, hmembers, ns, hns, images, ⟨inner, hinner, himages⟩, _, ⟨port, hport, rfl⟩, _,
      ⟨delays, hdelays, running, error, hrequeue, rfl⟩, rfl⟩
    exact ⟨⟨ns, images, port, running, error⟩,
      ⟨members, inner, delays, hmembers, hns, hinner, himages, hport, hdelays, hrequeue⟩, rfl⟩
  · rintro ⟨draft, ⟨members, images, delays, hmembers, hns, hsection, himages, hport, hdelays,
      hrequeue⟩, rfl⟩
    exact ⟨members, hmembers, _, hns, _, ⟨images, hsection, himages⟩, _, ⟨_, hport, rfl⟩, _,
      ⟨delays, hdelays, _, _, hrequeue, rfl⟩, rfl⟩

/-- The settings of a text are those of what stands in it. -/
theorem ofText?_eq_some_iff {text : String} :
    ofText? text = some settings ↔
      ∃ draft : Draft, draft.StandsIn text ∧ settings = draft.over {} := by
  constructor
  · intro h
    unfold ofText? at h
    split at h
    · next hblank => exact ⟨{}, .blank hblank, (Option.some.inj h).symm⟩
    · next hblank =>
      rw [Bool.not_eq_true] at hblank
      split at h
      · cases h
      · next hbare => exact ⟨{}, .bare hblank hbare, (Option.some.inj h).symm⟩
      · next hdocument =>
        obtain ⟨draft, hgives, rfl⟩ := ofDocument?_eq_some_iff.1 h
        exact ⟨draft, .document hblank hdocument hgives, rfl⟩
  · rintro ⟨draft, hdraft, rfl⟩
    cases hdraft with
    | blank h =>
      rw [ofText?, if_pos h]
      rfl
    | bare h hbare =>
      simp only [ofText?, h, hbare]
      rfl
    | document h hdocument hgives =>
      simp only [ofText?, h, hdocument]
      exact ofDocument?_eq_some_iff.2 ⟨draft, hgives, rfl⟩

end Settings

end JobOperator
