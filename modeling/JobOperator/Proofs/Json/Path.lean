import JobOperator.Proofs.Codec.Patch

/-!
Places in a document, and what a merge patch does to them. A patch that removes nothing gives values
to some places and makes objects of the places above these; every other place stays as it is, unless
something else than an object had to make room for an object.
-/

namespace JobOperator.Json

/-- A step into a document: to the value of a member, or to an item of an array. -/
inductive Step where
  | member (key : String)
  | item (index : Nat)
  deriving DecidableEq, Repr

/-- The document at the end of a path. -/
def at? : List Step → Json → Option Json
  | [], doc => some doc
  | .member key :: path, doc => (doc.get? key).bind (at? path)
  | .item index :: path, .arr items => items[index]?.bind (at? path)
  | .item _ :: _, _ => none

/-- Whether a document is an object. -/
def IsObject (doc : Json) : Prop := ∃ members, doc = .obj members

/-- Whether there is an object here, or nothing that an object would take the place of. -/
def Roomy (found : Option Json) : Prop := ∀ doc, found = some doc → doc = .null ∨ doc.IsObject

theorem roomy_none : Roomy none := nofun

theorem IsObject.roomy {doc : Json} (h : doc.IsObject) : Roomy (some doc) := by
  rintro _ ⟨⟩
  exact .inr h

/-- Whether a patch has an object at the end of a path. -/
def Leads (patch : Json) (path : List Step) : Prop := ∃ members, at? path patch = some (.obj members)

/-- Whether a patch has a value other than an object on a path. -/
def Gives (patch : Json) (path : List Step) : Prop :=
  ∃ above below value, path = above ++ below ∧ at? above patch = some value ∧ ¬ value.IsObject

section

variable {path : List Step} {doc patch : Json} {key : String} {members : List (String × Json)}

theorem at?_member (key : String) (path : List Step) (doc : Json) :
    at? (.member key :: path) doc = (lastMember? key doc.membersOrNone).bind (at? path) := by
  cases doc <;> rfl

theorem at?_item_of_roomy (index : Nat) (path : List Step) (h : Roomy (some doc)) :
    at? (.item index :: path) doc = none := by
  rcases h doc rfl with rfl | ⟨members, rfl⟩
  · rfl
  · rfl

theorem at?_null (step : Step) (path : List Step) : at? (step :: path) .null = none := by
  cases step <;> rfl

theorem Gives.of_not_object (h : ¬ patch.IsObject) : patch.Gives path :=
  ⟨[], path, patch, rfl, rfl, h⟩

theorem at?_member_of_lastMember? {value : Json} (hkey : lastMember? key members = some value)
    (path : List Step) : at? (.member key :: path) (.obj members) = at? path value := by
  rw [at?_member, membersOrNone, hkey, Option.bind_some]

theorem Leads.member {value : Json} (hkey : lastMember? key members = some value)
    (h : value.Leads path) : (obj members).Leads (.member key :: path) := by
  rwa [Leads, at?_member_of_lastMember? hkey]

theorem Gives.member {value : Json} (hkey : lastMember? key members = some value)
    (h : value.Gives path) : (obj members).Gives (.member key :: path) := by
  obtain ⟨above, below, leaf, rfl, habove, hleaf⟩ := h
  exact ⟨.member key :: above, below, leaf, rfl, (at?_member_of_lastMember? hkey above).trans habove,
    hleaf⟩

/-- What the value of a member was before a patch, which may have found none, is what a path through
that member leads to. -/
theorem roomy_at?_base (h : Roomy (at? (.member key :: path) doc)) :
    Roomy (at? path (base key doc.membersOrNone)) := by
  rw [at?_member] at h
  rw [base]
  cases hkey : lastMember? key doc.membersOrNone with
  | some value => rwa [hkey] at h
  | none =>
    cases path with
    | nil =>
      rintro _ ⟨⟩
      exact .inl rfl
    | cons step rest =>
      rw [Option.getD_none, at?_null]
      exact roomy_none

/-- What a patch does at a place: the place is as it was; or the patch leads there and leaves an
object; or it gives what is there. -/
def Outcome (patch doc : Json) (path : List Step) : Prop :=
  at? path (doc.mergePatch patch) = at? path doc ∨
    patch.Leads path ∧ (∃ after, at? path (doc.mergePatch patch) = some after ∧ after.IsObject) ∨
      patch.Gives path

/-- At its end, a path leads to an object of the patch or is given a value. -/
theorem outcome_nil (patch doc : Json) :
    patch.Leads [] ∧ (∃ after, at? [] (doc.mergePatch patch) = some after ∧ after.IsObject) ∨
      patch.Gives [] := by
  by_cases hobject : patch.IsObject
  · obtain ⟨members, rfl⟩ := hobject
    exact .inl ⟨⟨members, rfl⟩, _, rfl, _, mergePatch_obj _ _⟩
  · exact .inr (.of_not_object hobject)

/-- What a patch does below a member that it sets is what the value there does to the member. -/
theorem Outcome.member {value : Json} (hmembers : Sets members)
    (hkey : lastMember? key members = some value)
    (h : value.Outcome (base key doc.membersOrNone) path) :
    (obj members).Outcome doc (.member key :: path) := by
  have hafter : at? (.member key :: path) (doc.mergePatch (.obj members)) =
      (lastMember? key (mergeMembers doc.membersOrNone members)).bind (at? path) := by
    rw [mergePatch_obj, at?_member, membersOrNone]
  have hcases : lastMember? key (mergeMembers doc.membersOrNone members) =
        some ((base key doc.membersOrNone).mergePatch value) ∨
      ∃ kept, lastMember? key doc.membersOrNone = some kept ∧
        lastMember? key (mergeMembers doc.membersOrNone members) = some kept :=
    lastMember?_mergeMembers_of_mem hmembers (mem_of_lastMember? hkey)
  rcases hcases with hpatched | ⟨kept, hkept, hsame⟩
  · rw [hpatched, Option.bind_some] at hafter
    have hvalue : at? path ((base key doc.membersOrNone).mergePatch value) =
          at? (.member key :: path) doc ∨
        value.Leads path ∧ (∃ after, at? path ((base key doc.membersOrNone).mergePatch value) =
          some after ∧ after.IsObject) ∨ value.Gives path := by
      cases path with
      | nil => exact .inr (outcome_nil value _)
      | cons step rest =>
        refine h.imp_left fun hsame => hsame.trans ?_
        -- below a member that is missing there is nothing, as below one that is null
        rw [at?_member, base]
        cases lastMember? key doc.membersOrNone with
        | none => exact at?_null step rest
        | some found => rfl
    rcases hvalue with hvalue | ⟨hleads, after, hvalue, hobject⟩ | hgives
    · exact .inl (hafter.trans hvalue)
    · exact .inr (.inl ⟨hleads.member hkey, after, hafter.trans hvalue, hobject⟩)
    · exact .inr (.inr (hgives.member hkey))
  · -- the patch has set another member of this key, which does not show
    left
    rw [hafter, at?_member, hkept, hsame]

/-- Where a patch leads there is an object afterwards, and what it gives is there; any other place is
as it was. -/
theorem outcome (hsets : ∀ path members, at? path patch = some (.obj members) → Sets members)
    (hroomy : ∀ path, patch.Leads path → Roomy (at? path doc)) : patch.Outcome doc path := by
  induction path generalizing doc patch with
  | nil => exact .inr (outcome_nil patch doc)
  | cons step rest ih =>
    by_cases hobject : patch.IsObject
    · obtain ⟨members, rfl⟩ := hobject
      have hmembers : Sets members := hsets [] members rfl
      cases step with
      | item index =>
        left
        rw [mergePatch_obj, at?_item_of_roomy index rest (hroomy [] ⟨members, rfl⟩)]
        rfl
      | member key =>
        cases hkey : lastMember? key members with
        | none =>
          left
          rw [mergePatch_obj, at?_member, at?_member, membersOrNone,
            lastMember?_mergeMembers_of_ne hmembers (lastMember?_eq_none_iff.1 hkey)]
        | some value =>
          refine .member hmembers hkey (ih (fun path ms hpath => ?_) fun path hleads => ?_)
          · exact hsets (.member key :: path) ms ((at?_member_of_lastMember? hkey path).trans hpath)
          · exact roomy_at?_base (hroomy (.member key :: path) (hleads.member hkey))
    · exact .inr (.inr (.of_not_object hobject))

end

end JobOperator.Json
