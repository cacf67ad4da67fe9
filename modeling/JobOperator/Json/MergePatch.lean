import JobOperator.Json.Basic

/-!
JSON merge patches (RFC 7386): a patch object gives new values to members, `null` removes one, and
any other patch replaces the document.
-/

namespace JobOperator.Json

mutual

/-- The document after a patch. -/
def mergePatch (target : Json) : (patch : Json) → Json
  | .obj patch => .obj (mergeMembers target.membersOrNone patch)
  | patch => patch

/-- The members of an object after the members of a patch have been applied in order. -/
def mergeMembers (members : List (String × Json)) : (patch : List (String × Json)) →
    List (String × Json)
  | [] => members
  | (key, .null) :: rest => mergeMembers (eraseMember key members) rest
  | (key, patch) :: rest =>
    let value := ((lastMember? key members).getD .null).mergePatch patch
    mergeMembers (setMember key value members) rest

end

end JobOperator.Json
