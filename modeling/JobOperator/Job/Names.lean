import JobOperator.Text.Decimal
import JobOperator.Text.Split

/-!
Names of the objects that belong to a job. The name of a pod is made of the names of its job and its
role and its index, so the role can be found again from the name.
-/

namespace JobOperator.Names

/-- The character between the parts of a name. -/
def separator : Char := '-'

/-- The host name of a replica, which the service of the job makes known to the other pods. -/
def host (role : String) (index : Int32) : String :=
  String.ofList (role.toList ++ separator :: Decimal.ofInt index.toInt)

/-- The name of the replica `index` of a role. -/
def pod (job role : String) (index : Int32) : String :=
  String.ofList (job.toList ++ separator :: (host role index).toList)

/-- The role that a pod's name speaks of, if it starts with the name of the job, ends with a
separator and digits, and has something in between. -/
def role? (job pod : String) : Option String := do
  let rest ← Text.afterLeading? job.toList pod.toList
  let rest ← Text.afterLeading? [separator] rest
  let (role, index) ← Text.splitLast? separator rest
  if !role.isEmpty && Decimal.isDigits index then some (String.ofList role) else none

end JobOperator.Names
