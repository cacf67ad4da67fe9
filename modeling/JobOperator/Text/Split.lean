/-! Taking texts apart. -/

namespace JobOperator.Text

/-- The text after a leading part. -/
def afterLeading? : (leading text : List Char) → Option (List Char)
  | [], text => some text
  | _ :: _, [] => none
  | p :: leading, c :: text => if p = c then afterLeading? leading text else none

/-- The parts of a text before and after the last occurrence of a mark. -/
def splitLast? (mark : Char) (text : List Char) : Option (List Char × List Char) :=
  match text.reverse.span (· ≠ mark) with
  | (after, _ :: before) => some (before.reverse, after.reverse)
  | (_, []) => none

end JobOperator.Text
